import Codinalte.Bindings.Callback
import Codinalte.HostEE.Queue

/-! The generated event binding components (`_evl`) of asynchronous binds: the events that
`createFifo` makes, the private queue `TOP` they come from and go back to, and the queues of the
scheduler, which all components share. Each step of a call is one access to a queue or to a state.
-/

namespace Codinalte.Bindings.Evl
open Cbl (NmfError)
open HostEE (popMatching)

inductive NmfState where
  | default
  | stoppedWaitFlush
deriving DecidableEq

inductive PanicReason where
  | eventFifoOverflow
  | eventFifoInUse
deriving DecidableEq

/-- An asynchronous bind, to a component `targetTHIS` of the given priority. -/
structure Bind (M : Type) where
  size : Int
  subpriority : Int
  priority : Int
  targetTHIS : M
deriving DecidableEq

def maxCommunicationFifoSize : Int := 256

def maxCommunicationSubpriority : Int := 4

/-- `checkinterface` throws no exception. -/
def Bind.accepted {M : Type} (bind : Bind M) : Bool :=
  !(decide (bind.size ≤ 0) || decide (bind.size > maxCommunicationFifoSize)) &&
    !(decide (bind.subpriority < 0) || decide (bind.subpriority ≥ maxCommunicationSubpriority))

/-- The conversion of an argument to `t_uint8`. -/
def toUint8 (value : Int) : Nat := (value % 256).toNat

structure Event (K M : Type) where
  id : Nat
  this : K
  mutexHandle : M
  priority : Int
  subpriority : Int
deriving DecidableEq

/-- Where the call of `createFifo` or `destroyFifo` on a component is. `nested` is the call of
`destroyFifo` by `createFifo`; `created` and `destroyed` are the returns. -/
inductive BindPc where
  | idle
  | createTop (size : Nat)
  | allocate (size : Nat)
  | destroying (nested : Bool) (retries : Nat)
  | testState (nested : Bool) (retries : Nat)
  | schedulerRemove (nested : Bool) (retries : Nat)
  | created (result : NmfError)
  | destroyed (result : NmfError)
deriving DecidableEq

def BindPc.returned : BindPc → Bool
  | .created _ | .destroyed _ => true
  | _ => false

/-- Nobody has the interface of a component before its `createFifo` has returned. -/
def BindPc.creating : BindPc → Bool
  | .idle | .createTop _ | .allocate _ => true
  | .destroying nested _ | .testState nested _ | .schedulerRemove nested _ => nested
  | _ => false

/-- A thread posts a method, or is a worker that runs a reaction. -/
inductive ThreadPc (K M : Type) where
  | idle
  | posting (this : K)
  | sending (event : Event K M)
  | executing (event : Event K M)
  | testing (self : K)
deriving DecidableEq

def ThreadPc.hands {K M : Type} : ThreadPc K M → List (Event K M)
  | .sending e | .executing e => [e]
  | _ => []

/-- The components `K`, their targets `M` and the threads `T`; `queue` is `FirstEvent` of a priority
and a subpriority. The last four fields are records: the panics, the events that were made, those of
them that are not freed yet, and which component's `destroyFifo` has freed which event. -/
structure Fifos (K M T : Type) where
  top : K → Option (List (Event K M))
  fifosize : K → Nat
  binder : K → BindPc
  nmfState : M → NmfState
  queue : Int × Int → List (Event K M)
  thread : T → ThreadPc K M
  panics : List (PanicReason × K)
  made : List (Event K M)
  live : List (Event K M)
  freed : List (K × Event K M)

namespace Fifos
variable {K M T : Type} [DecidableEq K] [DecidableEq M] [DecidableEq T]

def start : Fifos K M T where
  top := fun _ => none
  fifosize := fun _ => 0
  binder := fun _ => .idle
  nmfState := fun _ => .default
  queue := fun _ => []
  thread := fun _ => .idle
  panics := []
  made := []
  live := []
  freed := []

def bindGoto (s : Fifos K M T) (k : K) (pc : BindPc) : Fifos K M T :=
  { s with binder := Function.update s.binder k pc }

def goto (s : Fifos K M T) (t : T) (pc : ThreadPc K M) : Fifos K M T :=
  { s with thread := Function.update s.thread t pc }

def panic (s : Fifos K M T) (reason : PanicReason) (k : K) : Fifos K M T :=
  { s with panics := s.panics ++ [(reason, k)] }

/-- An event is made and pushed in `TOP`, and `fifosize++`. -/
def allocateEvent (s : Fifos K M T) (bind : Bind M) (k : K) (events : List (Event K M)) :
    Fifos K M T :=
  let event : Event K M := ⟨s.made.length, k, bind.targetTHIS, bind.priority, bind.subpriority⟩
  { s with
    top := Function.update s.top k (some (events ++ [event]))
    fifosize := Function.update s.fifosize k (s.fifosize k + 1)
    made := s.made ++ [event]
    live := s.live ++ [event] }

/-- `delete`, and `fifosize--`. -/
def deleteEvent (s : Fifos K M T) (k : K) (event : Event K M) : Fifos K M T :=
  { s with
    fifosize := Function.update s.fifosize k (s.fifosize k - 1)
    live := s.live.erase event
    freed := s.freed ++ [(k, event)] }

/-- `destroyFifo` returns; `createFifo` does not look at its result. -/
def destroyReturns (s : Fifos K M T) (k : K) (nested : Bool) (result : NmfError) : Fifos K M T :=
  s.bindGoto k (if nested then .created .noMoreMemory else .destroyed result)

/-- The loop of `destroyFifo` up to `nmfQueuePop(TOP)`, and what follows the loop. -/
def destroyLoop (s : Fifos K M T) (k : K) (events : List (Event K M)) (nested : Bool)
    (retries : Nat) : Fifos K M T :=
  if s.fifosize k ≠ 0 ∧ retries ≠ 0 then
    match events with
    | event :: rest =>
      { s with top := Function.update s.top k (some rest) }.deleteEvent k event
    | [] => s.bindGoto k (.testState nested retries)
  else if s.fifosize k ≠ 0 then
    (s.panic .eventFifoInUse k).destroyReturns k nested .componentNotStopped
  else { s with top := Function.update s.top k none }.destroyReturns k nested .ok

/-- `nmfSchedulerRemove` takes the first event of the component. -/
def schedulerRemove (s : Fifos K M T) (bind : Bind M) (k : K) (nested : Bool) (retries : Nat) :
    Fifos K M T :=
  let queue := (bind.priority, bind.subpriority)
  match popMatching (fun event => event.this == k) (s.queue queue) with
  | (some event, rest) =>
    ({ s with queue := Function.update s.queue queue rest }.deleteEvent k event).bindGoto k
      (.destroying nested retries)
  | (none, _) => s.bindGoto k (.destroying nested (retries - 1))

/-- The call on a component goes on; `ok` says that an allocation succeeds. -/
def bindStep (binds : K → Bind M) (s : Fifos K M T) (k : K) (ok : Bool) : Option (Fifos K M T) :=
  match s.binder k with
  | .createTop size =>
    some (if ok then
      { s with
        top := Function.update s.top k (some [])
        fifosize := Function.update s.fifosize k 0 }.bindGoto k (.allocate size)
    else { s with top := Function.update s.top k none }.bindGoto k (.created .noMoreMemory))
  | .allocate size =>
    if s.fifosize k < size then
      if ok then (s.top k).map fun events => s.allocateEvent (binds k) k events
      else some (s.bindGoto k (.destroying true 30))
    else some (s.bindGoto k (.created .ok))
  | .destroying nested retries => (s.top k).map fun events => s.destroyLoop k events nested retries
  | .testState nested retries =>
    some (if s.nmfState (binds k).targetTHIS = .default then
      (s.panic .eventFifoInUse k).destroyReturns k nested .componentNotStopped
    else s.bindGoto k (.schedulerRemove nested retries))
  | .schedulerRemove nested retries => some (s.schedulerRemove (binds k) k nested retries)
  | _ => none

/-- A thread goes on: a method without an event in `TOP` is a panic, which returns. -/
def threadStep (s : Fifos K M T) (t : T) : Option (Fifos K M T) :=
  match s.thread t with
  | .posting k => (s.top k).map fun events =>
    match events with
    | [] => (s.panic .eventFifoOverflow k).goto t .idle
    | event :: rest =>
      { s with top := Function.update s.top k (some rest) }.goto t (.sending event)
  | .sending event =>
    let queue := (event.priority, event.subpriority)
    some ({ s with queue := Function.update s.queue queue (s.queue queue ++ [event]) }.goto t .idle)
  | .executing event => (s.top event.this).map fun events =>
    { s with top := Function.update s.top event.this (some (events ++ [event])) }.goto t
      (.testing event.this)
  | .testing _ => some (s.goto t .idle)
  | .idle => none

/-- `getNextEvent` of a worker, in one subpriority; `locked` are the targets that are busy. -/
def getNextEvent (s : Fifos K M T) (t : T) (queue : Int × Int) (locked : M → Bool) : Fifos K M T :=
  match popMatching (fun event => !locked event.mutexHandle) (s.queue queue) with
  | (some event, rest) =>
    { s with queue := Function.update s.queue queue rest }.goto t (.executing event)
  | (none, _) => s

end Fifos

inductive Action (K M T : Type) where
  | createFifo (k : K)
  | destroyFifo (k : K)
  | binder (k : K) (ok : Bool)
  | post (t : T) (k : K)
  | getNextEvent (t : T) (queue : Int × Int) (locked : M → Bool)
  | thread (t : T)
  | construct (m : M)
  | stopFlush (m : M)

/-- `createFifo` is called by `construct`, once. A method tests the state before anything else. -/
def Fifos.step {K M T : Type} [DecidableEq K] [DecidableEq M] [DecidableEq T] (binds : K → Bind M)
    (s : Fifos K M T) : Action K M T → Option (Fifos K M T)
  | .createFifo k =>
    if s.binder k = .idle then some (s.bindGoto k (.createTop (toUint8 (binds k).size))) else none
  | .destroyFifo k =>
    if (s.binder k).returned then
      some (s.bindGoto k (if s.top k = none then .destroyed .interfaceNotBinded
        else .destroying false 30))
    else none
  | .binder k ok => s.bindStep binds k ok
  | .post t k =>
    if s.thread t = .idle ∧ ¬ (s.binder k).creating then
      some (if s.nmfState (binds k).targetTHIS = .stoppedWaitFlush then s else s.goto t (.posting k))
    else none
  | .getNextEvent t queue locked =>
    if s.thread t = .idle then some (s.getNextEvent t queue locked) else none
  | .thread t => s.threadStep t
  | .construct m => some { s with nmfState := Function.update s.nmfState m .default }
  | .stopFlush m => some { s with nmfState := Function.update s.nmfState m .stoppedWaitFlush }

end Codinalte.Bindings.Evl
