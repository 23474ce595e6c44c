import Codinalte.Lib.Machine
import Mathlib.Logic.Function.Basic

/-! The generated callback binding components (`_cbl`): the events that `createFifo` makes, the
private queue `TOP` they come from and go back to, and the message queues of the channels, which the
components share. Each step of a call is one access to a queue or to a counter. -/

namespace Codinalte.Bindings.Cbl

inductive NmfError where
  | ok
  | invalidParameter
  | noMoreMemory
  | componentNotStopped
  | interfaceNotBinded
deriving DecidableEq

def toUint8 (value : Nat) : Nat := value % 256

structure Event (K C : Type) where
  id : Nat
  this : K
  channel : C
deriving DecidableEq

/-- Where the thread is that binds or unbinds a component. `nested` is the call of `destroyFifo` by
`createFifo`; `created` and `destroyed` are the returns. -/
inductive BindPc where
  | idle
  | createTop (size : Nat)
  | allocate (i size : Nat)
  | destroying (nested : Bool) (retries : Nat)
  | lookInChannel (nested : Bool) (retries : Nat)
  | removeRef (nested : Bool)
  | removeRefAgain
  | created (result : NmfError)
  | destroyed (result : NmfError)

def BindPc.atRest : BindPc → Bool
  | .idle | .created _ | .destroyed _ => true
  | _ => false

/-- Nobody has the interface of a component before its `createFifo` has returned. -/
def BindPc.creating : BindPc → Bool
  | .createTop _ | .allocate _ _ => true
  | _ => false

/-- Where a thread is that posts a method, or that has got a message and runs its reaction. -/
inductive ThreadPc (K C : Type) where
  | idle
  | posting (event : Event K C)
  | pushing (event : Event K C)
  | reacting (event : Event K C)
  | testing (self : K)
deriving DecidableEq

def ThreadPc.hands {K C : Type} : ThreadPc K C → List (Event K C)
  | .posting e | .pushing e | .reacting e => [e]
  | _ => []

/-- The components `K`, the channels `C` and the threads `T`. The last five fields are records: the
events that were made, those of them that are not freed yet, which component's `destroyFifo` has
freed which event, which component holds a reference to which channel, and by how much the last call
on a component has changed `bindRefCounter`. -/
structure Callbacks (K C T : Type) where
  top : K → Option (List (Event K C))
  channel : K → Option C
  size : K → Nat
  waitFlush : K → Bool
  binder : K → BindPc
  message : C → List (Event K C)
  bindRefCounter : C → Nat
  opened : C → Bool
  thread : T → ThreadPc K C
  made : List (Event K C)
  live : List (Event K C)
  freed : List (K × Event K C)
  refs : List (K × C)
  balance : K → Int

namespace Callbacks
variable {K C T : Type} [DecidableEq K] [DecidableEq C] [DecidableEq T]

def start : Callbacks K C T where
  top := fun _ => none
  channel := fun _ => none
  size := fun _ => 0
  waitFlush := fun _ => false
  binder := fun _ => .idle
  message := fun _ => []
  bindRefCounter := fun _ => 0
  opened := fun _ => false
  thread := fun _ => .idle
  made := []
  live := []
  freed := []
  refs := []
  balance := fun _ => 0

def bindGoto (s : Callbacks K C T) (k : K) (pc : BindPc) : Callbacks K C T :=
  { s with binder := Function.update s.binder k pc }

def goto (s : Callbacks K C T) (t : T) (pc : ThreadPc K C) : Callbacks K C T :=
  { s with thread := Function.update s.thread t pc }

/-- `nmfChannelRemoveRef`. -/
def channelRemoveRef (s : Callbacks K C T) (k : K) (c : C) : Callbacks K C T :=
  if s.opened c ∧ s.bindRefCounter c ≠ 0 then
    { s with
      bindRefCounter := Function.update s.bindRefCounter c (s.bindRefCounter c - 1)
      refs := s.refs.erase (k, c)
      balance := Function.update s.balance k (s.balance k - 1) }
  else s

/-- The new component calls `nmfChannelAddRef`. -/
def createFifo (s : Callbacks K C T) (k : K) (c : C) (size : Nat) : Callbacks K C T :=
  let s := { s with
    waitFlush := Function.update s.waitFlush k false
    balance := Function.update s.balance k 0 }
  if s.opened c then
    { s with
      bindRefCounter := Function.update s.bindRefCounter c (s.bindRefCounter c + 1)
      refs := (k, c) :: s.refs
      balance := Function.update s.balance k 1
      channel := Function.update s.channel k (some c) }.bindGoto k (.createTop (toUint8 size))
  else s.bindGoto k (.created .invalidParameter)

/-- An event is made and pushed in `TOP`. -/
def allocateEvent (s : Callbacks K C T) (k : K) (c : C) (events : List (Event K C)) :
    Callbacks K C T :=
  let event : Event K C := ⟨s.made.length, k, c⟩
  { s with
    top := Function.update s.top k (some (events ++ [event]))
    made := s.made ++ [event]
    live := s.live ++ [event] }

/-- `delete`, and `size--`. -/
def deleteEvent (s : Callbacks K C T) (k : K) (event : Event K C) : Callbacks K C T :=
  { s with
    size := Function.update s.size k (s.size k - 1)
    live := s.live.erase event
    freed := s.freed ++ [(k, event)] }

/-- The loop of `destroyFifo` up to `nmfQueuePop(TOP)`, and what follows the loop. -/
def destroyLoop (s : Callbacks K C T) (k : K) (events : List (Event K C)) (nested : Bool)
    (retries : Nat) : Callbacks K C T :=
  if s.size k ≠ 0 ∧ retries ≠ 0 then
    match events with
    | event :: rest =>
      { s with top := Function.update s.top k (some rest) }.deleteEvent k event
    | [] => s.bindGoto k (.lookInChannel nested retries)
  else if s.size k ≠ 0 then
    s.bindGoto k (if nested then .removeRefAgain else .destroyed .componentNotStopped)
  else { s with top := Function.update s.top k none }.bindGoto k (.removeRef nested)

/-- `nmfRemoveMessageFromChannel`. -/
def removeMessage (s : Callbacks K C T) (k : K) (c : C) (nested : Bool) (retries : Nat) :
    Callbacks K C T :=
  match s.message c with
  -- the first message, of whichever component it is
  | event :: rest =>
    ({ s with message := Function.update s.message c rest }.deleteEvent k event).bindGoto k
      (.destroying nested retries)
  | [] => s.bindGoto k (.destroying nested (retries - 1))

/-- The call on a component goes on; `ok` says that an allocation succeeds. -/
def bindStep (s : Callbacks K C T) (k : K) (ok : Bool) : Option (Callbacks K C T) :=
  match s.binder k with
  | .createTop size => (s.channel k).map fun c =>
    if ok then { s with top := Function.update s.top k (some []) }.bindGoto k (.allocate 0 size)
    else (s.channelRemoveRef k c).bindGoto k (.created .noMoreMemory)
  | .allocate i size =>
    if i < size then
      if ok then (s.channel k).bind fun c => (s.top k).map fun events =>
        (s.allocateEvent k c events).bindGoto k (.allocate (i + 1) size)
      -- `size` is not set yet
      else some (s.bindGoto k (.destroying true 30))
    else some ({ s with size := Function.update s.size k size }.bindGoto k (.created .ok))
  | .destroying nested retries => (s.top k).map fun events => s.destroyLoop k events nested retries
  | .lookInChannel nested retries => (s.channel k).map fun c => s.removeMessage k c nested retries
  | .removeRef nested => (s.channel k).map fun c =>
    (s.channelRemoveRef k c).bindGoto k (if nested then .removeRefAgain else .destroyed .ok)
  | .removeRefAgain => (s.channel k).map fun c =>
    (s.channelRemoveRef k c).bindGoto k (.created .noMoreMemory)
  | _ => none

/-- A thread goes on. A method that is posted is lost where the component waits for its flush. -/
def threadStep (s : Callbacks K C T) (t : T) : Option (Callbacks K C T) :=
  match s.thread t with
  | .posting event =>
    some (if s.waitFlush event.this then s.goto t .idle else s.goto t (.pushing event))
  | .pushing event =>
    some ({ s with message :=
      Function.update s.message event.channel (s.message event.channel ++ [event]) }.goto t .idle)
  | .reacting event => (s.top event.this).map fun events =>
    { s with top := Function.update s.top event.this (some (events ++ [event])) }.goto t
      (.testing event.this)
  | .testing _ => some (s.goto t .idle)
  | .idle => none

/-- A method is posted: without an event in `TOP` that is a panic, which returns. -/
def post (s : Callbacks K C T) (t : T) (events : List (Event K C)) (k : K) : Callbacks K C T :=
  match events with
  | [] => s
  | event :: rest =>
    { s with top := Function.update s.top k (some rest) }.goto t (.posting event)

/-- `nmfGetMessage` that finds no message on the queue gives a flush message. -/
def getMessage (s : Callbacks K C T) (t : T) (c : C) : Callbacks K C T :=
  match s.message c with
  | [] => s
  | event :: rest =>
    { s with message := Function.update s.message c rest }.goto t (.reacting event)

end Callbacks

inductive Action (K C T : Type) where
  | openChannel (c : C)
  | closeChannel (c : C)
  | createFifo (k : K) (c : C) (size : Nat)
  | destroyFifo (k : K)
  | binder (k : K) (ok : Bool)
  | post (t : T) (k : K)
  | getMessage (t : T) (c : C)
  | thread (t : T)
  | stopFlush (k : K)

/-- A channel is closed with its last reference, and not while a component holds it. -/
def Callbacks.step {K C T : Type} [DecidableEq K] [DecidableEq C] [DecidableEq T]
    (s : Callbacks K C T) : Action K C T → Option (Callbacks K C T)
  | .openChannel c =>
    if s.opened c then none
    else some { s with
      opened := Function.update s.opened c true
      bindRefCounter := Function.update s.bindRefCounter c 0
      message := Function.update s.message c [] }
  | .closeChannel c =>
    if s.opened c ∧ s.bindRefCounter c = 0 then
      some { s with
        opened := Function.update s.opened c false
        message := Function.update s.message c [] }
    else none
  | .createFifo k c size =>
    if (s.binder k).atRest ∧ s.top k = none then some (s.createFifo k c size) else none
  | .destroyFifo k =>
    if (s.binder k).atRest then
      let s := { s with balance := Function.update s.balance k 0 }
      some (if s.top k = none then s.bindGoto k (.destroyed .interfaceNotBinded)
        else s.bindGoto k (.destroying false 30))
    else none
  | .binder k ok => s.bindStep k ok
  | .post t k =>
    if s.thread t = .idle ∧ ¬ (s.binder k).creating then
      (s.top k).map fun events => s.post t events k
    else none
  | .getMessage t c => if s.thread t = .idle ∧ s.opened c then some (s.getMessage t c) else none
  | .thread t => s.threadStep t
  | .stopFlush k => some { s with waitFlush := Function.update s.waitFlush k true }

end Codinalte.Bindings.Cbl
