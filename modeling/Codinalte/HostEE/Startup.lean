import Codinalte.Lib.Machine
import Mathlib.Logic.Function.Basic

/-! Starting and stopping the threads of one priority: `signalComponentCreation` with what it takes
from the scheduler, from the configuration and from the distribution, and what it gives back. Each
step of the call, of a worker and of the distribution thread is one access. -/

namespace Codinalte.HostEE.Startup

def maxSchedulerSubpriorityNumber : Nat := 4

structure ThConfig where
  nmfPrio : Nat
  nWorkerThreads : Int
  distributionTh : Bool
deriving DecidableEq

/-- A library that is built with `HOST_ONLY` has no component behind `distribution`. -/
structure EeConfiguration where
  hostOnly : Bool
  threadCfg : List ThConfig

namespace EeConfiguration

def getCfgForPrio (c : EeConfiguration) (priority : Nat) : Option ThConfig :=
  c.threadCfg.find? fun cfg => cfg.nmfPrio == priority

def isDistributionThread (c : EeConfiguration) (priority : Nat) : Bool :=
  !c.hostOnly && (c.getCfgForPrio priority).any ThConfig.distributionTh

end EeConfiguration

/-- What a start creates: the first two for the distribution, the others in the context. -/
inductive Role where
  | channel
  | syncChannelCloseSem
  | rendezVousSem
  | semNotifier
  | priorityQueuesMutex
  | firstEvent (i : Nat)
deriving DecidableEq

def Role.ofContext : Role → Bool
  | .channel | .syncChannelCloseSem => false
  | .firstEvent i => i < maxSchedulerSubpriorityNumber
  | _ => true

/-- The fields that the code sets to zero after it has destroyed what they refer to. -/
def Role.cleared : Role → Bool
  | .channel | .syncChannelCloseSem | .firstEvent _ => true
  | _ => false

/-- What a field refers to. -/
inductive Handle where
  | null
  | live
  | dangling
deriving DecidableEq

/-- A start that fails and a stop have their last steps in common. -/
inductive Leave where
  | failed
  | stopped
deriving DecidableEq

/-- Where the call is that holds `refCounterLock`, or how the last one has returned. -/
inductive MainPc where
  | returned (result : Nat)
  | createChannel
  | createCloseSem
  | closeChannel
  | createRendezVous
  | createNotifier
  | createMutex
  | createQueue (i : Nat)
  | initAttr
  | createDistribution
  | createWorker (j : Nat)
  | threadsStarted (result : Int)
  | flushChannel (leave : Leave)
  | awaitDistribution (leave : Leave)
  | destroyCloseSem (leave : Leave)
  | destroyChannel (leave : Leave)
  | deactivate (leave : Leave)
  | wakeWorkers (leave : Leave) (i : Nat)
  | awaitWorkers (leave : Leave) (i : Nat)
  | destroyQueue (leave : Leave) (i : Nat)
  | destroyMutex (leave : Leave)
  | destroyNotifier (leave : Leave)
  | destroyRendezVous (leave : Leave)
  | giveUp
  | refuse
  | panicked

/-- Where a worker is in `sched_stater` and in `schedLoop`. -/
inductive WorkerPc where
  | starting
  | testActive
  | getNext
  | reacting
  | sleeping
  | leaving
deriving DecidableEq

/-- Where the distribution thread is in `distribution_stater` and in `MessagePuller`. -/
inductive PullerPc where
  | starting
  | pulling
  | leaving
deriving DecidableEq

/-- What outlives a call. `threadNumber` and `wakeUpCounter` do not: a start writes them before
anybody reads them. A field that refers to nothing is told from one that refers to what is destroyed
only where the code tests it, and `leaked` counts what no field refers to any more. -/
structure Snapshot where
  bindingRefCounter : Nat
  isActive : Bool
  handle : Role → Handle
  leaked : Nat
  workers : Nat
  pullers : Nat

/-- The context of a priority with the fields of the distribution for it, the values of its
semaphores (for a channel the flush messages in it) and the threads. `created` and `before` are
records: the workers that the last start has created, and what it found. -/
structure Priority where
  bindingRefCounter : Nat
  threadNumber : Int
  wakeUpCounter : Int
  isActive : Bool
  handle : Role → Handle
  value : Role → Nat
  leaked : Nat
  main : MainPc
  workers : List WorkerPc
  pullers : List PullerPc
  created : Nat
  before : Snapshot

def Handle.settled (r : Role) : Handle → Handle
  | .dangling => if r.cleared then .dangling else .null
  | h => h

def Snapshot.rest : Snapshot := ⟨0, false, fun _ => .null, 0, 0, 0⟩

namespace Priority

def start : Priority where
  bindingRefCounter := 0
  threadNumber := 0
  wakeUpCounter := 0
  isActive := false
  handle := fun _ => .null
  value := fun _ => 0
  leaked := 0
  main := .returned 0
  workers := []
  pullers := []
  created := 0
  before := .rest

def snapshot (s : Priority) : Snapshot where
  bindingRefCounter := s.bindingRefCounter
  isActive := s.isActive
  handle := fun r => (s.handle r).settled r
  leaked := s.leaked
  workers := s.workers.length
  pullers := s.pullers.length

def goto (s : Priority) (pc : MainPc) : Priority := { s with main := pc }

/-- A field is written with what a creation returns. -/
def assign (s : Priority) (r : Role) (fails : Bool) : Priority :=
  { s with
    leaked := if s.handle r = .live then s.leaked + 1 else s.leaked
    handle := Function.update s.handle r (if fails then .null else .live)
    value := Function.update s.value r 0 }

def create (s : Priority) (r : Role) (fails : Bool) (next onError : MainPc) : Priority :=
  (s.assign r fails).goto (if fails then onError else next)

/-- Destroys what a field refers to; `sem` and `mutex` handles of the context are not cleared. -/
def destroy (s : Priority) (r : Role) : Priority :=
  { s with handle := Function.update s.handle r (if r.cleared then .null else .dangling) }

def semV (s : Priority) (r : Role) : Priority :=
  { s with value := Function.update s.value r (s.value r + 1) }

def semP (s : Priority) (r : Role) : Option Priority :=
  if 0 < s.value r then some { s with value := Function.update s.value r (s.value r - 1) } else none

/-- The body of the loop that creates the workers, and the return of `notifyStart`. -/
def startWorker (s : Priority) (cfg : ThConfig) (j : Nat) (fails : Bool) : Priority :=
  if (j : Int) < cfg.nWorkerThreads then
    -- how many workers there are, as a negative number: they have to leave again
    if fails then s.goto (.threadsStarted (-j))
    else
      { s with workers := s.workers ++ [WorkerPc.starting], created := j + 1 }.goto (.createWorker (j + 1))
  else s.goto (.threadsStarted j)

def testThreads (s : Priority) (distributes : Bool) (result : Int) : Priority :=
  if result ≤ 0 then
    let s := { s with threadNumber := -result }
    if distributes then
      if s.threadNumber ≠ 0 then s.goto (.flushChannel .failed) else s.goto (.deactivate .failed)
    else s.goto (.deactivate .failed)
  else { s with threadNumber := result }.goto (.returned 0)

/-- The call that holds `refCounterLock` goes on; `fails` is for what can fail in this step. A
private channel that is open is always flushed. -/
def advance (c : EeConfiguration) (priority : Nat) (s : Priority) (fails : Bool) : Option Priority :=
  match s.main with
  | .returned _ | .panicked => none
  | .createChannel =>
    -- a channel that an earlier start has left
    if s.handle .channel ≠ .null then some (s.goto .panicked)
    else some (s.create .channel fails .createCloseSem .refuse)
  | .createCloseSem =>
    some (s.create .syncChannelCloseSem fails .createRendezVous .closeChannel)
  | .closeChannel => some ((s.destroy .channel).goto .refuse)
  | .createRendezVous =>
    some ({ s with wakeUpCounter := 0, isActive := true }.create .rendezVousSem fails .createNotifier
      .giveUp)
  | .createNotifier =>
    some (s.create .semNotifier fails .createMutex (.destroyRendezVous .failed))
  | .createMutex =>
    some (s.create .priorityQueuesMutex fails (.createQueue 0) (.destroyNotifier .failed))
  | .createQueue i =>
    if i < maxSchedulerSubpriorityNumber then
      some (s.create (.firstEvent i) fails (.createQueue (i + 1)) (.destroyQueue .failed 0))
    else some (s.goto .initAttr)
  | .initAttr =>
    if (c.getCfgForPrio priority).isNone ∨ fails then some (s.goto (.threadsStarted 0))
    else some (s.goto .createDistribution)
  | .createDistribution =>
    if c.isDistributionThread priority then
      if fails then some (s.goto (.threadsStarted 0))
      else some ({ s with pullers := s.pullers ++ [PullerPc.starting] }.goto (.createWorker 0))
    else some (s.goto (.createWorker 0))
  | .createWorker j => (c.getCfgForPrio priority).map fun cfg => s.startWorker cfg j fails
  | .threadsStarted result => some (s.testThreads (c.isDistributionThread priority) result)
  | .flushChannel leave =>
    if s.handle .channel = .null then some (s.goto .panicked)
    else some ((s.semV .channel).goto (.awaitDistribution leave))
  | .awaitDistribution leave =>
    (s.semP .syncChannelCloseSem).map fun s => s.goto (.destroyCloseSem leave)
  | .destroyCloseSem leave => some ((s.destroy .syncChannelCloseSem).goto (.destroyChannel leave))
  | .destroyChannel leave =>
    let s := s.destroy .channel
    match leave with
    -- `errorThreadNumber` takes the distribution thread for one of the workers
    | .failed => some ({ s with threadNumber := s.threadNumber - 1 }.goto (.deactivate leave))
    | .stopped => some (s.goto (.deactivate leave))
  | .deactivate leave => some ({ s with isActive := false }.goto (.wakeWorkers leave 0))
  | .wakeWorkers leave i =>
    if (i : Int) < s.threadNumber then some ((s.semV .semNotifier).goto (.wakeWorkers leave (i + 1)))
    else some (s.goto (.awaitWorkers leave 0))
  | .awaitWorkers leave i =>
    if (i : Int) < s.threadNumber then
      (s.semP .rendezVousSem).map fun s => s.goto (.awaitWorkers leave (i + 1))
    else match leave with
      | .failed => some ({ s with threadNumber := 0 }.goto (.destroyQueue leave 0))
      | .stopped => some ({ s with wakeUpCounter := 0 }.goto (.destroyQueue leave 0))
  | .destroyQueue leave i =>
    if i < maxSchedulerSubpriorityNumber then
      some ((s.destroy (.firstEvent i)).goto (.destroyQueue leave (i + 1)))
    else some (s.goto (.destroyMutex leave))
  | .destroyMutex leave => some ((s.destroy .priorityQueuesMutex).goto (.destroyNotifier leave))
  | .destroyNotifier leave => some ((s.destroy .semNotifier).goto (.destroyRendezVous leave))
  | .destroyRendezVous leave =>
    let s := s.destroy .rendezVousSem
    match leave with
    | .failed => some (s.goto .giveUp)
    | .stopped => some (s.goto (.returned 0))
  | .giveUp => some ({ s with isActive := false }.goto .refuse)
  | .refuse =>
    some ({ s with bindingRefCounter := s.bindingRefCounter - 1 }.goto (.returned 1))

/-- `signalComponentCreation` has taken the lock. -/
def signalCreation (s : Priority) (distributes : Bool) : Priority :=
  if s.bindingRefCounter = 0 then
    { s with bindingRefCounter := 1, created := 0, before := s.snapshot }.goto
      (if distributes then .createChannel else .createRendezVous)
  else { s with bindingRefCounter := s.bindingRefCounter + 1 }.goto (.returned 0)

/-- `signalComponentDestruction` has taken the lock. -/
def signalDestruction (s : Priority) (distributes : Bool) : Priority :=
  if s.bindingRefCounter = 1 then
    { s with bindingRefCounter := 0 }.goto
      (if distributes then .flushChannel .stopped else .deactivate .stopped)
  else { s with bindingRefCounter := s.bindingRefCounter - 1 }.goto (.returned 0)

def setWorker (s : Priority) (i : Nat) (pc : WorkerPc) : Priority :=
  { s with workers := s.workers.set i pc }

def dropWorker (s : Priority) (i : Nat) : Priority := { s with workers := s.workers.eraseIdx i }

/-- A worker goes on. At its start `choice` says that the process may set the priority of a thread,
which ends otherwise, and in `getNextEvent` that there is an event to run. -/
def workerStep (s : Priority) (i : Nat) (choice : Bool) : WorkerPc → Option Priority
  | .starting => some (if choice then s.setWorker i .testActive else s.dropWorker i)
  | .testActive => some (s.setWorker i (if s.isActive then .getNext else .leaving))
  | .getNext =>
    if choice then some (s.setWorker i .reacting)
    else some ({ s with wakeUpCounter := s.wakeUpCounter - 1 }.setWorker i .sleeping)
  | .reacting => some (s.setWorker i .getNext)
  | .sleeping => (s.semP .semNotifier).map fun s => s.setWorker i .testActive
  | .leaving => some ((s.semV .rendezVousSem).dropWorker i)

def setPuller (s : Priority) (i : Nat) (pc : PullerPc) : Priority :=
  { s with pullers := s.pullers.set i pc }

def dropPuller (s : Priority) (i : Nat) : Priority := { s with pullers := s.pullers.eraseIdx i }

/-- The distribution thread runs what it gets from the channel until it gets the flush message. -/
def pullerStep (s : Priority) (i : Nat) (choice : Bool) : PullerPc → Option Priority
  | .starting => some (if choice then s.setPuller i .pulling else s.dropPuller i)
  | .pulling => (s.semP .channel).map fun s => s.setPuller i .leaving
  | .leaving => some ((s.semV .syncChannelCloseSem).dropPuller i)

/-- `wakeUpIfNeeded` of an event that a component posts. -/
def wakeUpIfNeeded (s : Priority) : Priority :=
  if s.wakeUpCounter < 0 then
    { s with wakeUpCounter := s.wakeUpCounter + 1 }.semV .semNotifier
  else s

end Priority

inductive Action where
  | create
  | destroy
  | main (fails : Bool)
  | worker (i : Nat) (choice : Bool)
  | puller (i : Nat) (choice : Bool)
  | post

def MainPc.atRest : MainPc → Bool
  | .returned _ => true
  | _ => false

/-- A component is destroyed, or posts, only where it has been created. -/
def Priority.step (c : EeConfiguration) (priority : Nat) (s : Priority) : Action → Option Priority
  | .create =>
    if s.main.atRest then some (s.signalCreation (c.isDistributionThread priority)) else none
  | .destroy =>
    if s.main.atRest ∧ 0 < s.bindingRefCounter then
      some (s.signalDestruction (c.isDistributionThread priority))
    else none
  | .main fails => s.advance c priority fails
  | .worker i choice => s.workers[i]?.bind fun pc => s.workerStep i choice pc
  | .puller i choice => s.pullers[i]?.bind fun pc => s.pullerStep i choice pc
  | .post => if s.main.atRest ∧ 0 < s.bindingRefCounter then some s.wakeUpIfNeeded else none

end Codinalte.HostEE.Startup
