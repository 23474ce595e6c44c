import Codinalte.HostEE.ListImp
import Codinalte.Lib.Machine

/-! The channels of the host execution engine, the services registered on them and the references of
the bindings: the calls of the channel interface under `channelListLock`, with any allocation
failing. A list is the list of its elements. -/

namespace Codinalte.HostEE
open Codinalte.Machine

def NMF_CHANNEL_SHARED : Nat := 0

def NMF_CHANNEL_PRIVATE : Nat := 1

/-- A `t_ee_service`. -/
structure ServiceElem where
  handler : Nat
  contextHandler : Nat
  refCounter : Nat
deriving DecidableEq

def ServiceElem.key (e : ServiceElem) : Nat × Nat := (e.handler, e.contextHandler)

/-- A `t_ee_channel`; the flags say which parts it has, and `services` are the elements of its
`serviceCallbackList`. -/
structure ChannelElem where
  refCounter : Nat
  bindRefCounter : Nat
  sem : Bool
  serviceCallbackList : Bool
  service : Bool
  message : Bool
  services : List Nat
deriving DecidableEq

/-- How many objects of each kind exist for the channels. -/
structure Live where
  semaphores : Nat
  lists : Nat
  mutexes : Nat
  queues : Nat
deriving DecidableEq

/-- How the allocations of `createChannel` turn out. -/
structure Allocations where
  channel : Option Nat
  sem : Bool
  list : Bool
  mutex : Bool
  service : Bool
  message : Bool
deriving DecidableEq

inductive RegistryCall where
  | createChannel (flags : Nat) (hasResult : Bool) (allocations : Allocations)
  | closeChannel (channel : Nat)
  | registerService (channel handler contextHandler : Nat) (pToAdd : Option Nat)
  | unregisterService (channel handler contextHandler : Nat)
  | addRef (channel : Nat)
  | removeRef (channel : Nat)
deriving DecidableEq

/-- `NMF_OK`, for `EE_CreateChannel` with the channel, or an error. -/
inductive Answer where
  | ok
  | created (channel : Nat)
  | invalidParameter
  | noMoreMemory
deriving DecidableEq

def Answer.isError : Answer → Bool
  | .invalidParameter | .noMoreMemory => true
  | _ => false

/-- `isShared` and `log` are records: how the channel at an address was created, and the calls with
their answers. -/
structure Registry where
  channelListLock : Bool
  channelList : List Nat
  pSharedChannel : Option Nat
  channel : Nat → ChannelElem
  serviceElem : Nat → ServiceElem
  allocated : List Nat
  live : Live
  isShared : Nat → Bool
  log : List (RegistryCall × Answer)

/-- What the memory holds at first is of no matter. -/
def Registry.init (channel : Nat → ChannelElem) (serviceElem : Nat → ServiceElem) : Registry where
  channelListLock := false
  channelList := []
  pSharedChannel := none
  channel := channel
  serviceElem := serviceElem
  allocated := []
  live := ⟨0, 0, 0, 0⟩
  isShared := fun _ => false
  log := []

/-- What a `t_uint32` holds. -/
def toUint32 (value : Nat) : Nat := value % 4294967296

namespace Live

/-- `list.create` with a mutex. -/
def createList (l : Live) (list mutex : Bool) : Live × Bool :=
  if list then
    if mutex then ({ l with lists := l.lists + 1, mutexes := l.mutexes + 1 }, true)
    -- the list is freed again
    else ({ l with lists := l.lists + 1 - 1 }, false)
  else (l, false)

def destroyList (l : Live) : Live := { l with lists := l.lists - 1, mutexes := l.mutexes - 1 }

def createQueue (l : Live) : Live := { l with queues := l.queues + 1 }

def destroyQueue (l : Live) : Live := { l with queues := l.queues - 1 }

def createSem (l : Live) : Live := { l with semaphores := l.semaphores + 1 }

def destroySem (l : Live) : Live := { l with semaphores := l.semaphores - 1 }

end Live

/-- The fields at the start of `createChannel`. -/
def ChannelElem.zeroed : ChannelElem := ⟨1, 0, false, false, false, false, []⟩

/-- The parts that `createChannel` makes, up to the first that fails. -/
def createParts (l : Live) (a : Allocations) : Live × ChannelElem × Bool :=
  let e := ChannelElem.zeroed
  if a.sem then
    let l := l.createSem
    let e := { e with sem := true }
    match l.createList a.list a.mutex with
    | (l, false) => (l, e, false)
    | (l, true) =>
      let e := { e with serviceCallbackList := true }
      if a.service then
        let l := l.createQueue
        let e := { e with service := true }
        if a.message then (l.createQueue, { e with message := true }, true) else (l, e, false)
      else (l, e, false)
  else (l, e, false)

/-- The label `error` of `createChannel`. -/
def releaseParts (l : Live) (e : ChannelElem) : Live :=
  let l := if e.service then l.destroyQueue else l
  let l := if e.serviceCallbackList then l.destroyList else l
  if e.sem then l.destroySem else l

def destroyParts (l : Live) : Live := l.destroyQueue.destroyQueue.destroyList.destroySem

def ServiceElem.up (e : ServiceElem) : ServiceElem :=
  { e with refCounter := toUint32 (e.refCounter + 1) }

def ServiceElem.down (e : ServiceElem) : ServiceElem :=
  { e with refCounter := if e.refCounter = 0 then 4294967295 else e.refCounter - 1 }

def matchingServiceAdd (pToAdd pElem : Nat) (mem : Nat → ServiceElem) :
    Bool × (Nat → ServiceElem) :=
  if (mem pElem).handler = (mem pToAdd).handler ∧
      (mem pElem).contextHandler = (mem pToAdd).contextHandler then
    (true, Function.update mem pElem (mem pElem).up)
  else (false, mem)

/-- `isFoundWhenRemove` says whether there is a `pElemFound`. -/
structure ToRemove where
  mem : Nat → ServiceElem
  pElemFound : Option Nat

def matchingServiceRemove (handler contextHandler pElem : Nat) (toRemove : ToRemove) :
    Bool × ToRemove :=
  let e := toRemove.mem pElem
  if e.handler = handler ∧ e.contextHandler = contextHandler then
    (decide (e.down.refCounter = 0), ⟨Function.update toRemove.mem pElem e.down, some pElem⟩)
  else (false, toRemove)

namespace Registry

/-- The allocator gives addresses that are not in use. -/
def Fresh (s : Registry) (p : Nat) : Prop := 0 < p ∧ p < 4294967296 ∧ p ∉ s.allocated

instance (s : Registry) (p : Nat) : Decidable (s.Fresh p) :=
  inferInstanceAs (Decidable (0 < p ∧ p < 4294967296 ∧ p ∉ s.allocated))

def setChannel (s : Registry) (p : Nat) (e : ChannelElem) : Registry :=
  { s with channel := Function.update s.channel p e }

/-- `createChannel` and `list.add`. -/
def createChannel (s : Registry) (flags : Nat) (a : Allocations) : Option (Registry × Answer) :=
  match a.channel with
  | none => some (s, .noMoreMemory)
  | some p =>
    if s.Fresh p then
      -- what is made so far is in the fields, and `releaseParts` goes by them
      let (live, e, done) := createParts s.live a
      let s := { s.setChannel p e with live := live, allocated := p :: s.allocated }
      if done then
        let s := if flags = NMF_CHANNEL_SHARED then { s with pSharedChannel := some p } else s
        some ({ s with
          channelList := s.channelList ++ [p]
          isShared := Function.update s.isShared p (decide (flags = NMF_CHANNEL_SHARED)) },
          .created p)
      else some ({ s with
        live := releaseParts s.live e
        allocated := s.allocated.erase p }, .noMoreMemory)
    else none

/-- `EE_CreateChannel` under the lock. -/
def openChannel (s : Registry) (flags : Nat) (a : Allocations) : Option (Registry × Answer) :=
  if flags = NMF_CHANNEL_SHARED then
    match s.pSharedChannel with
    | some p =>
      let e := s.channel p
      some (s.setChannel p { e with refCounter := toUint32 (e.refCounter + 1) }, .created p)
    | none => s.createChannel flags a
  else s.createChannel flags a

/-- `list.remove` and `destroyChannel`. -/
def destroyChannel (s : Registry) (p : Nat) : Registry :=
  { s with
    channelList := s.channelList.erase p
    live := destroyParts s.live
    allocated := s.allocated.erase p
    pSharedChannel := if s.pSharedChannel = some p then none else s.pSharedChannel }

def closeChannel (s : Registry) (p : Nat) : Registry × Answer :=
  let e := s.channel p
  if p ∈ s.channelList then
    -- another user of the shared channel stays
    if s.pSharedChannel = some p ∧ e.refCounter > 1 then
      (s.setChannel p { e with refCounter := e.refCounter - 1 }, .ok)
    else if toUint32 e.services.length = 0 ∧ e.bindRefCounter = 0 then (s.destroyChannel p, .ok)
    else (s, .invalidParameter)
  else (s, .invalidParameter)

/-- `list.addNotMatching` with a new service element. -/
def addService (s : Registry) (p a : Nat) (new : ServiceElem) : Registry :=
  let e := s.channel p
  match matchList (matchingServiceAdd a) e.services (Function.update s.serviceElem a new) with
  | (some _, mem) => { s with serviceElem := mem }
  | (none, mem) =>
    { s.setChannel p { e with services := e.services ++ [a] } with
      serviceElem := mem
      allocated := a :: s.allocated }

/-- Without memory the function returns before `sem.V(channelListLock)`. -/
def registerService (s : Registry) (p handler contextHandler : Nat) (pToAdd : Option Nat) :
    Option (Registry × Answer) :=
  if p ∈ s.channelList then
    match pToAdd with
    | none => some ({ s with channelListLock := true }, .noMoreMemory)
    | some a =>
      if s.Fresh a then some (s.addService p a ⟨handler, contextHandler, 1⟩, .ok) else none
  else some (s, .invalidParameter)

/-- `list.removeMatching`, and what `EE_UnregisterService` does with the element found. -/
def unregisterService (s : Registry) (p handler contextHandler : Nat) : Registry × Answer :=
  let e := s.channel p
  if p ∈ s.channelList then
    let (removed, toRemove) := matchList (matchingServiceRemove handler contextHandler) e.services
      ⟨s.serviceElem, none⟩
    let s := { s.setChannel p { e with services := removed.elim e.services e.services.erase } with
      serviceElem := toRemove.mem }
    match toRemove.pElemFound with
    | some a =>
      if (toRemove.mem a).refCounter = 0 then ({ s with allocated := s.allocated.erase a }, .ok)
      else (s, .ok)
    | none => (s, .invalidParameter)
  else (s, .invalidParameter)

def addRef (s : Registry) (p : Nat) : Registry × Answer :=
  let e := s.channel p
  if p ∈ s.channelList then
    (s.setChannel p { e with bindRefCounter := toUint32 (e.bindRefCounter + 1) }, .ok)
  else (s, .invalidParameter)

def removeRef (s : Registry) (p : Nat) : Registry × Answer :=
  let e := s.channel p
  if p ∈ s.channelList ∧ e.bindRefCounter ≠ 0 then
    (s.setChannel p { e with bindRefCounter := e.bindRefCounter - 1 }, .ok)
  else (s, .invalidParameter)

/-- `none` where the caller waits for `channelListLock` for ever. -/
def perform (s : Registry) : RegistryCall → Option (Registry × Answer)
  | .createChannel flags hasResult a =>
    if hasResult = false ∨ flags ≠ NMF_CHANNEL_SHARED ∧ flags ≠ NMF_CHANNEL_PRIVATE then
      some (s, .invalidParameter)
    else if s.channelListLock then none
    else s.openChannel flags a
  | .closeChannel p =>
    if p = 0 then some (s, .invalidParameter)
    else if s.channelListLock then none
    else some (s.closeChannel p)
  | .registerService p handler contextHandler pToAdd =>
    if p = 0 ∨ handler = 0 then some (s, .invalidParameter)
    else if s.channelListLock then none
    else s.registerService p handler contextHandler pToAdd
  | .unregisterService p handler contextHandler =>
    if p = 0 ∨ handler = 0 then some (s, .invalidParameter)
    else if s.channelListLock then none
    else some (s.unregisterService p handler contextHandler)
  | .addRef p => if s.channelListLock then none else some (s.addRef p)
  | .removeRef p => if s.channelListLock then none else some (s.removeRef p)

def step (s : Registry) (call : RegistryCall) : Option Registry :=
  (s.perform call).map fun res => { res.1 with log := s.log ++ [(call, res.2)] }

end Registry

end Codinalte.HostEE
