import Mathlib.Data.List.Basic
import Mathlib.Logic.Function.Basic

/-! The channels of the component manager's user proxy: the entries with their service callbacks,
the count of the users of the control device, and the descriptors the proxy has opened. -/

namespace Codinalte.CmProxy

def NMF_CHANNEL_SHARED : Nat := 0

def NMF_CHANNEL_PRIVATE : Nat := 1

def NMF_VERSION : Nat := 2 <<< 16 ||| 10 <<< 8 ||| 121

def versionMajor (version : Nat) : Nat := version >>> 16 &&& 0xFF

def versionMinor (version : Nat) : Nat := version >>> 8 &&& 0xFF

inductive NmfError where
  | ok
  | noMoreMemory
  | invalidParameter
  | integrationError
deriving DecidableEq

def toUint32 (value : Nat) : Nat := value % 4294967296

/-- The value of `--count`. -/
def decrement (count : Nat) : Nat := toUint32 (count + 4294967295)

structure ServiceEntry where
  count : Nat
  service : Nat
  serviceCtx : Nat
deriving DecidableEq

def ServiceEntry.up (x : ServiceEntry) : ServiceEntry := { x with count := toUint32 (x.count + 1) }

def ServiceEntry.down (x : ServiceEntry) : ServiceEntry := { x with count := decrement x.count }

structure ChannelEntry where
  count : Nat
  channel : Nat
  serviceList : List ServiceEntry
deriving DecidableEq

inductive Device where
  | control
  | channel
deriving DecidableEq

/-- The devices behind the descriptors, and the calls of `close` with the device that each has
met. -/
structure Os where
  descriptors : Nat → Option Device
  closes : List (Nat × Option Device)

def Os.opened (os : Os) (device : Device) (fd : Nat) : Os :=
  { os with descriptors := Function.update os.descriptors fd (some device) }

def Os.close (os : Os) (fd : Nat) : Os where
  descriptors := Function.update os.descriptors fd none
  closes := os.closes ++ [(fd, os.descriptors fd)]

/-- What the system answers during a `CM_CreateChannel`: a descriptor for each of the two devices,
the version and the board of the driver, and the memory and the lock of an entry. -/
structure Opening where
  controlFd : Option Nat
  driverVersion : Option Nat
  boardVersion : Bool
  entry : Option Nat
  lock : Bool
  channelFd : Option Nat
deriving DecidableEq

inductive Call where
  | createChannel (flags : Nat) (hasResult : Bool) (opening : Opening)
  | closeChannel (channel : Nat)
  | registerService (channel handler ctx : Nat) (memory : Bool)
  | unregisterService (channel handler ctx : Nat)
  | flushChannel (channel : Nat) (hasResult flushed : Bool)
deriving DecidableEq

/-- A call with its result, the channel that it gave and the descriptor that it asked to be
flushed. -/
structure Record where
  call : Call
  error : NmfError
  channel : Option Nat
  flush : Option Nat
deriving DecidableEq

/-- `heap` are the entries by their addresses; `log` is a record of the calls. -/
structure Proxy where
  heap : Nat → Option ChannelEntry
  sharedChannel : Option Nat
  usageCount : Nat
  controlFd : Option Nat
  os : Os
  log : List Record

/-- The descriptors that the process holds otherwise are those of no device here. -/
def Proxy.init : Proxy where
  heap := fun _ => none
  sharedChannel := none
  usageCount := 0
  controlFd := some 0
  os := ⟨fun _ => none, []⟩
  log := []

namespace ChannelEntry

/-- Where the entry of the service is on the list. -/
def getServiceEntry (e : ChannelEntry) (service serviceCtx : Nat) : Option Nat :=
  e.serviceList.findIdx? fun x => x.service == service && x.serviceCtx == serviceCtx

/-- `cm_registerService`, from the place of the entry. -/
def countService (e : ChannelEntry) (i : Nat) : ChannelEntry :=
  { e with
    count := toUint32 (e.count + 1)
    serviceList := e.serviceList.modify i ServiceEntry.up }

def registerService (e : ChannelEntry) (service serviceCtx : Nat) (memory : Bool) :
    ChannelEntry × NmfError :=
  match e.getServiceEntry service serviceCtx with
  | some i => (e.countService i, .ok)
  | none =>
    if memory then
      let e := { e with serviceList := ⟨0, service, serviceCtx⟩ :: e.serviceList }
      (e.countService 0, .ok)
    else (e, .noMoreMemory)

def unregisterService (e : ChannelEntry) (service serviceCtx : Nat) : ChannelEntry × NmfError :=
  match e.getServiceEntry service serviceCtx with
  | none => (e, .invalidParameter)
  | some i =>
    let services := e.serviceList.modify i ServiceEntry.down
    let services :=
      if services[i]?.map ServiceEntry.count = some 0 then services.eraseIdx i else services
    ({ e with serviceList := services, count := decrement e.count }, .ok)

end ChannelEntry

namespace Proxy

def put (s : Proxy) (channel : Nat) (e : ChannelEntry) : Proxy :=
  { s with heap := Function.update s.heap channel (some e) }

/-- `cm_init`, without the components that it loads at the first call. -/
def cmInit (s : Proxy) (o : Opening) : Proxy × NmfError :=
  match o.controlFd with
  | none => ({ s with controlFd := none }, .integrationError)
  | some fd =>
    let s := { s with controlFd := some fd, os := s.os.opened .control fd }
    match o.driverVersion with
    | none => ({ s with os := s.os.close fd }, .integrationError)
    | some version =>
      if versionMajor NMF_VERSION ≠ versionMajor version ∧
          versionMinor NMF_VERSION ≠ versionMinor version then
        ({ s with os := s.os.close fd }, .invalidParameter)
      else if o.boardVersion then (s, .ok)
      else ({ s with os := s.os.close fd }, .integrationError)

def cmDestroy (s : Proxy) : Proxy :=
  match s.controlFd with
  | none => s
  | some fd => { s with os := s.os.close fd }

/-- `cm_createChannelEntry`, with the address of the new entry. -/
def createChannelEntry (s : Proxy) (o : Opening) : Proxy × NmfError × Option Nat :=
  match o.entry with
  | none => (s, .noMoreMemory, none)
  | some p => if o.lock then (s.put p ⟨0, 0, []⟩, .ok, some p) else (s, .noMoreMemory, none)

/-- `cm_deleteChannelEntry`, with the descriptor of the entry. -/
def deleteChannelEntry (s : Proxy) (channel : Nat) (e : ChannelEntry) : Proxy × NmfError × Nat :=
  if e.serviceList ≠ [] then (s, .invalidParameter, 0)
  else
    ({ s with
      heap := Function.update s.heap channel none
      sharedChannel := if s.sharedChannel = some channel then none else s.sharedChannel },
      .ok, e.channel)

/-- `used_channel->count++`. -/
def countUser (s : Proxy) (channel : Nat) : Option Proxy :=
  (s.heap channel).map fun e => s.put channel { e with count := toUint32 (e.count + 1) }

/-- What `CM_INTERNAL_CreateChannel` gives: the channel, and whether its descriptor is to be
opened. -/
structure Created where
  error : NmfError
  channel : Option Nat
  isNew : Bool
deriving DecidableEq

def internalCreateChannel (s : Proxy) (flags : Nat) (hasResult : Bool) (o : Opening) :
    Option (Proxy × Created) :=
  if ¬ hasResult then some (s, ⟨.invalidParameter, none, false⟩)
  else if flags = NMF_CHANNEL_SHARED then
    match s.sharedChannel with
    | some p => (s.countUser p).map fun s => (s, ⟨.ok, some p, false⟩)
    | none =>
      match s.createChannelEntry o with
      | (s, .ok, some p) =>
        ({ s with sharedChannel := some p }.countUser p).map fun s => (s, ⟨.ok, some p, true⟩)
      | (s, error, _) => some (s, ⟨error, none, true⟩)
  else if flags = NMF_CHANNEL_PRIVATE then
    match s.createChannelEntry o with
    | (s, .ok, some p) => (s.countUser p).map fun s => (s, ⟨.ok, some p, true⟩)
    | (s, error, _) => some (s, ⟨error, none, true⟩)
  else some (s, ⟨.invalidParameter, none, false⟩)

/-- `CM_INTERNAL_CloseChannel`, with the descriptor to be closed or zero. A channel that stays is
written through `OSchannel`. -/
def internalCloseChannel (s : Proxy) (channel : Nat) (hasOsChannel : Bool) :
    Option (Proxy × NmfError × Nat) :=
  (s.heap channel).bind fun e =>
    let e := { e with count := decrement e.count }
    if e.count = 0 then some ((s.put channel e).deleteChannelEntry channel e)
    else if hasOsChannel then some (s.put channel e, .ok, 0)
    else none

/-- The descriptor of a new entry. -/
def openChannel (s : Proxy) (r : Created) (o : Opening) : Option (Proxy × NmfError) :=
  match r with
  | ⟨.ok, some p, true⟩ =>
    match o.channelFd with
    | none => (s.internalCloseChannel p false).map fun r => (r.1, .integrationError)
    | some fd =>
      (s.heap p).map fun e =>
        ({ s.put p { e with channel := fd } with os := s.os.opened .channel fd }, .ok)
  | ⟨error, _, _⟩ => some (s, error)

/-- The end of `CM_CreateChannel`. -/
def countUsage (s : Proxy) (status : NmfError) : Proxy :=
  if status = .ok then { s with usageCount := toUint32 (s.usageCount + 1) }
  else if s.usageCount = 0 then s.cmDestroy
  else s

def createChannel (s : Proxy) (flags : Nat) (hasResult : Bool) (o : Opening) :
    Option (Proxy × NmfError × Option Nat) :=
  match if s.usageCount = 0 then s.cmInit o else (s, .ok) with
  | (s, .ok) =>
    (s.internalCreateChannel flags hasResult o).bind fun r =>
      (r.1.openChannel r.2 o).map fun q => (q.1.countUsage q.2, q.2, r.2.channel)
  | (s, error) => some (s, error, none)

/-- The end of `CM_CloseChannel`. -/
def releaseUsage (s : Proxy) : Proxy :=
  let s := { s with usageCount := decrement s.usageCount }
  if s.usageCount = 0 then s.cmDestroy else s

def closeChannel (s : Proxy) (channel : Nat) : Option (Proxy × NmfError) :=
  if channel = 0 then some (s, .invalidParameter)
  else
    (s.internalCloseChannel channel true).map fun r =>
      if r.2.1 = .ok then
        let s := if r.2.2 ≠ 0 then { r.1 with os := r.1.os.close r.2.2 } else r.1
        (s.releaseUsage, .ok)
      else (r.1, r.2.1)

def registerService (s : Proxy) (channel handler ctx : Nat) (memory : Bool) :
    Option (Proxy × NmfError) :=
  if channel = 0 ∨ handler = 0 then some (s, .invalidParameter)
  else
    (s.heap channel).map fun e =>
      let r := e.registerService handler ctx memory
      (s.put channel r.1, r.2)

def unregisterService (s : Proxy) (channel handler ctx : Nat) : Option (Proxy × NmfError) :=
  if channel = 0 ∨ handler = 0 then some (s, .invalidParameter)
  else
    (s.heap channel).map fun e =>
      let r := e.unregisterService handler ctx
      (s.put channel r.1, r.2)

/-- `CM_FlushChannel`, with the descriptor that is flushed. -/
def flushChannel (s : Proxy) (channel : Nat) (hasResult flushed : Bool) :
    Option (NmfError × Option Nat) :=
  if ¬ hasResult ∨ channel = 0 then some (.invalidParameter, none)
  else
    (s.heap channel).map fun e =>
      let osChannel := if e.count = 1 then e.channel else 0
      if osChannel = 0 then (.ok, none)
      else (if flushed then .ok else .integrationError, some osChannel)

def record (s : Proxy) (r : Record) : Proxy := { s with log := s.log ++ [r] }

/-- The system gives what is not in use. -/
def Fits (s : Proxy) (o : Opening) : Prop :=
  (∀ fd ∈ o.controlFd, s.os.descriptors fd = none ∧ o.channelFd ≠ some fd) ∧
    (∀ fd ∈ o.channelFd, s.os.descriptors fd = none) ∧
    ∀ p ∈ o.entry, p ≠ 0 ∧ s.heap p = none

instance (s : Proxy) (o : Opening) : Decidable (s.Fits o) :=
  inferInstanceAs (Decidable (_ ∧ _ ∧ _))

/-- A call by itself; there is none through a pointer that is no channel. -/
def step (s : Proxy) (call : Call) : Option Proxy :=
  match call with
  | .createChannel flags hasResult o =>
    if s.Fits o then
      (s.createChannel flags hasResult o).map fun r => r.1.record ⟨call, r.2.1, r.2.2, none⟩
    else none
  | .closeChannel channel =>
    (s.closeChannel channel).map fun r => r.1.record ⟨call, r.2, none, none⟩
  | .registerService channel handler ctx memory =>
    (s.registerService channel handler ctx memory).map fun r =>
      r.1.record ⟨call, r.2, none, none⟩
  | .unregisterService channel handler ctx =>
    (s.unregisterService channel handler ctx).map fun r => r.1.record ⟨call, r.2, none, none⟩
  | .flushChannel channel hasResult flushed =>
    (s.flushChannel channel hasResult flushed).map fun r =>
      s.record ⟨call, r.1, none, r.2⟩

end Proxy

end Codinalte.CmProxy
