import Codinalte.Gralloc.Layout
import Codinalte.Lib.Lease
import Mathlib.Logic.Function.Basic

/-! Register, lock, unlock, unregister, allocate and free hwmem buffers: the counts and the mapping
of a buffer in its thread group. Each call runs with `buf_tg_infos_mutex` held where it reads the
map, and `errno` stands for what the calling thread finds in it. -/

namespace Codinalte.Gralloc
open Codinalte.Lease

/-- What a failed system call leaves in `errno`. -/
abbrev Errno := { e : Int // 0 < e }

/-- The two kinds of buffers that are not handed to the pmem functions. -/
inductive BufType where
  | hwmemContiguous | hwmemScattered
deriving DecidableEq

/-- `struct hwmem_gralloc_buf_handle_t`; an address is `none` for `NULL`. -/
structure BufHandle where
  width : Int
  height : Int
  format : PixelFormat
  usage : Usage
  offset : Int
  size : Int
  addr : Option Nat
  type : BufType
deriving DecidableEq

/-- Wrapper handles have a size of their own. -/
def BufHandle.isWrapper (buf : BufHandle) : Bool := buf.size != -1

structure MmapProt where
  read : Bool
  write : Bool
deriving DecidableEq

inductive BufCounters where
  | registerCounter | lockCounter
deriving DecidableEq

structure BufTgInfo where
  addr : Option Nat
  mmapProt : MmapProt
  regCnt : Int
  lockCnt : Int
deriving DecidableEq

def BufTgInfo.empty : BufTgInfo := ⟨none, ⟨false, false⟩, 0, 0⟩

def BufTgInfo.cnt (info : BufTgInfo) : BufCounters → Int
  | .registerCounter => info.regCnt
  | .lockCounter => info.lockCnt

def BufTgInfo.setCnt (info : BufTgInfo) (value : Int) : BufCounters → BufTgInfo
  | .registerCounter => { info with regCnt := value }
  | .lockCounter => { info with lockCnt := value }

/-- How the calls outside the module end within one call of it. `getInfo` gives the access rights,
`mmap` an address. -/
structure Kernel where
  hashmapCreate : Except Errno Unit
  hashmapPut : Bool
  openHwmem : Except Errno Unit
  allocFd : Except Errno Unit
  nativeHandleCreate : Bool
  getInfo : Except Errno MmapProt
  mmap : Except Errno Nat
  munmap : Except Errno Unit
  setDomain : Except Errno Unit

/-- A thread group: its handles, `buf_handl_2_tg_info_map` once it is created, and the buffer whose
mapping is at an address. The last three fields are a record for each handle: the calls that mapped
and unmapped it, the outstanding registrations and locks, and what software locks returned. -/
structure ThreadGroup where
  handle : Nat → Option BufHandle
  mapCreated : Bool
  tgInfo : Nat → Option BufTgInfo
  mapped : Nat → Option Nat
  calls : Nat → List (LeaseCall Nat)
  outstanding : BufCounters → Nat → Int
  softAddrs : Nat → List Nat

def ThreadGroup.start : ThreadGroup where
  handle := fun _ => none
  mapCreated := false
  tgInfo := fun _ => none
  mapped := fun _ => none
  calls := fun _ => []
  outstanding := fun _ _ => 0
  softAddrs := fun _ => []

section Helpers
variable (k : Kernel) (errno : Int) (buf : Nat)

def doesUsageMatchMmapProt (usage : Usage) (prot : MmapProt) : Bool :=
  !((usage.swRead && !prot.read) || (usage.swWrite && !prot.write))

def ensureBufHandl2TgInfoMapExists (s : ThreadGroup) : Except Int Unit × ThreadGroup :=
  if s.mapCreated then (.ok (), s)
  else
    match k.hashmapCreate with
    | .error e => (.error e, s)
    | .ok () => (.ok (), { s with mapCreated := true })

def getBufTgInfo (s : ThreadGroup) : Option BufTgInfo × ThreadGroup :=
  match ensureBufHandl2TgInfoMapExists k s with
  | (.error _, s) => (none, s)
  | (.ok (), s) => (s.tgInfo buf, s)

/-- Writes through the pointer into the map. -/
def ThreadGroup.setBufTgInfo (s : ThreadGroup) (info : BufTgInfo) : ThreadGroup :=
  { s with tgInfo := Function.update s.tgInfo buf (some info) }

def getCreateBufTgInfo (h : BufHandle) (s : ThreadGroup) : Except Int BufTgInfo × ThreadGroup :=
  if h.isWrapper then (.error errno, s)
  else
    match ensureBufHandl2TgInfoMapExists k s with
    | (.error e, s) => (.error e, s)
    | (.ok (), s) =>
      match s.tgInfo buf with
      | some info => (.ok info, s)
      | none =>
        if k.hashmapPut then (.ok .empty, s.setBufTgInfo buf .empty) else (.error enomem, s)

def incBufCnt (h : BufHandle) (counter : BufCounters) (s : ThreadGroup) :
    Except Int Unit × ThreadGroup :=
  if h.isWrapper then (.ok (), s)
  else
    match getCreateBufTgInfo k errno buf h s with
    | (.error e, s) => (.error e, s)
    | (.ok info, s) =>
      -- On this path `errno` is not set.
      if info.cnt counter = intMax then (.error errno, s)
      else (.ok (), s.setBufTgInfo buf (info.setCnt (info.cnt counter + 1) counter))

/-- The address and the protection of the mapping. -/
def mmapBufIfNecessary (h : BufHandle) (s : ThreadGroup) :
    Except Int (Nat × MmapProt) × ThreadGroup :=
  if h.isWrapper then
    match h.addr with
    | none => (.error (-enomsg), s)
    | some addr => (.ok (addr, ⟨true, true⟩), s)
  else
    match getBufTgInfo k buf s with
    | (none, s) => (.error enomsg, s)
    | (some info, s) =>
      match info.addr with
      | some addr => (.ok (addr, info.mmapProt), s)
      | none =>
        match k.getInfo with
        | .error e => (.error e, s)
        | .ok mmapProt =>
          match k.mmap with
          | .error e =>
            (.error e, s.setBufTgInfo buf { info with mmapProt := mmapProt, addr := none })
          | .ok addr =>
            (.ok (addr, mmapProt), { s.setBufTgInfo buf
                { info with mmapProt := mmapProt, addr := some addr } with
              mapped := Function.update s.mapped addr (some buf)
              calls := Function.update s.calls buf (s.calls buf ++ [.take addr]) })

/-- The two failures are logged as a resource leak. -/
def munmapBufIfNecessary (s : ThreadGroup) : ThreadGroup :=
  match getBufTgInfo k buf s with
  | (none, s) => s
  | (some info, s) =>
    match info.addr with
    | none => s
    | some addr =>
      let leaked := { s with calls := Function.update s.calls buf (s.calls buf ++ [.lose addr]) }
      match k.getInfo with
      | .error _ => leaked
      | .ok _ =>
        match k.munmap with
        | .error _ => leaked
        | .ok () =>
          { s.setBufTgInfo buf { info with addr := none } with
            mapped := Function.update s.mapped addr none
            calls := Function.update s.calls buf (s.calls buf ++ [.giveBack addr]) }

def removeBufTgInfo (s : ThreadGroup) : ThreadGroup :=
  match ensureBufHandl2TgInfoMapExists k s with
  | (.error _, s) => s
  | (.ok (), s) =>
    let s := munmapBufIfNecessary k buf s
    { s with tgInfo := Function.update s.tgInfo buf none }

def decBufCnt (h : BufHandle) (counter : BufCounters) (s : ThreadGroup) : ThreadGroup :=
  if h.isWrapper then s
  else
    match getBufTgInfo k buf s with
    | (none, s) => s
    | (some info, s) =>
      let cnt := info.cnt counter - 1
      let info := info.setCnt (if cnt < 0 then 0 else cnt) counter
      let s := s.setBufTgInfo buf info
      if 0 = info.regCnt ∧ 0 = info.lockCnt then removeBufTgInfo k buf s else s

def decBufRegCntIfLastUsr (h : BufHandle) (s : ThreadGroup) : Except Int Unit × ThreadGroup :=
  if h.isWrapper then (.ok (), s)
  else
    match getBufTgInfo k buf s with
    | (none, s) => (.ok (), s)
    | (some info, s) =>
      if info.regCnt > 1 ∨ info.lockCnt ≠ 0 then (.error enomsg, s)
      else (.ok (), decBufCnt k buf h .registerCounter s)

def setBufferDomain (h : BufHandle) (left top width height : Int) : Except Int Unit :=
  -- A wrapping handle has its whole buffer switched.
  let region := if h.isWrapper then
      .ok ⟨unsignedInt h.offset, 1, 0, unsignedInt h.size, unsignedInt h.size⟩
    else setUpHwmemRegion left top width height h.width h.height h.format
  match region with
  | .error e => .error e
  | .ok _ =>
    match k.setDomain with
    | .error e => .error e
    | .ok () => .ok ()

end Helpers

section Calls
variable (k : Kernel) (errno : Int) (buf : Nat)

/-- Zero, or the negated `errno`. -/
def returned : Except Int Unit → Int
  | .ok () => 0
  | .error e => -e

def grallocRegisterBuffer (h : BufHandle) (s : ThreadGroup) : Int × ThreadGroup :=
  let (result, s) := incBufCnt k errno buf h .registerCounter s
  (returned result, s)

def grallocUnregisterBuffer (h : BufHandle) (s : ThreadGroup) : Int × ThreadGroup :=
  (0, decBufCnt k buf h .registerCounter s)

/-- What `gralloc_lock` does once a buffer for software use is mapped. -/
def lockMapped (h : BufHandle) (left top width height : Int) (s : ThreadGroup) :
    Int × ThreadGroup :=
  match setBufferDomain k h left top width height with
  | .error e => (-e, s)
  | .ok () =>
    let (result, s) := incBufCnt k errno buf h .lockCounter s
    (returned result, s)

/-- The address is the one stored through `addr`, which may be `NULL`. -/
def grallocLock (h : BufHandle) (usage : Usage) (left top width height : Int) (hasAddr : Bool)
    (s : ThreadGroup) : Int × Option Nat × ThreadGroup :=
  if usage.software then
    if hasAddr = false then (-einval, none, s)
    else
      match mmapBufIfNecessary k buf h s with
      | (.error e, s) => (-e, none, s)
      | (.ok (addr, mmapProt), s) =>
        if doesUsageMatchMmapProt usage mmapProt then
          let (result, s) := lockMapped k errno buf h left top width height s
          (result, some addr, s)
        else (-eacces, some addr, s)
  else
    let (result, s) := lockMapped k errno buf h left top width height s
    (result, none, s)

def grallocUnlock (h : BufHandle) (s : ThreadGroup) : Int × ThreadGroup :=
  (0, decBufCnt k buf h .lockCounter s)

/-- The handle of a new buffer, whose format may ask for the blitter. -/
def newBufHandle (actualWidth actualHeight : Int) (format : PixelFormat) (usage : Usage) :
    BufHandle where
  width := actualWidth
  height := actualHeight
  format := format
  usage := usage
  offset := 0
  size := -1
  addr := none
  type := if usage.isProtected = false ∧ usage.hw2D = false then .hwmemScattered
    else .hwmemContiguous

def allocUsage (format : PixelFormat) (usage : Usage) : Usage :=
  if isNonPlanarAndIndependentPixelFormat format then { usage with hwFb := false }
  else { usage with hwFb := false, hw2D := true }

/-- `buf` is where a new handle is put. The framebuffer device has first say where its usage is
asked for. -/
def grallocAlloc (width height : Int) (format : PixelFormat) (usage : Usage)
    (allocFramebuffer : Except Errno Bool) (s : ThreadGroup) : Int × ThreadGroup :=
  match calcBufSize width height format usage with
  | .error e => (-e, s)
  | .ok (_, actualWidth, actualHeight) =>
    match if usage.hwFb then allocFramebuffer else .ok false with
    | .error e => (-e, s)
    | .ok true => (0, s)
    | .ok false =>
      match k.openHwmem, k.allocFd with
      | .error e, _ => (-e, s)
      | .ok (), .error e => (-e, s)
      | .ok (), .ok () =>
        if k.nativeHandleCreate then
          let h := newBufHandle actualWidth actualHeight format (allocUsage format usage)
          match incBufCnt k errno buf h .registerCounter s with
          | (.error e, s) => (-e, s)
          | (.ok (), s) => (0, { s with handle := Function.update s.handle buf (some h) })
        else (-enomem, s)

def grallocFree (h : BufHandle) (s : ThreadGroup) : Int × ThreadGroup :=
  match decBufRegCntIfLastUsr k buf h s with
  | (.error e, s) => (-e, s)
  | (.ok (), s) => (0, { s with handle := Function.update s.handle buf none })

end Calls

end Codinalte.Gralloc
