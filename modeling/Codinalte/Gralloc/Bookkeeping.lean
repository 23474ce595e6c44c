import Codinalte.Gralloc.Buffers
import Mathlib.Tactic.ByContra

/-! The calls of gralloc in a thread group, what their callers are told, and what it is for the
entry of a buffer and its mapping to be in order. -/

namespace Codinalte.Gralloc
open Codinalte.Machine Codinalte.Lease

/-- `receive` puts in a handle that comes from another process or wraps a buffer. -/
inductive GrallocCall where
  | receive (h : BufHandle)
  | alloc (width height : Int) (format : PixelFormat) (usage : Usage)
      (allocFramebuffer : Except Errno Bool)
  | registerBuffer
  | unregisterBuffer
  | lock (usage : Usage) (left top width height : Int) (hasAddr : Bool)
  | unlock
  | free

structure GrallocAction where
  buf : Nat
  kernel : Kernel
  errno : Int
  call : GrallocCall

/-- What is left of a count after a call that ends one of its calls, if there is one. -/
def oneLess (count : Int) : Int := if count - 1 < 0 then 0 else count - 1

namespace ThreadGroup

/-- A successful `mmap` finds an address where nothing is mapped. -/
def mmapFresh (s : ThreadGroup) (k : Kernel) : Bool :=
  match k.mmap with
  | .ok addr => s.mapped addr == none
  | .error _ => true

/-- The counter cannot go any further. -/
def full (s : ThreadGroup) (buf : Nat) (counter : BufCounters) : Bool :=
  (s.tgInfo buf).any fun info => info.cnt counter == intMax

def setOutstanding (s : ThreadGroup) (buf : Nat) (counter : BufCounters) (value : Int) :
    ThreadGroup :=
  { s with
    outstanding := Function.update s.outstanding counter
      (Function.update (s.outstanding counter) buf value) }

/-- A call that ends one registration or one lock. -/
def recordEnd (s : ThreadGroup) (buf : Nat) (counter : BufCounters) : ThreadGroup :=
  s.setOutstanding buf counter (oneLess (s.outstanding counter buf))

def recordStart (s : ThreadGroup) (buf : Nat) (counter : BufCounters) : ThreadGroup :=
  s.setOutstanding buf counter (s.outstanding counter buf + 1)

/-- What the calls outside of this module see of a call: its result and the address it stored. -/
def record (s t : ThreadGroup) (buf : Nat) (result : Int) (addr : Option Nat) :
    GrallocCall → ThreadGroup
  | .receive _ => t
  | .alloc .. => if t.handle buf = none then t else t.recordStart buf .registerCounter
  | .registerBuffer =>
    if result = 0 ∧ s.full buf .registerCounter = false then t.recordStart buf .registerCounter
    else t
  | .unregisterBuffer => t.recordEnd buf .registerCounter
  | .lock .. =>
    if result = 0 ∧ s.full buf .lockCounter = false then
      { t.recordStart buf .lockCounter with
        softAddrs := Function.update t.softAddrs buf (addr.toList ++ t.softAddrs buf) }
    else t
  | .unlock =>
    let u := t.recordEnd buf .lockCounter
    if u.outstanding .lockCounter buf = 0 then
      { u with softAddrs := Function.update u.softAddrs buf [] }
    else u
  | .free =>
    if result = 0 then
      { (t.setOutstanding buf .registerCounter 0).setOutstanding buf .lockCounter 0 with
        softAddrs := Function.update t.softAddrs buf [] }
    else t

/-- The result of a call, the address it stores and the state after it. -/
def call (s : ThreadGroup) (a : GrallocAction) : Option (Int × Option Nat × ThreadGroup) :=
  match a.call, s.handle a.buf with
  | .receive h, none => some (0, none, { s with handle := Function.update s.handle a.buf (some h) })
  | .alloc width height format usage allocFramebuffer, none =>
    let (result, t) :=
      grallocAlloc a.kernel a.errno a.buf width height format usage allocFramebuffer s
    some (result, none, t)
  | .registerBuffer, some h =>
    let (result, t) := grallocRegisterBuffer a.kernel a.errno a.buf h s
    some (result, none, t)
  | .unregisterBuffer, some h =>
    let (result, t) := grallocUnregisterBuffer a.kernel a.buf h s
    some (result, none, t)
  | .lock usage left top width height hasAddr, some h =>
    some (grallocLock a.kernel a.errno a.buf h usage left top width height hasAddr s)
  | .unlock, some h =>
    let (result, t) := grallocUnlock a.kernel a.buf h s
    some (result, none, t)
  | .free, some h =>
    let (result, t) := grallocFree a.kernel a.buf h s
    some (result, none, t)
  | _, _ => none

def step (s : ThreadGroup) (a : GrallocAction) : Option ThreadGroup :=
  if s.mmapFresh a.kernel then
    (s.call a).map fun (result, addr, t) => s.record t a.buf result addr a.call
  else none

/-- Where the entry of a buffer says it is mapped. -/
def addrOf (s : ThreadGroup) (buf : Nat) : Option Nat := (s.tgInfo buf).bind BufTgInfo.addr

def cnt (s : ThreadGroup) (buf : Nat) (counter : BufCounters) : Int :=
  ((s.tgInfo buf).map fun info => info.cnt counter).getD 0

/-- The handle of an hwmem buffer that gralloc maps itself. -/
def Tracked (s : ThreadGroup) (buf : Nat) : Prop :=
  ∃ h, s.handle buf = some h ∧ h.isWrapper = false

/-- The map as a call that looks for it leaves it. -/
def opened (s : ThreadGroup) (k : Kernel) : ThreadGroup :=
  { s with mapCreated := s.mapCreated || k.hashmapCreate.toBool }

end ThreadGroup

/-- A buffer is mapped where its entry says, and where an unmapping failed. -/
structure MapInv (s : ThreadGroup) (buf : Nat) : Prop where
  lease : run Lease.step none (s.calls buf) = some (s.addrOf buf)
  owner : ∀ addr, s.addrOf buf = some addr → s.mapped addr = some buf
  lost : ∀ addr, .lose addr ∈ s.calls buf → s.mapped addr = some buf ∧ s.addrOf buf ≠ some addr
  origin : ∀ addr, s.mapped addr = some buf → s.addrOf buf = some addr ∨ .lose addr ∈ s.calls buf

/-- The entry of a buffer against what its callers have been told. -/
structure BookInv (s : ThreadGroup) (buf : Nat) : Prop where
  untracked : ¬ s.Tracked buf → s.tgInfo buf = none
  gone : s.handle buf = none →
    (∀ counter, s.outstanding counter buf = 0) ∧ s.softAddrs buf = []
  created : ∀ info, s.tgInfo buf = some info → s.mapCreated = true
  positive : ∀ info, s.tgInfo buf = some info →
    0 ≤ info.regCnt ∧ 0 ≤ info.lockCnt ∧ 0 < info.regCnt + info.lockCnt
  counts : s.Tracked buf → ∀ counter, s.cnt buf counter = s.outstanding counter buf
  soft : s.Tracked buf → ∀ addr ∈ s.softAddrs buf,
    s.addrOf buf = some addr ∧ 0 < s.cnt buf .lockCounter
  mapping : MapInv s buf

/-- A call on one buffer leaves the others alone. -/
structure Frame (buf : Nat) (s t : ThreadGroup) : Prop where
  handle : ∀ other, other ≠ buf → t.handle other = s.handle other
  tgInfo : ∀ other, other ≠ buf → t.tgInfo other = s.tgInfo other
  calls : ∀ other, other ≠ buf → t.calls other = s.calls other
  outstanding : ∀ other, other ≠ buf → ∀ counter,
    t.outstanding counter other = s.outstanding counter other
  softAddrs : ∀ other, other ≠ buf → t.softAddrs other = s.softAddrs other
  mapped : ∀ other, other ≠ buf → ∀ addr, t.mapped addr = some other ↔ s.mapped addr = some other
  created : s.mapCreated = true → t.mapCreated = true

section Frames
variable {buf : Nat} {s t u : ThreadGroup}

theorem Frame.refl (buf : Nat) (s : ThreadGroup) : Frame buf s s where
  handle := fun _ _ => rfl
  tgInfo := fun _ _ => rfl
  calls := fun _ _ => rfl
  outstanding := fun _ _ _ => rfl
  softAddrs := fun _ _ => rfl
  mapped := fun _ _ _ => Iff.rfl
  created := id

theorem Frame.trans (hst : Frame buf s t) (htu : Frame buf t u) : Frame buf s u where
  handle := fun other hne => (htu.handle other hne).trans (hst.handle other hne)
  tgInfo := fun other hne => (htu.tgInfo other hne).trans (hst.tgInfo other hne)
  calls := fun other hne => (htu.calls other hne).trans (hst.calls other hne)
  outstanding := fun other hne counter =>
    (htu.outstanding other hne counter).trans (hst.outstanding other hne counter)
  softAddrs := fun other hne => (htu.softAddrs other hne).trans (hst.softAddrs other hne)
  mapped := fun other hne addr => (htu.mapped other hne addr).trans (hst.mapped other hne addr)
  created := fun h => htu.created (hst.created h)

/-- A mapping is in order where its own calls, address and pages are the same. -/
theorem MapInv.congr (hmap : MapInv s buf) (haddr : t.addrOf buf = s.addrOf buf)
    (hcalls : t.calls buf = s.calls buf)
    (hmapped : ∀ addr, t.mapped addr = some buf ↔ s.mapped addr = some buf) : MapInv t buf := by
  refine ⟨?_, ?_, ?_, ?_⟩
  · rw [hcalls, haddr]
    exact hmap.lease
  · intro addr
    rw [haddr, hmapped]
    exact hmap.owner addr
  · intro addr
    rw [hcalls, haddr, hmapped]
    exact hmap.lost addr
  · intro addr
    rw [hcalls, haddr, hmapped]
    exact hmap.origin addr

theorem BookInv.frame {other : Nat} (h : BookInv s other) (hframe : Frame buf s t)
    (hne : other ≠ buf) : BookInv t other := by
  have hhandle := hframe.handle other hne
  have htgInfo := hframe.tgInfo other hne
  have haddr : t.addrOf other = s.addrOf other := by
    unfold ThreadGroup.addrOf
    rw [htgInfo]
  have hcnt : ∀ counter, t.cnt other counter = s.cnt other counter := by
    intro counter
    unfold ThreadGroup.cnt
    rw [htgInfo]
  have htracked : t.Tracked other ↔ s.Tracked other := by
    unfold ThreadGroup.Tracked
    rw [hhandle]
  refine ⟨?_, ?_, ?_, ?_, ?_, ?_, ?_⟩
  · rw [htracked, htgInfo]
    exact h.untracked
  · intro hgone
    rw [hhandle] at hgone
    obtain ⟨hzero, hsoft⟩ := h.gone hgone
    refine ⟨?_, ?_⟩
    · intro counter
      rw [hframe.outstanding other hne]
      exact hzero counter
    · rw [hframe.softAddrs other hne]
      exact hsoft
  · intro info hinfo
    rw [htgInfo] at hinfo
    exact hframe.created (h.created info hinfo)
  · rw [htgInfo]
    exact h.positive
  · intro htr counter
    rw [hcnt, hframe.outstanding other hne]
    exact h.counts (htracked.mp htr) counter
  · intro htr addr haddrs
    rw [hframe.softAddrs other hne] at haddrs
    rw [haddr, hcnt]
    exact h.soft (htracked.mp htr) addr haddrs
  · exact h.mapping.congr haddr (hframe.calls other hne) (hframe.mapped other hne)

theorem frame_opened (k : Kernel) : Frame buf s (s.opened k) :=
  { Frame.refl buf s with created := fun h => by simp [ThreadGroup.opened, h] }

theorem frame_set_buf_tg_info (info : BufTgInfo) : Frame buf s (s.setBufTgInfo buf info) :=
  { Frame.refl buf s with tgInfo := fun _ hne => Function.update_of_ne hne _ _ }

theorem frame_set_outstanding (counter : BufCounters) (value : Int) :
    Frame buf s (s.setOutstanding buf counter value) := by
  refine { Frame.refl buf s with outstanding := ?_ }
  intro other hne counter'
  show Function.update s.outstanding counter _ counter' other = _
  by_cases hsame : counter' = counter
  · subst hsame
    rw [Function.update_self, Function.update_of_ne hne]
  · rw [Function.update_of_ne hsame]

end Frames

end Codinalte.Gralloc
