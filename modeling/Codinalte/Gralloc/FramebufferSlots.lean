import Codinalte.Gralloc.Framebuffer
import Codinalte.Lib.Bits
import Mathlib.Data.List.Nodup
import Mathlib.Data.List.Perm.Basic
import Mathlib.Data.Nat.Init

/-! A handle of the framebuffer keeps its slot: as long as a rotation leaves every handle where its
slot is under the new buffer size, the handles lie apart and inside the mapping, and the mask says
which slots are given out. -/

namespace Codinalte.Gralloc
open Codinalte.Machine Codinalte.Bits

theorem toUint32_of_lt {n : Nat} (h : n < 4294967296) : toUint32 n = n := Nat.mod_eq_of_lt h

section Mask
variable {mask : BitVec 32} {n : Nat}

/-- Where the mask is not yet full a slot is free. -/
theorem exists_free_slot (hn : n < 32) (h : ¬ (1#32 <<< n) - 1#32 ≤ mask) :
    ∃ i < n, mask.getLsbD i = false := by
  have hpow : 2 ^ n < 4294967296 := Nat.pow_lt_pow_right (by decide) hn
  have hpos : 0 < 2 ^ n := Nat.two_pow_pos n
  have hfull : ((1#32 <<< n) - 1#32).toNat = 2 ^ n - 1 := by
    rw [BitVec.toNat_sub, BitVec.toNat_shiftLeft, Nat.shiftLeft_eq]
    simp only [BitVec.toNat_ofNat]
    omega
  have hlt : mask.toNat < 2 ^ n - 1 := by
    rw [BitVec.le_def, hfull] at h
    exact Nat.lt_of_not_le h
  by_contra hall
  have heq : mask.toNat = 2 ^ n - 1 := by
    apply Nat.eq_of_testBit_eq
    intro i
    rw [Nat.testBit_two_pow_sub_one]
    by_cases hi : i < n
    · rw [decide_eq_true hi]
      by_contra hbit
      exact hall ⟨i, hi, Bool.eq_false_iff.mpr hbit⟩
    · rw [decide_eq_false hi]
      apply Nat.testBit_lt_two_pow
      have hle : 2 ^ n ≤ 2 ^ i := Nat.pow_le_pow_right (by decide) (Nat.le_of_not_lt hi)
      omega
  omega

end Mask

/-- The loop looks at the slots after the current one in turn. -/
theorem find_free_slot_spec {n : Nat} {mask : BitVec 32} (hpos : 0 < n) (hn : n < 32)
    (k current : Nat)
    (h : ∃ j < k, mask.getLsbD ((toUint32 (current + 1) + j) % n) = false) :
    (findFreeSlot n mask k current).2 = true ∧ (findFreeSlot n mask k current).1 < n ∧
      mask.getLsbD (findFreeSlot n mask k current).1 = false := by
  induction k generalizing current with
  | zero =>
    obtain ⟨j, hj, -⟩ := h
    exact absurd hj (Nat.not_lt_zero j)
  | succ k ih =>
    obtain ⟨j, hj, hfree⟩ := h
    have hnext : toUint32 (current + 1) % n < n := Nat.mod_lt _ hpos
    have hsmall : toUint32 (current + 1) % n < 32 := Nat.lt_trans hnext hn
    unfold findFreeSlot
    dsimp only
    by_cases hnow : mask &&& (1#32 <<< (toUint32 (current + 1) % n)) = 0
    · rw [if_pos hnow]
      exact ⟨rfl, hnext, (and_bit_eq_zero hsmall).mp hnow⟩
    · rw [if_neg hnow]
      apply ih
      have hj0 : j ≠ 0 := by
        rintro rfl
        exact hnow ((and_bit_eq_zero hsmall).mpr hfree)
      refine ⟨j - 1, by omega, ?_⟩
      have hstart : toUint32 (toUint32 (current + 1) % n + 1) = toUint32 (current + 1) % n + 1 :=
        toUint32_of_lt (by omega)
      have hsum : toUint32 (current + 1) % n + 1 + (j - 1) = toUint32 (current + 1) % n + j := by
        omega
      rw [hstart, hsum, Nat.mod_add_mod]
      exact hfree

/-- Where a handle lies: at its slot, or past it but inside in case it is the last. -/
structure Placed (numBuffers size total : Nat) (h : FbHandle) : Prop where
  slot : h.slot < numBuffers
  start : h.slot * size ≤ h.offset
  exact : h.slot + 1 < numBuffers → h.offset = h.slot * size
  inside : h.offset + size ≤ total
  index : size ≠ 0 → h.offset < (h.slot + 1) * size

instance (numBuffers size total : Nat) (h : FbHandle) : Decidable (Placed numBuffers size total h) :=
  decidable_of_iff (h.slot < numBuffers ∧ h.slot * size ≤ h.offset ∧
    (h.slot + 1 < numBuffers → h.offset = h.slot * size) ∧ h.offset + size ≤ total ∧
    (size ≠ 0 → h.offset < (h.slot + 1) * size))
    ⟨fun ⟨h1, h2, h3, h4, h5⟩ => ⟨h1, h2, h3, h4, h5⟩, fun ⟨h1, h2, h3, h4, h5⟩ =>
      ⟨h1, h2, h3, h4, h5⟩⟩

/-- The lines of the framebuffer are mapped, and there are fewer buffers than bits in the mask. -/
def FbDriver.fits (d : FbDriver) : Bool :=
  d.vaddr.toOption.isSome && decide (d.info.yresVirtual / d.info.yres < 32) &&
    decide (d.lineLength * d.info.yresVirtual + pageSize ≤ 4294967296)

namespace FbModule

/-- The bytes of one buffer. -/
def slotSize (m : FbModule) : Nat := m.lineLength * m.info.yres

/-- The bytes of one buffer once width and height are switched. -/
def switchedSize (m : FbModule) : Nat := m.pitch m.info.yres * m.info.xres

/-- The buffers of the new size fit, and every handle lies where its slot then is. -/
def keepsSlots (m : FbModule) : Bool :=
  m.framebuffer.all fun fb => decide (m.numBuffers * m.switchedSize ≤ fb.size) &&
    m.handles.all fun h => decide (Placed m.numBuffers m.switchedSize fb.size h)

def orderly (m : FbModule) : FbAction → Bool
  | .deviceOpen driver | .alloc _ driver =>
    m.framebuffer.isSome || driver.toOption.all fun d => d.smemLen == 0 || d.fits
  | .rotate degree => !m.switchesWidthHeight degree || m.keepsSlots
  | _ => true

end FbModule

structure FbInv (m : FbModule) : Prop where
  unmapped : m.framebuffer = none → m.handles = []
  buffers : m.numBuffers < 32
  room : ∀ fb, m.framebuffer = some fb → m.numBuffers * m.slotSize ≤ fb.size ∧
    fb.baseAddr + fb.size ≤ 4294967296
  slots : (m.handles.map FbHandle.slot).Nodup
  mask : ∀ i, m.bufferMask.getLsbD i = true ↔ i ∈ m.handles.map FbHandle.slot
  placed : ∀ fb, m.framebuffer = some fb → ∀ h ∈ m.handles,
    Placed m.numBuffers m.slotSize fb.size h ∧ h.offset < 4294967296 ∧
      h.baseAddr = toUint32 (fb.baseAddr + h.offset)

theorem fb_inv_start : FbInv .start where
  unmapped := fun _ => rfl
  buffers := by decide
  room := fun fb hfb => by cases hfb
  slots := List.nodup_nil
  mask := by
    intro i
    simp [FbModule.start]
  placed := fun fb hfb => by cases hfb

/-- The difference of two addresses. -/
theorem offset_of_address {base offset : Nat} (hbase : base ≤ 4294967296)
    (hoffset : offset < 4294967296) :
    toUint32 (toUint32 (base + offset) + (4294967296 - base)) = offset := by
  unfold toUint32
  omega

theorem round_up_ge {x : Nat} (h : x + pageSize ≤ 4294967296) : x ≤ roundUpToPageSize x := by
  unfold roundUpToPageSize toUint32 pageSize at *
  omega

section Steps
variable {m t : FbModule}

theorem FbInv.congr (hinv : FbInv m) (hframebuffer : t.framebuffer = m.framebuffer)
    (hbuffers : t.numBuffers = m.numBuffers) (hmask : t.bufferMask = m.bufferMask)
    (hhandles : t.handles = m.handles) (hsize : t.slotSize = m.slotSize) : FbInv t := by
  refine ⟨?_, ?_, ?_, ?_, ?_, ?_⟩
  · rw [hframebuffer, hhandles]
    exact hinv.unmapped
  · rw [hbuffers]
    exact hinv.buffers
  · rw [hframebuffer, hbuffers, hsize]
    exact hinv.room
  · rw [hhandles]
    exact hinv.slots
  · rw [hmask, hhandles]
    exact hinv.mask
  · rw [hframebuffer, hbuffers, hsize, hhandles]
    exact hinv.placed

theorem map_inv {driver : Except Int FbDriver} {err : Int} (hinv : FbInv m)
    (hok : (m.framebuffer.isSome || driver.toOption.all fun d => d.smemLen == 0 || d.fits) = true)
    (h : m.mapFrameBufferLocked driver = some (t, err)) : FbInv t := by
  unfold FbModule.mapFrameBufferLocked at h
  by_cases hmapped : m.framebuffer.isSome = true
  · rw [if_pos hmapped] at h
    cases h
    exact hinv
  · rw [if_neg hmapped] at h
    have hempty : m.handles = [] := by
      apply hinv.unmapped
      rw [Option.not_isSome_iff_eq_none] at hmapped
      exact hmapped
    cases driver with
    | error errno =>
      cases h
      exact hinv
    | ok d =>
      dsimp only at h
      by_cases hsmem : d.smemLen = 0
      · rw [if_pos hsmem] at h
        cases h
        exact hinv
      · rw [if_neg hsmem] at h
        have hfits : d.fits = true := by
          simpa [Bool.eq_false_iff.mpr hmapped, Except.toOption, hsmem] using hok
        simp only [FbDriver.fits, Bool.and_eq_true, decide_eq_true_eq] at hfits
        obtain ⟨⟨hvaddr, hbuffers⟩, htotal⟩ := hfits
        obtain ⟨-, hmake⟩ := Option.ite_none_left_eq_some.mp h
        cases hv : d.vaddr with
        | error errno =>
          rw [hv] at hvaddr
          cases hvaddr
        | ok vaddr =>
          rw [hv] at hmake
          obtain ⟨hspace, heq⟩ := Option.ite_none_right_eq_some.mp hmake
          cases heq
          have hlines : toUint32 (d.lineLength * d.info.yresVirtual) =
              d.lineLength * d.info.yresVirtual := by
            apply toUint32_of_lt
            unfold pageSize at htotal
            omega
          have hround := round_up_ge htotal
          refine ⟨(fun h => nomatch h), hbuffers, ?_, ?_, ?_, ?_⟩
          · intro fb hfb
            cases hfb
            -- the lines of whole buffers are among those of the virtual screen
            refine ⟨?_, hspace⟩
            show d.info.yresVirtual / d.info.yres * (d.lineLength * d.info.yres) ≤ _
            rw [hlines]
            refine Nat.le_trans ?_ hround
            calc d.info.yresVirtual / d.info.yres * (d.lineLength * d.info.yres)
                = d.lineLength * (d.info.yresVirtual / d.info.yres * d.info.yres) := by
                  rw [Nat.mul_left_comm]
              _ ≤ d.lineLength * d.info.yresVirtual :=
                  Nat.mul_le_mul_left _ (Nat.div_mul_le_self ..)
          · rw [hempty]
            exact List.nodup_nil
          · intro i
            rw [hempty]
            simp
          · intro fb _ h hh
            rw [hempty] at hh
            cases hh

theorem free_slot_found (hinv : FbInv m) (hpos : 0 < m.numBuffers)
    (hroom : ¬ (1#32 <<< m.numBuffers) - 1#32 ≤ m.bufferMask) (current : Nat) :
    ∃ index, findFreeSlot m.numBuffers m.bufferMask m.numBuffers current = (index, true) ∧
      index < m.numBuffers ∧ m.bufferMask.getLsbD index = false := by
  obtain ⟨i, hi, hfree⟩ := exists_free_slot hinv.buffers hroom
  have hbuffers := hinv.buffers
  have hturn : ∃ j < m.numBuffers,
      m.bufferMask.getLsbD ((toUint32 (current + 1) + j) % m.numBuffers) = false := by
    have hstart : toUint32 (current + 1) % m.numBuffers < m.numBuffers := Nat.mod_lt _ hpos
    -- the slot comes up after as many steps as it lies behind the start
    refine ⟨(i + m.numBuffers - toUint32 (current + 1) % m.numBuffers) % m.numBuffers,
      Nat.mod_lt _ hpos, ?_⟩
    have hsum : toUint32 (current + 1) % m.numBuffers +
        (i + m.numBuffers - toUint32 (current + 1) % m.numBuffers) = i + m.numBuffers := by omega
    rw [Nat.add_mod_mod, ← Nat.mod_add_mod, hsum, Nat.add_mod_right, Nat.mod_eq_of_lt hi]
    exact hfree
  obtain ⟨hfound, hlt, hbit⟩ := find_free_slot_spec hpos hbuffers m.numBuffers current hturn
  exact ⟨_, Prod.ext rfl hfound, hlt, hbit⟩

theorem alloc_slot_inv (hinv : FbInv m) {fb : FbMapping} (hfb : m.framebuffer = some fb) {size : Nat}
    {result : FbResult} (h : m.allocSlot fb size = some (t, result)) : FbInv t := by
  unfold FbModule.allocSlot at h
  split_ifs at h with hone hfull hbpp
  · cases h
    exact hinv
  · cases h
    exact hinv
  · have hpos : 0 < m.numBuffers := by
      apply Nat.pos_of_ne_zero
      intro hzero
      rw [hzero] at hfull
      apply hfull
      rw [BitVec.le_def]
      exact Nat.zero_le _
    obtain ⟨index, hfind, hindex, hbit⟩ := free_slot_found hinv hpos hfull m.currentBufferIndex
    simp only [hfind, if_true] at h
    cases h
    obtain ⟨hroom, hspace⟩ := hinv.room fb hfb
    have hbuffers := hinv.buffers
    -- no product wraps: the slot lies in the mapping, and that in the address space
    have hnew : m.slotSize * index + m.slotSize ≤ fb.size := by
      have hle : (index + 1) * m.slotSize ≤ m.numBuffers * m.slotSize :=
        Nat.mul_le_mul_right _ hindex
      rw [Nat.succ_mul, Nat.mul_comm] at hle
      exact Nat.le_trans hle hroom
    have htwo : 2 * m.slotSize ≤ m.numBuffers * m.slotSize :=
      Nat.mul_le_mul_right _ (by omega)
    have hsize : m.bufferSize = m.slotSize := toUint32_of_lt (by unfold FbModule.slotSize at *; omega)
    have hoffset : m.slotSize * index < 4294967296 := by
      rcases Nat.eq_zero_or_pos m.slotSize with hzero | hsome
      · rw [hzero, Nat.zero_mul]
        decide
      · omega
    have hback := @offset_of_address fb.baseAddr _ (by omega) hoffset
    have hnotin : index ∉ m.handles.map FbHandle.slot := by
      intro hin
      rw [(hinv.mask index).mpr hin] at hbit
      cases hbit
    refine ⟨?_, hinv.buffers, hinv.room, ?_, ?_, ?_⟩
    · intro hnone
      rw [hfb] at hnone
      cases hnone
    · rw [List.map_append, List.nodup_append]
      refine ⟨hinv.slots, List.nodup_singleton _, ?_⟩
      rintro i hi j hj rfl
      rw [List.mem_singleton.mp hj] at hi
      exact hnotin hi
    · intro i
      show (m.bufferMask ||| (1#32 <<< index)).getLsbD i = true ↔ _
      rw [set_bit (by omega), hinv.mask, List.map_append, List.mem_append]
      exact or_congr_right (by rw [List.map_singleton, List.mem_singleton]; exact eq_comm)
    · intro fb' hfb' h hh
      have hsame : fb' = fb := Option.some.inj (hfb'.symm.trans hfb)
      subst hsame
      rcases List.mem_append.mp hh with hold | hnewest
      · exact hinv.placed fb' hfb h hold
      · rw [List.mem_singleton.mp hnewest, hsize]
        simp only [hback]
        refine ⟨⟨hindex, ?_, fun _ => Nat.mul_comm .., hnew, ?_⟩, hoffset, trivial⟩
        · exact Nat.le_of_eq (Nat.mul_comm ..)
        · intro hne
          show m.slotSize * index < (index + 1) * m.slotSize
          rw [Nat.mul_comm]
          exact Nat.mul_lt_mul_of_pos_right (Nat.lt_succ_self index) (Nat.pos_of_ne_zero hne)

theorem alloc_inv {size : Nat} {driver : Except Int FbDriver} {result : FbResult} (hinv : FbInv m)
    (hok : m.orderly (.alloc size driver) = true)
    (h : m.allocFramebufferLocked size driver = some (t, result)) : FbInv t := by
  obtain ⟨⟨m', err⟩, hmap, hslot⟩ := Option.bind_eq_some_iff.mp h
  have hinv' := map_inv hinv hok hmap
  dsimp only at hslot
  split_ifs at hslot with herr
  · cases hslot
    exact hinv'
  · obtain ⟨fb, hfb, hslot⟩ := Option.bind_eq_some_iff.mp hslot
    exact alloc_slot_inv hinv' hfb hslot

theorem device_open_inv {driver : Except Int FbDriver} {status : Int} (hinv : FbInv m)
    (hok : m.orderly (.deviceOpen driver) = true)
    (h : m.deviceOpen driver = some (t, status)) : FbInv t := by
  obtain ⟨⟨m', err⟩, hmap, hopen⟩ := Option.bind_eq_some_iff.mp h
  have hinv' := map_inv hinv hok hmap
  dsimp only at hopen
  split_ifs at hopen <;> cases hopen
  · exact hinv'.congr rfl rfl rfl rfl rfl
  · exact hinv'

/-- The slot that is computed from the address is the slot of the handle. -/
theorem slot_of_address (hinv : FbInv m) {fb : FbMapping} (hfb : m.framebuffer = some fb)
    {h : FbHandle} (hh : h ∈ m.handles) (hne : m.bufferSize ≠ 0) :
    toUint32 (h.baseAddr + (4294967296 - fb.baseAddr)) / m.bufferSize = h.slot := by
  obtain ⟨hplaced, hoffset, haddr⟩ := hinv.placed fb hfb h hh
  obtain ⟨hroom, hspace⟩ := hinv.room fb hfb
  have hle : m.slotSize ≤ 4294967296 := by
    have hinside := hplaced.inside
    omega
  have hlt : m.slotSize < 4294967296 := by
    apply Nat.lt_of_le_of_ne hle
    intro heq
    apply hne
    unfold FbModule.bufferSize
    unfold FbModule.slotSize at heq
    rw [heq]
    rfl
  have hsize : m.bufferSize = m.slotSize := toUint32_of_lt hlt
  rw [hsize] at hne ⊢
  rw [haddr, offset_of_address (by omega) hoffset]
  apply Nat.div_eq_of_lt_le
  · exact hplaced.start
  · exact hplaced.index hne

theorem free_effect (hinv : FbInv m) {k : Nat} {h : FbHandle} (hk : m.handles[k]? = some h)
    (hfree : m.freePmem k h = some t) : t.framebuffer = m.framebuffer ∧
      t.handles = m.handles.eraseIdx k ∧
      (∀ i, t.bufferMask.getLsbD i = true ↔ m.bufferMask.getLsbD i = true ∧ i ≠ h.slot) ∧
      t.numBuffers = m.numBuffers ∧ t.slotSize = m.slotSize := by
  obtain ⟨fb, hfb, hmake⟩ := Option.bind_eq_some_iff.mp hfree
  dsimp only at hmake
  obtain ⟨hne, heq⟩ := Option.ite_none_left_eq_some.mp hmake
  cases heq
  have hh := List.mem_of_getElem? hk
  refine ⟨rfl, rfl, ?_, rfl, rfl⟩
  intro i
  have hslot := (hinv.placed fb hfb h hh).1.slot
  have hbuffers := hinv.buffers
  rw [slot_of_address hinv hfb hh hne, clear_bit (by omega)]
  exact and_congr_right fun _ => ne_comm

theorem free_inv (hinv : FbInv m) {k : Nat} {h : FbHandle} (hk : m.handles[k]? = some h)
    (hfree : m.freePmem k h = some t) : FbInv t := by
  obtain ⟨hframebuffer, hhandles, hmask, hbuffers, hsize⟩ := free_effect hinv hk hfree
  obtain ⟨hlt, rfl⟩ := List.getElem?_eq_some_iff.mp hk
  have hperm := (List.getElem_cons_eraseIdx_perm hlt).map FbHandle.slot
  rw [List.map_cons] at hperm
  have hnodup := hperm.symm.nodup hinv.slots
  rw [List.nodup_cons] at hnodup
  refine ⟨?_, ?_, ?_, ?_, ?_, ?_⟩
  · rw [hframebuffer, hhandles]
    intro hnone
    rw [hinv.unmapped hnone]
    rfl
  · rw [hbuffers]
    exact hinv.buffers
  · rw [hframebuffer, hbuffers, hsize]
    exact hinv.room
  · rw [hhandles]
    exact hnodup.2
  · intro i
    rw [hmask, hinv.mask, hhandles, ← hperm.mem_iff, List.mem_cons]
    constructor
    · rintro ⟨heq | hmem, hne⟩
      · exact absurd heq hne
      · exact hmem
    · intro hmem
      refine ⟨.inr hmem, ?_⟩
      rintro rfl
      exact hnodup.1 hmem
  · rw [hframebuffer, hbuffers, hsize, hhandles]
    exact fun fb hfb h hh => hinv.placed fb hfb h (List.mem_of_mem_eraseIdx hh)

theorem switch_inv (hinv : FbInv m) (hok : m.keepsSlots = true) (degree : Nat)
    (h : { m with info := { m.info with rotate := degree } }.switchWidthHeight = some t) :
    FbInv t := by
  unfold FbModule.switchWidthHeight at h
  obtain ⟨-, heq⟩ := Option.ite_none_left_eq_some.mp h
  cases heq
  have hkept : ∀ fb, m.framebuffer = some fb → m.numBuffers * m.switchedSize ≤ fb.size ∧
      ∀ h ∈ m.handles, Placed m.numBuffers m.switchedSize fb.size h := by
    intro fb hfb
    simpa [FbModule.keepsSlots, hfb] using hok
  refine ⟨hinv.unmapped, hinv.buffers, ?_, hinv.slots, hinv.mask, ?_⟩
  · intro fb hfb
    exact ⟨(hkept fb hfb).1, (hinv.room fb hfb).2⟩
  · intro fb hfb h hh
    exact ⟨(hkept fb hfb).2 h hh, (hinv.placed fb hfb h hh).2⟩

theorem rotate_inv {degree : Nat} {result : Int} (hinv : FbInv m)
    (hok : m.orderly (.rotate degree) = true)
    (h : m.fbRotate degree = some (t, result)) : FbInv t := by
  unfold FbModule.fbRotate at h
  split_ifs at h with hdegree haligned hswitch
  · cases h
    exact hinv
  · cases h
    exact hinv
  · obtain ⟨m', hmake, heq⟩ := Option.map_eq_some_iff.mp h
    cases heq
    have hswitches : m.switchesWidthHeight degree = true := by
      rw [not_or, not_not, not_not] at haligned
      simp only [FbModule.switchesWidthHeight, haligned.1, haligned.2, Bool.and_eq_true, beq_iff_eq,
        bne_iff_ne]
      exact ⟨⟨⟨not_not.mp hdegree, trivial⟩, trivial⟩, hswitch⟩
    have hkeeps : m.keepsSlots = true := by
      simpa [FbModule.orderly, hswitches] using hok
    exact switch_inv hinv hkeeps _ hmake
  · cases h
    exact hinv.congr rfl rfl rfl rfl rfl

theorem fb_inv_step {a : FbAction} (hinv : FbInv m) (hok : m.orderly a = true)
    (h : m.step a = some t) : FbInv t := by
  cases a with
  | deviceOpen driver =>
    obtain ⟨⟨m', status⟩, hopen, rfl⟩ := Option.map_eq_some_iff.mp h
    exact device_open_inv hinv hok hopen
  | alloc size driver =>
    obtain ⟨⟨m', result⟩, halloc, rfl⟩ := Option.map_eq_some_iff.mp h
    exact alloc_inv hinv hok halloc
  | free k =>
    obtain ⟨hnd, hk, hfree⟩ := Option.bind_eq_some_iff.mp h
    exact free_inv hinv hk hfree
  | rotate degree =>
    obtain ⟨-, hmap⟩ := Option.ite_none_right_eq_some.mp h
    obtain ⟨⟨m', result⟩, hrotate, rfl⟩ := Option.map_eq_some_iff.mp hmap
    exact rotate_inv hinv hok hrotate
  | post k =>
    obtain ⟨hnd, -, hpost⟩ := Option.bind_eq_some_iff.mp h
    obtain ⟨fb, -, hmake⟩ := Option.bind_eq_some_iff.mp hpost
    obtain ⟨-, heq⟩ := Option.ite_none_left_eq_some.mp hmake
    cases heq
    exact hinv.congr rfl rfl rfl rfl rfl

end Steps

theorem fb_inv_run {as : List FbAction} {m : FbModule} (hrun : run FbModule.step .start as = some m)
    (hok : Meets FbModule.step (fun m a => m.orderly a = true) .start as) : FbInv m :=
  run_induction_of_meets (fun _ _ _ hs ha hstep => fb_inv_step hs ha hstep) fb_inv_start hok hrun

/-- Handles of different slots lie apart. -/
theorem placed_apart {n size total : Nat} {h h' : FbHandle} (hplaced : Placed n size total h)
    (hplaced' : Placed n size total h') (hlt : h.slot < h'.slot) :
    h.offset + size ≤ h'.offset := by
  have hnext : h.slot + 1 < n := Nat.lt_of_le_of_lt hlt hplaced'.slot
  calc h.offset + size = (h.slot + 1) * size := by rw [hplaced.exact hnext, Nat.succ_mul]
    _ ≤ h'.slot * size := Nat.mul_le_mul_right _ hlt
    _ ≤ h'.offset := hplaced'.start

theorem handles_apart {m : FbModule} (hinv : FbInv m) {fb : FbMapping}
    (hfb : m.framebuffer = some fb) : m.handles.Pairwise fun h h' =>
      h.offset + m.slotSize ≤ h'.offset ∨ h'.offset + m.slotSize ≤ h.offset := by
  have hslots := hinv.slots
  rw [List.Nodup, List.pairwise_map] at hslots
  refine hslots.imp_of_mem ?_
  intro h h' hh hh' hne
  have hplaced := (hinv.placed fb hfb h hh).1
  have hplaced' := (hinv.placed fb hfb h' hh').1
  rcases Nat.lt_or_gt_of_ne hne with hlt | hgt
  · exact .inl (placed_apart hplaced hplaced' hlt)
  · exact .inr (placed_apart hplaced' hplaced hgt)

/-- Without padding the two ways round a buffer has the same size, and every rotation keeps the
slots. -/
theorem keeps_slots_of_unpadded {m : FbModule} (hinv : FbInv m)
    (hlines : m.lineLength = m.pitch m.info.xres) {bytes : Nat}
    (hbytes : m.info.bitsPerPixel = bytes * 8)
    (hxres : m.info.xres * m.info.bitsPerPixel < 4294967296)
    (hyres : m.info.yres * m.info.bitsPerPixel < 4294967296) : m.keepsSlots = true := by
  have hpitch : ∀ pixels, pixels * m.info.bitsPerPixel < 4294967296 →
      m.pitch pixels = pixels * bytes := by
    intro pixels hlt
    unfold FbModule.pitch
    rw [toUint32_of_lt hlt, hbytes, ← Nat.mul_assoc, Nat.mul_div_cancel _ (by decide)]
  have hsize : m.switchedSize = m.slotSize := by
    unfold FbModule.switchedSize FbModule.slotSize
    rw [hlines, hpitch _ hxres, hpitch _ hyres, Nat.mul_right_comm, Nat.mul_comm m.info.yres,
      Nat.mul_right_comm]
  unfold FbModule.keepsSlots
  rw [hsize]
  cases hfb : m.framebuffer with
  | none => rfl
  | some fb =>
    have hroom := (hinv.room fb hfb).1
    have hplaced : ∀ h ∈ m.handles, Placed m.numBuffers m.slotSize fb.size h :=
      fun h hh => (hinv.placed fb hfb h hh).1
    simpa using ⟨hroom, hplaced⟩

/-- In every run in which the mapping succeeds and a rotation leaves each handle at its slot, the
handles lie apart and inside the mapping, the mask says which slots they have, and a free clears the
bit that the allocation has set. -/
theorem slots_stay_apart (as : List FbAction) (m : FbModule)
    (hrun : run FbModule.step .start as = some m)
    (hok : Meets FbModule.step (fun m a => m.orderly a = true) .start as) :
    (∀ h ∈ m.handles, ∃ fb, m.framebuffer = some fb ∧
        h.offset + m.lineLength * m.info.yres ≤ fb.size) ∧
      (m.handles.Pairwise fun h h' => h.offset + m.lineLength * m.info.yres ≤ h'.offset ∨
        h'.offset + m.lineLength * m.info.yres ≤ h.offset) ∧
      (m.handles.map FbHandle.slot).Nodup ∧
      (∀ i, m.bufferMask.getLsbD i = true ↔ ∃ h ∈ m.handles, h.slot = i) ∧
      ∀ k h t, m.handles[k]? = some h → m.step (.free k) = some t →
        t.handles = m.handles.eraseIdx k ∧
        ∀ i, t.bufferMask.getLsbD i = true ↔ m.bufferMask.getLsbD i = true ∧ i ≠ h.slot := by
  have hinv := fb_inv_run hrun hok
  have hmapped : ∀ h ∈ m.handles, ∃ fb, m.framebuffer = some fb := by
    intro h hh
    cases hfb : m.framebuffer with
    | some fb => exact ⟨fb, rfl⟩
    | none =>
      rw [hinv.unmapped hfb] at hh
      cases hh
  refine ⟨?_, ?_, hinv.slots, ?_, ?_⟩
  · intro h hh
    obtain ⟨fb, hfb⟩ := hmapped h hh
    exact ⟨fb, hfb, (hinv.placed fb hfb h hh).1.inside⟩
  · cases hfb : m.framebuffer with
    | some fb => exact handles_apart hinv hfb
    | none =>
      rw [hinv.unmapped hfb]
      exact List.Pairwise.nil
  · intro i
    rw [hinv.mask, List.mem_map]
  · intro k h t hk hstep
    obtain ⟨h', hk', hfree⟩ := Option.bind_eq_some_iff.mp hstep
    have hsame : h' = h := Option.some.inj (hk'.symm.trans hk)
    subst hsame
    obtain ⟨-, hhandles, hmask, -, -⟩ := free_effect hinv hk hfree
    exact ⟨hhandles, hmask⟩

/-- A screen of 240 by 320 pixels of two bytes, with room for three buffers. -/
def sampleScreen (lineLength : Nat) : Except Int FbDriver :=
  .ok ⟨⟨240, 320, 240, 960, 16, 0, 0⟩, lineLength, 983040, 0, .ok 65536⟩

theorem slots_stay_apart_sample :
    ∃ m, run FbModule.step .start [.deviceOpen (sampleScreen 480), .alloc 153600 (.error 0),
        .alloc 153600 (.error 0), .rotate 90, .post 1, .alloc 153600 (.error 0), .free 1] = some m ∧
      m.bufferMask = 5#32 ∧ m.handles.Pairwise fun h h' =>
        h.offset + m.lineLength * m.info.yres ≤ h'.offset ∨
        h'.offset + m.lineLength * m.info.yres ≤ h.offset := by
  have hrun : ∃ m, run FbModule.step .start [.deviceOpen (sampleScreen 480),
      .alloc 153600 (.error 0), .alloc 153600 (.error 0), .rotate 90, .post 1,
      .alloc 153600 (.error 0), .free 1] = some m ∧ m.bufferMask = 5#32 := ⟨_, rfl, rfl⟩
  obtain ⟨m, hm, hmask⟩ := hrun
  exact ⟨m, hm, hmask, (slots_stay_apart _ m hm (by decide)).2.1⟩

/-- The driver pads the lines to 1024 bytes. Freed after a rotation, the handle of slot 1 takes the
bit of slot 2 with it, which is still given out, and leaves its own. -/
theorem rotated_free_clears_other_bit :
    ∃ m, run FbModule.step .start [.deviceOpen (sampleScreen 1024), .alloc 153600 (.error 0),
        .alloc 153600 (.error 0), .alloc 153600 (.error 0), .rotate 90, .free 1] = some m ∧
      m.handles.map FbHandle.slot = [0, 2] ∧ m.bufferMask.getLsbD 2 = false ∧
      m.bufferMask.getLsbD 1 = true :=
  ⟨_, rfl, rfl, rfl, rfl⟩

end Codinalte.Gralloc
