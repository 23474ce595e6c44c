import Mathlib.Data.Finset.Card
import Mathlib.Data.Finset.Range
import Codinalte.Alsa.Enclosure
import Codinalte.Alsa.HwParams

/-! Masks of formats, and the two loops between the formats and the width of a sample. -/

namespace Codinalte.Alsa
open OpenBounds

namespace Mask
variable {mask v : Mask} {j k : Nat}

theorem test_and : (mask &&& v).test k = (mask.test k && v.test k) := BitVec.getLsbD_and

theorem test_reset (hk : k < 64) : (mask.reset k).test j = (mask.test j && decide (j ≠ k)) := by
  rw [reset, test_and]
  by_cases hj : j < 64
  · simp only [test, BitVec.getLsbD_not, BitVec.getLsbD_shiftLeft, BitVec.getLsbD_one, hj]
    congr 1
    by_cases heq : j = k
    · subst heq
      simp
    · by_cases hlt : j < k
      · simp [hlt, heq]
      · have hsub : j - k ≠ 0 := by omega
        simp [hsub, heq]
  · have hnone : mask.test j = false := BitVec.getLsbD_of_ge mask j (not_lt.mp hj)
    rw [hnone, Bool.false_and, Bool.false_and]

theorem nonempty_of_test (h : mask.test k = true) : mask.empty = false := by
  refine decide_eq_false ?_
  rintro rfl
  simp [test] at h

theorem eq_of_test (h : ∀ k, mask.test k = v.test k) : mask = v :=
  BitVec.eq_of_getLsbD_eq fun k _ => h k

/-- How many formats the mask has. -/
def count (mask : Mask) : Nat := ((Finset.range (formatLast + 1)).filter (mask.test ·)).card

theorem count_le (h : ∀ k, mask.test k = true → v.test k = true) : mask.count ≤ v.count :=
  Finset.card_le_card fun k hk => by
    rw [Finset.mem_filter] at hk ⊢
    exact ⟨hk.1, h k hk.2⟩

theorem count_reset_lt (hk : k ≤ formatLast) (h : mask.test k = true) :
    (mask.reset k).count < mask.count := by
  have hword : k < 64 := Nat.lt_of_le_of_lt hk (by decide)
  refine Finset.card_lt_card (Finset.ssubset_iff_of_subset ?_ |>.mpr ⟨k, ?_, ?_⟩)
  · intro j hj
    rw [Finset.mem_filter, test_reset hword, Bool.and_eq_true] at hj
    exact Finset.mem_filter.mpr ⟨hj.1, hj.2.1⟩
  · exact Finset.mem_filter.mpr ⟨Finset.mem_range.mpr (Nat.lt_succ_of_le hk), h⟩
  · rw [Finset.mem_filter, test_reset hword]
    simp

theorem refine_spec (hk : mask.test k = true) (hv : v.test k = true) :
    (mask.refine v).1 = mask &&& v ∧
      ∃ changed, (mask.refine v).2 = .ok changed ∧ (changed = false → mask &&& v = mask) := by
  have hand : (mask &&& v).test k = true := by rw [test_and, hk, hv, Bool.true_and]
  rw [refine, if_neg (Bool.eq_false_iff.mp (nonempty_of_test hk)),
    if_neg (Bool.eq_false_iff.mp (nonempty_of_test hand))]
  exact ⟨rfl, _, rfl, fun hsame => not_not.mp (of_decide_eq_false hsame)⟩

end Mask

/-- The format has no width, or one that the interval has. -/
def Agrees (i : Interval) (k : Nat) : Prop :=
  ∀ bits, physicalWidth k = some bits → i.test bits = true

structure Dropped (i : Interval) (ks : List Nat) (mask left : Mask) (changed after : Bool) :
    Prop where
  sub : ∀ k, left.test k = true → mask.test k = true
  kept : ∀ k, mask.test k = true → Agrees i k → left.test k = true
  agree : ∀ k ∈ ks, left.test k = true → Agrees i k
  fewer : after = true → changed = true ∨ left.count < mask.count
  same : after = false → left = mask ∧ changed = false

/-- As long as a format is left that agrees with the interval, the loop ends well. -/
theorem dropFormats_spec {i : Interval} {f : Nat} (hf : Agrees i f) :
    ∀ (ks : List Nat) (mask : Mask) (changed : Bool), (∀ k ∈ ks, k ≤ formatLast) →
      mask.test f = true → ∃ left after,
        HwParams.dropFormats i ks mask changed = (left, .ok after) ∧
          Dropped i ks mask left changed after := by
  intro ks
  induction ks with
  | nil =>
    intro mask changed _ _
    exact ⟨mask, changed, rfl, fun _ h => h, fun _ h _ => h, (fun _ h => nomatch h), .inl,
      fun h => ⟨rfl, h⟩⟩
  | cons k ks ih =>
    intro mask changed hks hmask
    have hks' : ∀ k ∈ ks, k ≤ formatLast := fun j hj => hks j (List.mem_cons_of_mem k hj)
    have hpass : (mask.test k = true → Agrees i k) →
        HwParams.dropFormats i (k :: ks) mask changed = HwParams.dropFormats i ks mask changed →
        ∃ left after, HwParams.dropFormats i (k :: ks) mask changed = (left, .ok after) ∧
          Dropped i (k :: ks) mask left changed after := by
      intro hagree heq
      obtain ⟨left, after, hrun, h⟩ := ih mask changed hks' hmask
      refine ⟨left, after, heq.trans hrun, h.sub, h.kept, ?_, h.fewer, h.same⟩
      intro j hj hleft
      rcases List.mem_cons.mp hj with rfl | hj
      · exact hagree (h.sub _ hleft)
      · exact h.agree j hj hleft
    by_cases htest : mask.test k = true
    · cases hwidth : physicalWidth k with
      | none =>
        refine hpass (fun _ bits hbits => ?_) ?_
        · rw [hwidth] at hbits
          cases hbits
        · simp only [HwParams.dropFormats, htest, if_true, hwidth]
      | some bits =>
        by_cases hbits : i.test bits = true
        · refine hpass (fun _ other hother => ?_) ?_
          · rw [hwidth] at hother
            cases hother
            exact hbits
          · simp only [HwParams.dropFormats, htest, if_true, hwidth, hbits]
        · have hword : k < 64 := Nat.lt_of_le_of_lt (hks k List.mem_cons_self) (by decide)
          have hother : ∀ j, mask.test j = true → Agrees i j → (mask.reset k).test j = true := by
            intro j hj hagree
            rw [Mask.test_reset hword, hj, Bool.true_and, decide_eq_true_eq]
            rintro rfl
            exact hbits (hagree bits hwidth)
          have hreset := hother f hmask hf
          obtain ⟨left, after, hrun, h⟩ := ih (mask.reset k) true hks' hreset
          have hsub : ∀ j, left.test j = true → mask.test j = true := by
            intro j hleft
            have hj := h.sub j hleft
            rw [Mask.test_reset hword, Bool.and_eq_true] at hj
            exact hj.1
          refine ⟨left, after, ?_, hsub, fun j hj hagree => h.kept j (hother j hj hagree) hagree,
            ?_, ?_, ?_⟩
          · simp only [HwParams.dropFormats, htest, if_true, hwidth, hbits, Bool.false_eq_true,
              if_false, Mask.nonempty_of_test hreset]
            exact hrun
          · intro j hj hleft
            rcases List.mem_cons.mp hj with rfl | hj
            · have hj := h.sub _ hleft
              rw [Mask.test_reset hword] at hj
              simp at hj
            · exact h.agree j hj hleft
          · intro _
            exact .inr ((Mask.count_le h.sub).trans_lt
              (Mask.count_reset_lt (hks k List.mem_cons_self) htest))
          · intro hafter
            cases (h.same hafter).2
    · refine hpass (fun h => absurd h htest) ?_
      simp only [HwParams.dropFormats, htest, Bool.false_eq_true, if_false]

/-- Where every format that is left agrees, the loop has nothing to do. -/
theorem dropFormats_idle {i : Interval} {mask : Mask} {changed : Bool} :
    ∀ {ks : List Nat}, (∀ k ∈ ks, mask.test k = true → Agrees i k) →
      HwParams.dropFormats i ks mask changed = (mask, .ok changed) := by
  intro ks
  induction ks with
  | nil => exact fun _ => rfl
  | cons k ks ih =>
    intro h
    have hrest := ih fun j hj => h j (List.mem_cons_of_mem k hj)
    rw [HwParams.dropFormats]
    split
    · next htest =>
      split
      · exact hrest
      · next bits hwidth => rw [if_pos (h k List.mem_cons_self htest bits hwidth), hrest]
    · exact hrest

theorem physicalWidth_le {k bits : Nat} (h : physicalWidth k = some bits) : bits ≤ 64 := by
  unfold physicalWidth at h
  split_ifs at h <;> cases h <;> decide

theorem widths_spec (mask : Mask) :
    ∀ (ks : List Nat) (r : Nat × Nat), r.2 ≤ 64 →
      (HwParams.widths mask ks r).1 ≤ r.1 ∧ r.2 ≤ (HwParams.widths mask ks r).2 ∧
        (HwParams.widths mask ks r).2 ≤ 64 ∧
        ∀ k ∈ ks, mask.test k = true → ∀ bits, physicalWidth k = some bits →
          (HwParams.widths mask ks r).1 ≤ bits ∧ bits ≤ (HwParams.widths mask ks r).2 := by
  intro ks
  induction ks with
  | nil => exact fun r hr => ⟨le_rfl, le_rfl, hr, fun _ h => nomatch h⟩
  | cons k ks ih =>
    intro r hr
    by_cases htest : mask.test k = true
    · cases hwidth : physicalWidth k with
      | none =>
        simp only [HwParams.widths, htest, if_true, hwidth]
        obtain ⟨hmin, hmax, hle, hall⟩ := ih r hr
        refine ⟨hmin, hmax, hle, ?_⟩
        intro j hj hjtest bits hbits
        rcases List.mem_cons.mp hj with rfl | hj
        · rw [hwidth] at hbits
          cases hbits
        · exact hall j hj hjtest bits hbits
      | some width =>
        simp only [HwParams.widths, htest, if_true, hwidth]
        have hwide := physicalWidth_le hwidth
        obtain ⟨hmin, hmax, hle, hall⟩ :=
          ih (if width < r.1 then width else r.1, if r.2 < width then width else r.2)
            (by dsimp only; split_ifs <;> omega)
        dsimp only at hmin hmax
        refine ⟨hmin.trans (by split_ifs <;> omega), le_trans (by split_ifs <;> omega) hmax, hle,
          ?_⟩
        intro j hj hjtest bits hbits
        rcases List.mem_cons.mp hj with rfl | hj
        · rw [hwidth] at hbits
          cases hbits
          exact ⟨hmin.trans (by split_ifs <;> omega), le_trans (by split_ifs <;> omega) hmax⟩
        · exact hall j hj hjtest bits hbits
    · simp only [HwParams.widths, htest, Bool.false_eq_true, if_false]
      obtain ⟨hmin, hmax, hle, hall⟩ := ih r hr
      refine ⟨hmin, hmax, hle, ?_⟩
      intro j hj hjtest bits hbits
      rcases List.mem_cons.mp hj with rfl | hj
      · exact absurd hjtest htest
      · exact hall j hj hjtest bits hbits

/-- The widths of the formats in the mask. -/
def widthInterval (mask : Mask) : Interval where
  min := (HwParams.widths mask HwParams.formats (UINT_MAX, 0)).1
  max := (HwParams.widths mask HwParams.formats (UINT_MAX, 0)).2
  openmin := false
  openmax := false
  integer := false
  empty := false

theorem widthInterval_contains {mask : Mask} {k bits : Nat} (hk : mask.test k = true)
    (hwidth : physicalWidth k = some bits) : (widthInterval mask).Contains bits := by
  have hmem : k ∈ HwParams.formats := by
    refine List.mem_range.mpr (Nat.lt_succ_of_le ?_)
    by_contra hlarge
    rw [not_le] at hlarge
    have hlarge' : 43 < k := hlarge
    unfold physicalWidth formatLast at hwidth
    split_ifs at hwidth <;> omega
  obtain ⟨-, -, hle, hall⟩ :=
    widths_spec mask HwParams.formats (UINT_MAX, 0) (Nat.zero_le _)
  obtain ⟨hmin, hmax⟩ := hall k hmem hk bits hwidth
  exact ⟨rfl, hle.trans (by decide), .closed (Nat.cast_le.mpr hmin),
    .closed (Nat.cast_le.mpr hmax), fun h => nomatch h⟩

end Codinalte.Alsa
