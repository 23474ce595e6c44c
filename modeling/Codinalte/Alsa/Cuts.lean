import Codinalte.Alsa.Requests
import Codinalte.Alsa.RefineSoft

/-! What a request takes from an interval or a mask: the values that are not asked for, and no
other one. -/

namespace Codinalte.Alsa
open OpenBounds

/-- The values that `_snd_pcm_hw_param_set` is for. -/
def Near (val : Nat) (dir : Int) (x : ℚ) : Prop :=
  if dir = 0 then x = val
  else if dir < 0 then (val : ℚ) - 1 < x ∧ x < val
  else (val : ℚ) < x ∧ x < val + 1

namespace Interval
variable {P Q : ℚ → Prop} {i v : Interval} {r r' : Interval × Except Stop Bool} {x : ℚ}

/-- A change that leaves the value `x`, and none that `P` does not hold of. -/
structure Cut (P : ℚ → Prop) (x : ℚ) (i : Interval) (r : Interval × Except Stop Bool) :
    Prop where
  done : ∃ changed, r.2 = .ok changed ∧ (changed = false → r.1 = i)
  contains : r.1.Contains x
  fits : r.1.Fits i
  only : ∀ {y}, r.1.Contains y → P y

theorem Cut.weaken (h : Cut P x i r) (hpq : ∀ y, P y → Q y) : Cut Q x i r :=
  ⟨h.done, h.contains, h.fits, fun hy => hpq _ (h.only hy)⟩

theorem Narrowed.cut {j : Interval} {changed : Bool} (h : Narrowed x i j changed)
    (honly : ∀ {y}, j.Contains y → P y) : Cut P x i (j.finish changed) := by
  rw [finish_of_contains h.contains]
  exact ⟨⟨changed, rfl, h.same⟩, h.contains, h.fits, honly⟩

/-- The bound of an integer is closed, where the value is one. -/
theorem closeMin_narrowed {j : Interval} {changed : Bool} (hx : Representable x)
    (h : Narrowed x i j changed) (hopen : changed = false → j.integer = true → j.openmin = false) :
    Narrowed x i (if j.integer then j.closeMin else j) changed ∧
      j.lo ≤ (if j.integer then j.closeMin else j).lo := by
  split
  · next hinteger =>
    obtain ⟨n, hn⟩ := h.contains.whole hinteger
    obtain ⟨hcontains, hlo, -⟩ := closeMin_contains hx h.contains hn
    obtain ⟨hint, hhi⟩ := closeMin_frame (i := j)
    have hfits : j.closeMin.Fits j := ⟨hlo, hhi.le, fun hj => hint.trans hj⟩
    refine ⟨⟨hcontains, hfits.trans h.fits, fun hc => (h.moved hc).fits hfits, ?_⟩, hlo⟩
    intro hunchanged
    have hsame : j.closeMin = j := if_neg (Bool.eq_false_iff.mp (hopen hunchanged hinteger))
    exact hsame.trans (h.same hunchanged)
  · exact ⟨h, le_rfl⟩

theorem closeMax_narrowed {j : Interval} {changed : Bool} (h : Narrowed x i j changed)
    (hopen : changed = false → j.integer = true → j.openmax = false) :
    Narrowed x i (if j.integer then j.closeMax else j) changed ∧
      (if j.integer then j.closeMax else j).hi ≤ j.hi := by
  split
  · next hinteger =>
    obtain ⟨n, hn⟩ := h.contains.whole hinteger
    obtain ⟨hcontains, hhi, -⟩ := closeMax_contains h.contains hn
    obtain ⟨hint, hlo, -⟩ := closeMax_frame (i := j)
    have hfits : j.closeMax.Fits j := ⟨hlo.ge, hhi, fun hj => hint.trans hj⟩
    refine ⟨⟨hcontains, hfits.trans h.fits, fun hc => (h.moved hc).fits hfits, ?_⟩, hhi⟩
    intro hunchanged
    have hsame : j.closeMax = j := if_neg (Bool.eq_false_iff.mp (hopen hunchanged hinteger))
    exact hsame.trans (h.same hunchanged)
  · exact ⟨h, le_rfl⟩

theorem cut_refineMin {b : Nat × Bool} (hx : Representable x) (hi : i.Contains x)
    (hopen : i.integer = true → i.openmin = false) (hb : Above (b.1 : ℚ) b.2 x) :
    Cut (Above (b.1 : ℚ) b.2) x i (i.refineMin b.1 b.2) := by
  obtain ⟨hraise, hlo⟩ := raiseMin_narrowed hi hb
  obtain ⟨hclose, hlo'⟩ := closeMin_narrowed hx hraise fun hunchanged => by
    rw [hraise.same hunchanged]
    exact hopen
  rw [refineMin, if_neg (Bool.eq_false_iff.mp hi.nonempty)]
  refine hclose.cut ?_
  intro y hy
  exact above_of_lo_le (i := ⟨b.1, 0, b.2, false, false, false⟩) (hlo.trans hlo') hy.above

theorem cut_refineMax {b : Nat × Bool} (hi : i.Contains x)
    (hopen : i.integer = true → i.openmax = false) (hb : Below (b.1 : ℚ) b.2 x) :
    Cut (Below (b.1 : ℚ) b.2) x i (i.refineMax b.1 b.2) := by
  obtain ⟨hlower, hhi⟩ := lowerMax_narrowed hi hb
  obtain ⟨hclose, hhi'⟩ := closeMax_narrowed hlower fun hunchanged => by
    rw [hlower.same hunchanged]
    exact hopen
  rw [refineMax, if_neg (Bool.eq_false_iff.mp hi.nonempty)]
  refine hclose.cut ?_
  intro y hy
  exact below_of_hi_le (i := ⟨0, b.1, false, b.2, false, false⟩) (hhi'.trans hhi) hy.below

/-- The other bound, and whether it is an integer, stay. -/
theorem refineMin_frame (i : Interval) (min : Nat) (openmin : Bool) :
    (i.refineMin min openmin).1.integer = i.integer ∧
      (i.refineMin min openmin).1.openmax = i.openmax := by
  have hraise : (i.raiseMin min openmin).1.integer = i.integer ∧
      (i.raiseMin min openmin).1.openmax = i.openmax := by
    rcases raiseMin_cases i min openmin with ⟨-, hr⟩ | ⟨-, hr⟩ <;> rw [hr] <;> exact ⟨rfl, rfl⟩
  have hfinish : ∀ (j : Interval) (changed : Bool), (j.finish changed).1.integer = j.integer ∧
      (j.finish changed).1.openmax = j.openmax := by
    intro j changed
    unfold finish
    split <;> exact ⟨rfl, rfl⟩
  have hclose : ∀ j : Interval, (if j.integer then j.closeMin else j).integer = j.integer ∧
      (if j.integer then j.closeMin else j).openmax = j.openmax := by
    intro j
    unfold closeMin
    split
    · split <;> exact ⟨rfl, rfl⟩
    · exact ⟨rfl, rfl⟩
  rw [refineMin]
  split
  · exact ⟨rfl, rfl⟩
  · exact ⟨(hfinish _ _).1.trans ((hclose _).1.trans hraise.1),
      (hfinish _ _).2.trans ((hclose _).2.trans hraise.2)⟩

theorem cut_refineMinmax {min max : Nat × Bool} (hx : Representable x) (hi : i.Contains x)
    (hsettled : i.Settled) (hmin : Above (min.1 : ℚ) min.2 x) (hmax : Below (max.1 : ℚ) max.2 x) :
    Cut (fun y => Above (min.1 : ℚ) min.2 y ∧ Below (max.1 : ℚ) max.2 y) x i
      (i.refineMinmax min max) := by
  have hlow := cut_refineMin hx hi (fun hint => (hsettled.closed hint).1) hmin
  obtain ⟨hint, hopenmax⟩ := refineMin_frame i min.1 min.2
  have hhigh := cut_refineMax hlow.contains (by
    rw [hint, hopenmax]
    exact fun hint => (hsettled.closed hint).2) hmax
  obtain ⟨c, hok, hsame⟩ := hlow.done
  obtain ⟨c', hok', hsame'⟩ := hhigh.done
  have hrun : i.refineMinmax min max =
      (((i.refineMin min.1 min.2).1.refineMax max.1 max.2).1, .ok (c || c')) := by
    unfold refineMinmax
    split
    · next heq => rw [heq] at hok; cases hok
    · next heq =>
      rw [heq] at hok hok' ⊢
      cases hok
      split
      · next heq' => rw [heq'] at hok'; cases hok'
      · next heq' =>
        rw [heq'] at hok' ⊢
        cases hok'
        rfl
  rw [hrun]
  refine ⟨⟨c || c', rfl, ?_⟩, hhigh.contains, hhigh.fits.trans hlow.fits, ?_⟩
  · intro hunchanged
    obtain ⟨hc, hc'⟩ := Bool.or_eq_false_iff.mp hunchanged
    exact (hsame' hc').trans (hsame hc)
  · intro y hy
    exact ⟨hlow.only (hy.mono hhigh.fits hlow.contains.nonempty hlow.contains.word),
      hhigh.only hy⟩

theorem cut_refine (hx : Representable x) (hi : i.Contains x) (hsettled : i.Settled)
    (hv : v.Contains x) : Cut v.Contains x i (i.refine v) := by
  obtain ⟨changed, hok, hrefined⟩ := refine_spec hx hi hv
  exact ⟨⟨changed, hok, fun hunchanged => hrefined.same hunchanged hsettled⟩, hrefined.contains,
    hrefined.fits, fun hy => hy.mono hrefined.within hv.nonempty hv.word⟩

theorem cut_setinteger (hi : i.Contains x) {n : ℕ} (hn : x = n) :
    Cut (fun y => ∃ n : ℕ, y = n) x i i.setinteger := by
  unfold setinteger
  split
  · next hinteger => exact ⟨⟨false, rfl, fun _ => rfl⟩, hi, .refl i, fun hy => hy.whole hinteger⟩
  · split
    · next hnone =>
      have hcheck := hi.checkempty
      rw [checkempty, decide_eq_true hnone.2.2, hnone.1, Bool.true_or, Bool.true_and,
        Bool.or_true] at hcheck
      cases hcheck
    · refine ⟨⟨true, rfl, fun h => absurd h.symm Bool.false_ne_true⟩, ?_,
        ⟨le_rfl, le_rfl, fun _ => rfl⟩, fun hy => hy.whole rfl⟩
      exact ⟨hi.nonempty, hi.word, hi.above, hi.below, fun _ => ⟨n, hn⟩⟩

theorem cut_set {val : Nat} {dir : Int} (hx : Representable x) (hi : i.Contains x)
    (hsettled : i.Settled) (hnear : Near val dir x) :
    Cut (Near val dir) x i (i.set val dir) := by
  have hword : ∀ {n : ℕ}, (n : ℚ) ≤ x → n < UINT_MAX := fun hle =>
    Nat.cast_lt.mp (hle.trans_lt hx.lt)
  unfold set
  by_cases hdir : dir = 0
  · have hval : x = val := by rwa [Near, if_pos hdir] at hnear
    rw [if_neg fun h => absurd (hdir ▸ h.2) (lt_irrefl _), if_pos hdir]
    have hpoint : Interval.Contains ⟨val, val, false, false, true, false⟩ x :=
      ⟨rfl, (hword hval.ge).le, .closed hval.ge, .closed hval.le, fun _ => ⟨val, hval⟩⟩
    refine (cut_refine hx hi hsettled hpoint).weaken ?_
    intro y hy
    rw [Near, if_pos hdir]
    exact hy.below.1.antisymm hy.above.1
  · by_cases hneg : dir < 0
    · obtain ⟨hlow, hhigh⟩ : (val : ℚ) - 1 < x ∧ x < val := by
        rwa [Near, if_neg hdir, if_pos hneg] at hnear
      have hpos : 0 < val := Nat.cast_pos.mp (hx.pos.trans hhigh)
      have hpred : ((val - 1 : ℕ) : ℚ) = val - 1 := Nat.cast_pred hpos
      rw [if_neg fun h => hpos.ne' h.1, if_neg hdir, if_pos hneg]
      have hpart : Interval.Contains ⟨val - 1, val, true, true, false, false⟩ x := by
        refine ⟨rfl, ?_, .of_lt (hpred ▸ hlow), .of_lt hhigh, fun h => nomatch h⟩
        have hlt : val - 1 < UINT_MAX := hword (hpred ▸ hlow.le)
        show val ≤ UINT_MAX
        omega
      refine (cut_refine hx hi hsettled hpart).weaken ?_
      intro y hy
      rw [Near, if_neg hdir, if_pos hneg]
      exact ⟨hpred ▸ hy.above.2 rfl, hy.below.2 rfl⟩
    · obtain ⟨hlow, hhigh⟩ : (val : ℚ) < x ∧ x < val + 1 := by
        rwa [Near, if_neg hdir, if_neg hneg] at hnear
      have hinc : increment val = val + 1 := if_neg (hword hlow.le).ne
      have hsucc : ((val + 1 : ℕ) : ℚ) = val + 1 := Nat.cast_succ val
      rw [if_neg fun h => hneg h.2, if_neg hdir, if_neg hneg, hinc]
      have hpart : Interval.Contains ⟨val, val + 1, true, true, false, false⟩ x :=
        ⟨rfl, hword hlow.le, .of_lt hlow, .of_lt (hsucc ▸ hhigh), fun h => nomatch h⟩
      refine (cut_refine hx hi hsettled hpart).weaken ?_
      intro y hy
      rw [Near, if_neg hdir, if_neg hneg]
      exact ⟨hy.above.2 rfl, hsucc ▸ hy.below.2 rfl⟩

end Interval

/-- The choice that `_snd_pcm_hw_param_set` is for. -/
def Chosen (val : Nat) (dir : Int) (k : Nat) : Prop :=
  ¬(val = 0 ∧ dir < 0) ∧
    k = if 0 < dir then increment val else if dir < 0 then val - 1 else val

namespace Mask
variable {P : Nat → Prop} {mask v : Mask} {k : Nat}

structure Cut (P : Nat → Prop) (k : Nat) (mask : Mask) (r : Mask × Except Stop Bool) :
    Prop where
  done : ∃ changed, r.2 = .ok changed ∧ (changed = false → r.1 = mask)
  test : r.1.test k = true
  sub : ∀ j, r.1.test j = true → mask.test j = true
  only : ∀ j, r.1.test j = true → P j

theorem cut_refine (hk : mask.test k = true) (hv : v.test k = true) :
    Cut (fun j => v.test j = true) k mask (mask.refine v) := by
  obtain ⟨hand, changed, hok, hsame⟩ := refine_spec hk hv
  refine ⟨⟨changed, hok, fun hunchanged => hand.trans (hsame hunchanged)⟩, ?_, ?_, ?_⟩
  · rw [hand, test_and, hk, hv, Bool.true_and]
  · intro j hj
    rw [hand, test_and, Bool.and_eq_true] at hj
    exact hj.1
  · intro j hj
    rw [hand, test_and, Bool.and_eq_true] at hj
    exact hj.2

theorem test_lt (hk : mask.test k = true) : k < 64 := BitVec.lt_of_getLsbD hk

theorem test_leave {j : Nat} (hk : mask.test k = true) :
    (mask.leave k).test j = decide (j = k) := by
  have hlt := test_lt hk
  rw [leave, if_pos hk, test, BitVec.getLsbD_shiftLeft, BitVec.getLsbD_one]
  by_cases hj : j = k
  · subst hj
    simp [hlt]
  · rw [decide_eq_false hj]
    by_cases hle : j < k
    · simp [hle]
    · have hpos : j - k ≠ 0 := by omega
      simp [hpos]

theorem leave_of_single (hk : mask.test k = true) (hsingle : mask.single = true) :
    mask.leave k = mask := by
  have hand : mask &&& (mask - 1) = 0 := of_decide_eq_true hsingle
  have hne : mask.toNat ≠ 0 := by
    intro hzero
    rw [test, BitVec.getLsbD, hzero, Nat.zero_testBit] at hk
    cases hk
  have hpower : mask.toNat &&& (mask.toNat - 1) = 0 := by
    have hnat := congrArg BitVec.toNat hand
    have hle : (1 : Mask) ≤ mask := by
      rw [BitVec.le_def]
      exact Nat.one_le_iff_ne_zero.mpr hne
    rwa [BitVec.toNat_and, BitVec.toNat_sub_of_le hle] at hnat
  obtain ⟨j, hj⟩ := (Nat.and_sub_one_eq_zero_iff_isPowerOfTwo hne).mp hpower
  have htest : ∀ n, mask.test n = decide (j = n) := by
    intro n
    rw [test, BitVec.getLsbD, hj, Nat.testBit_two_pow]
  refine eq_of_test fun n => ?_
  have hkj : j = k := of_decide_eq_true ((htest k).symm.trans hk)
  rw [test_leave hk, htest, hkj]
  exact decide_eq_decide.mpr eq_comm

theorem cut_set {val : Nat} {dir : Int} (hk : mask.test k = true) (hchosen : Chosen val dir k) :
    Cut (Chosen val dir) k mask (mask.set val dir) := by
  obtain ⟨hnot, hval⟩ := hchosen
  have htest : (mask.leave k).test k = true := (test_leave hk).trans (decide_eq_true rfl)
  rw [set, if_neg hnot, ← hval, refineSet, if_neg (Bool.eq_false_iff.mp (nonempty_of_test hk)),
    if_neg (test_lt hk).not_gt, if_neg (Bool.eq_false_iff.mp (nonempty_of_test htest))]
  refine ⟨⟨_, rfl, ?_⟩, htest, ?_, ?_⟩
  · intro hunchanged
    exact leave_of_single hk ((Bool.not_eq_false' _).mp hunchanged)
  · intro j hj
    rw [test_leave hk] at hj
    rw [of_decide_eq_true hj]
    exact hk
  · intro j hj
    rw [test_leave hk] at hj
    exact ⟨hnot, (of_decide_eq_true hj).trans hval⟩

end Mask
end Codinalte.Alsa
