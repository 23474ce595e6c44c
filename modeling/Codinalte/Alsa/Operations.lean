import Mathlib.Data.Nat.Cast.Order.Field
import Codinalte.Alsa.Enclosure

/-! The operations of the rules on intervals: each has among its values what it makes of values of
its operands, as long as that is positive and below `UINT_MAX`. -/

namespace Codinalte.Alsa
open OpenBounds

theorem mulSaturated_eq (a b : Nat) : mulSaturated a b = min (a * b) UINT_MAX := by
  rw [mulSaturated]
  split
  · next hzero =>
    subst hzero
    rw [Nat.zero_mul, Nat.zero_min]
  · next hpos =>
    rw [divDown, if_neg hpos]
    have hdiv := Nat.div_lt_iff_lt_mul (Nat.pos_of_ne_zero hpos) (x := UINT_MAX) (y := b)
    rw [Nat.mul_comm] at hdiv
    split
    · next hlt => exact (Nat.min_eq_right (hdiv.mp hlt).le).symm
    · next hnot => exact (Nat.min_eq_left (not_lt.mp (fun h => hnot (hdiv.mpr h)))).symm

section Rounding
variable {a b c k : Nat} {o : Bool} {v : ℚ} {r : Nat × Nat}

theorem div_le_cast : ((a / c : Nat) : ℚ) ≤ (a : ℚ) / c := Nat.cast_div_le

theorem cast_lt_of_mod (hr : a % c ≠ 0) (hc : 0 < c) : ((a / c : Nat) : ℚ) < (a : ℚ) / c := by
  rw [lt_div_iff₀ (Nat.cast_pos.mpr hc), ← Nat.cast_mul, Nat.cast_lt]
  have hdiv := Nat.div_add_mod' a c
  omega

theorem cast_of_mod_zero (hr : a % c = 0) (hc : 0 < c) : (a : ℚ) / c = ((a / c : Nat) : ℚ) := by
  rw [div_eq_iff (Nat.cast_pos.mpr hc).ne', ← Nat.cast_mul, Nat.cast_inj,
    Nat.div_mul_cancel (Nat.dvd_of_mod_eq_zero hr)]

theorem cast_lt_succ (hc : 0 < c) : (a : ℚ) / c < ((a / c + 1 : Nat) : ℚ) := by
  rw [div_lt_iff₀ (Nat.cast_pos.mpr hc), ← Nat.cast_mul, Nat.cast_lt, Nat.mul_comm]
  exact Nat.lt_mul_div_succ a hc

/-- The quotient with the remainder, and the saturated one. -/
theorem muldiv32_cases (hc : 0 < c) (h : muldiv32 a b c = .ok r) :
    (UINT_MAX ≤ a * b / c ∧ r = (UINT_MAX, 0)) ∨
      (a * b / c < UINT_MAX ∧ r = (a * b / c, a * b % c)) := by
  rw [muldiv32, if_neg hc.ne'] at h
  split at h
  · next hle => exact .inl ⟨hle, (Except.ok.inj h).symm⟩
  · next hlt => exact .inr ⟨not_le.mp hlt, (Except.ok.inj h).symm⟩

theorem muldiv32_ok (a b : Nat) (hc : 0 < c) : ∃ r, muldiv32 a b c = .ok r := by
  rw [muldiv32, if_neg hc.ne']
  split <;> exact ⟨_, rfl⟩

theorem muldiv32_above (hc : 0 < c) (h : muldiv32 a b c = .ok r)
    (hv : Above ((a : ℚ) * b / c) o v) : Above (r.1 : ℚ) (decide (r.2 ≠ 0) || o) v := by
  have hle : ((a * b / c : Nat) : ℚ) ≤ (a : ℚ) * b / c := by
    have hfloor := div_le_cast (a := a * b) (c := c)
    rwa [Nat.cast_mul] at hfloor
  rcases muldiv32_cases hc h with ⟨hsat, rfl⟩ | ⟨-, rfl⟩
  · have hmax : (UINT_MAX : ℚ) ≤ (a : ℚ) * b / c := (Nat.cast_le.mpr hsat).trans hle
    exact hv.round hmax (fun h => absurd rfl (of_decide_eq_true h))
  · refine hv.round hle ?_
    intro hlost
    have hlt := cast_lt_of_mod (of_decide_eq_true hlost) hc
    rwa [Nat.cast_mul] at hlt

/-- The quotient is short of `UINT_MAX` where there is anything to round. -/
theorem roundUp_below (hq : a % c ≠ 0 → a / c < UINT_MAX) (hc : 0 < c)
    (hv : Below ((a : ℚ) / c) o v) :
    Below ((Interval.roundUp (a / c, a % c) o).1 : ℚ) (Interval.roundUp (a / c, a % c) o).2 v := by
  rw [Interval.roundUp]
  split
  · next hr =>
    have hsucc : increment (a / c) = a / c + 1 := if_neg (hq hr).ne
    simp only [hsucc]
    exact hv.round (cast_lt_succ hc)
  · next hr =>
    rw [cast_of_mod_zero (not_not.mp hr) hc] at hv
    exact hv

theorem roundUp_word (hq : a % c ≠ 0 → a / c < UINT_MAX) (hle : a / c ≤ UINT_MAX) :
    (Interval.roundUp (a / c, a % c) o).1 ≤ UINT_MAX := by
  rw [Interval.roundUp]
  split
  · next hr =>
    have hsucc : increment (a / c) = a / c + 1 := if_neg (hq hr).ne
    simp only [hsucc]
    exact hq hr
  · exact hle

theorem muldiv32_below (hv : Representable v) (hc : 0 < c) (h : muldiv32 a b c = .ok r)
    (hbelow : Below ((a : ℚ) * b / c) o v) :
    (Interval.roundUp r o).1 ≤ UINT_MAX ∧
      Below ((Interval.roundUp r o).1 : ℚ) (Interval.roundUp r o).2 v := by
  rcases muldiv32_cases hc h with ⟨-, rfl⟩ | ⟨hlt, rfl⟩
  · exact ⟨le_rfl, .of_lt hv.lt⟩
  · rw [← Nat.cast_mul] at hbelow
    exact ⟨roundUp_word (fun _ => hlt) hlt.le, roundUp_below (fun _ => hlt) hc hbelow⟩

/-- Dividing a word leaves a remainder only where the quotient is smaller. -/
theorem div_lt_of_mod (ha : a ≤ UINT_MAX) (hr : a % c ≠ 0) : a / c < UINT_MAX := by
  have hc : c ≠ 1 := by
    rintro rfl
    exact hr (Nat.mod_one a)
  have hpos : 0 < a := by
    refine Nat.pos_of_ne_zero ?_
    rintro rfl
    exact hr (Nat.zero_mod c)
  rcases Nat.eq_zero_or_pos c with rfl | hcpos
  · rw [Nat.div_zero]
    exact hpos.trans_le ha
  · exact (Nat.div_lt_self hpos (by omega)).trans_le ha

end Rounding

namespace Interval
variable {a b : Interval} {x y : ℚ} {k : Nat}

theorem operands_nonempty (ha : a.Contains x) (hb : b.Contains y) :
    (a.empty || b.empty) = false := by
  rw [ha.nonempty, hb.nonempty, Bool.false_or]

theorem Contains.max_pos (ha : a.Contains x) (hx : 0 < x) : 0 < a.max :=
  Nat.cast_pos.mp (hx.trans_le ha.below.1)

theorem mul_contains (hx : Representable x) (hy : Representable y)
    (hxy : Representable (x * y)) (ha : a.Contains x) (hb : b.Contains y) :
    ∃ t, mul a b = .ok t ∧ t.Contains (x * y) := by
  refine ⟨_, if_neg (Bool.eq_false_iff.mp (operands_nonempty ha hb)), rfl, ?_, ?_, ?_, ?_⟩
  · show mulSaturated a.max b.max ≤ UINT_MAX
    rw [mulSaturated_eq]
    exact Nat.min_le_right _ _
  · have habove := ha.above.mul hb.above a.min.cast_nonneg hx.pos hy.pos
    show Above ((mulSaturated a.min b.min : Nat) : ℚ) (a.openmin || b.openmin) (x * y)
    rw [← Nat.cast_mul] at habove
    rw [mulSaturated_eq]
    exact habove.mono (Nat.cast_le.mpr (Nat.min_le_left _ _))
  · have hbelow := ha.below.mul hb.below hx.pos hy.pos
    show Below ((mulSaturated a.max b.max : Nat) : ℚ) (a.openmax || b.openmax) (x * y)
    rw [mulSaturated_eq]
    rcases le_total (a.max * b.max) UINT_MAX with hle | hle
    · rw [Nat.min_eq_left hle, Nat.cast_mul]
      exact hbelow
    · rw [Nat.min_eq_right hle]
      exact .of_lt hxy.lt
  · intro hint
    obtain ⟨hinta, hintb⟩ := Bool.and_eq_true_iff.mp hint
    obtain ⟨m, rfl⟩ := ha.whole hinta
    obtain ⟨n, rfl⟩ := hb.whole hintb
    exact ⟨m * n, (Nat.cast_mul m n).symm⟩

theorem div_contains (hx : Representable x) (hy : Representable y) (hxy : Representable (x / y))
    (ha : a.Contains x) (hb : b.Contains y) : ∃ t, div a b = .ok t ∧ t.Contains (x / y) := by
  have hmax := hb.max_pos hy.pos
  have hlow : div32 a.min b.max = (a.min / b.max, a.min % b.max) := if_neg hmax.ne'
  have habove := ha.above.div hb.below a.min.cast_nonneg hx.pos hy.pos
  rw [div, if_neg (Bool.eq_false_iff.mp (operands_nonempty ha hb))]
  simp only [hlow]
  refine ⟨_, rfl, rfl, ?_, ?_, ?_, fun h => nomatch h⟩
  · by_cases hmin : 0 < b.min
    · have hhigh : div32 a.max b.min = (a.max / b.min, a.max % b.min) := if_neg hmin.ne'
      simp only [if_pos hmin, hhigh]
      exact roundUp_word (div_lt_of_mod ha.word) ((Nat.div_le_self _ _).trans ha.word)
    · simp only [if_neg hmin]
      exact le_rfl
  · exact habove.round div_le_cast fun h => cast_lt_of_mod (of_decide_eq_true h) hmax
  · by_cases hmin : 0 < b.min
    · have hhigh : div32 a.max b.min = (a.max / b.min, a.max % b.min) := if_neg hmin.ne'
      have hbelow := ha.below.div hb.above (Nat.cast_pos.mpr hmin) hx.pos hy.pos
      simp only [if_pos hmin, hhigh]
      exact roundUp_below (div_lt_of_mod ha.word) hmin hbelow
    · simp only [if_neg hmin]
      exact .of_lt hxy.lt

theorem muldivk_contains (hk : 0 < k) (hx : Representable x) (hy : Representable y)
    (hxy : Representable (x * y / k)) (ha : a.Contains x) (hb : b.Contains y) :
    ∃ t, muldivk a b k = .ok t ∧ t.Contains (x * y / k) := by
  have hscale : (0 : ℚ) < (k : ℚ)⁻¹ := inv_pos.mpr (Nat.cast_pos.mpr hk)
  obtain ⟨low, hlow⟩ := muldiv32_ok a.min b.min hk
  obtain ⟨high, hhigh⟩ := muldiv32_ok a.max b.max hk
  have habove := (ha.above.mul hb.above a.min.cast_nonneg hx.pos hy.pos).scale hscale
  have hbelow := (ha.below.mul hb.below hx.pos hy.pos).scale hscale
  rw [← div_eq_mul_inv, ← div_eq_mul_inv] at habove hbelow
  obtain ⟨hword, hmax⟩ := muldiv32_below hxy hk hhigh hbelow
  rw [muldivk, if_neg (Bool.eq_false_iff.mp (operands_nonempty ha hb)), hlow, hhigh]
  exact ⟨_, rfl, rfl, hword, muldiv32_above hk hlow habove, hmax, fun h => nomatch h⟩

theorem mulkdiv_contains (hk : 0 < k) (hx : Representable x) (hy : Representable y)
    (hxy : Representable (x * k / y)) (ha : a.Contains x) (hb : b.Contains y) :
    ∃ t, mulkdiv a k b = .ok t ∧ t.Contains (x * k / y) := by
  have hscale : (0 : ℚ) < (k : ℚ) := Nat.cast_pos.mpr hk
  have hxk : 0 < x * k := mul_pos hx.pos hscale
  obtain ⟨low, hlow⟩ := muldiv32_ok a.min k (hb.max_pos hy.pos)
  have hnonneg : (0 : ℚ) ≤ (a.min : ℚ) * k := mul_nonneg a.min.cast_nonneg hscale.le
  have habove := (ha.above.scale hscale).div hb.below hnonneg hxk hy.pos
  simp only [mulkdiv, operands_nonempty ha hb, Bool.false_eq_true, if_false, hlow]
  by_cases hmin : 0 < b.min
  · obtain ⟨high, hhigh⟩ := muldiv32_ok a.max k hmin
    have hbelow := (ha.below.scale hscale).div hb.above (Nat.cast_pos.mpr hmin) hxk hy.pos
    obtain ⟨hword, hmax⟩ := muldiv32_below hxy hmin hhigh hbelow
    rw [if_pos hmin, hhigh]
    exact ⟨_, rfl, rfl, hword, muldiv32_above (hb.max_pos hy.pos) hlow habove, hmax,
      fun h => nomatch h⟩
  · rw [if_neg hmin]
    exact ⟨_, rfl, rfl, le_rfl, muldiv32_above (hb.max_pos hy.pos) hlow habove, .of_lt hxy.lt,
      fun h => nomatch h⟩

end Interval
end Codinalte.Alsa
