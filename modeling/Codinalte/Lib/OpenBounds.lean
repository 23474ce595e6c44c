import Mathlib.Algebra.Order.Field.Basic

/-! Bounds that may be open, on the positive elements of an ordered field: how they go through
products and quotients, and what a rounded bound is still worth. -/

namespace OpenBounds
variable {F : Type*} [LinearOrder F]

def Above (bound : F) (isOpen : Bool) (x : F) : Prop :=
  bound ≤ x ∧ (isOpen = true → bound < x)

def Below (bound : F) (isOpen : Bool) (x : F) : Prop :=
  x ≤ bound ∧ (isOpen = true → x < bound)

variable {a b c d x y : F} {o p : Bool}

theorem Above.of_lt (h : a < x) : Above a o x := ⟨h.le, fun _ => h⟩

theorem Below.of_lt (h : x < a) : Below a o x := ⟨h.le, fun _ => h⟩

theorem Above.closed (h : a ≤ x) : Above a false x := ⟨h, nofun⟩

theorem Below.closed (h : x ≤ a) : Below a false x := ⟨h, nofun⟩

/-- A bound that was rounded away from the value, with the mark of what it has lost. -/
theorem Above.round {lost : Bool} (h : Above a o x) (hle : b ≤ a) (hlost : lost = true → b < a) :
    Above b (lost || o) x := by
  refine ⟨hle.trans h.1, ?_⟩
  intro hopen
  rcases Bool.or_eq_true _ _ ▸ hopen with hl | ho
  · exact (hlost hl).trans_le h.1
  · exact hle.trans_lt (h.2 ho)

theorem Above.mono (h : Above a o x) (hle : b ≤ a) : Above b o x :=
  ⟨hle.trans h.1, fun ho => hle.trans_lt (h.2 ho)⟩

theorem Below.round (h : Below a o x) (hlt : a < b) : Below b true x :=
  Below.of_lt (h.1.trans_lt hlt)

variable [Field F] [IsStrictOrderedRing F]

theorem Above.mul (hx : Above a o x) (hy : Above b p y) (ha : 0 ≤ a) (hxpos : 0 < x)
    (hypos : 0 < y) : Above (a * b) (o || p) (x * y) := by
  have hle : a * b ≤ a * y := mul_le_mul_of_nonneg_left hy.1 ha
  refine ⟨hle.trans (mul_le_mul_of_nonneg_right hx.1 hypos.le), ?_⟩
  intro hopen
  rcases Bool.or_eq_true _ _ ▸ hopen with ho | hp
  · exact hle.trans_lt (mul_lt_mul_of_pos_right (hx.2 ho) hypos)
  · rcases ha.lt_or_eq with hapos | hzero
    · exact (mul_lt_mul_of_pos_left (hy.2 hp) hapos).trans_le
        (mul_le_mul_of_nonneg_right hx.1 hypos.le)
    · rw [← hzero, zero_mul]
      exact mul_pos hxpos hypos

theorem Below.mul (hx : Below a o x) (hy : Below b p y) (hxpos : 0 < x) (hypos : 0 < y) :
    Below (a * b) (o || p) (x * y) := by
  have hle : x * y ≤ a * y := mul_le_mul_of_nonneg_right hx.1 hypos.le
  have ha : 0 < a := hxpos.trans_le hx.1
  refine ⟨hle.trans (mul_le_mul_of_nonneg_left hy.1 ha.le), ?_⟩
  intro hopen
  rcases Bool.or_eq_true _ _ ▸ hopen with ho | hp
  · exact (mul_lt_mul_of_pos_right (hx.2 ho) hypos).trans_le
      (mul_le_mul_of_nonneg_left hy.1 ha.le)
  · exact hle.trans_lt (mul_lt_mul_of_pos_left (hy.2 hp) ha)

theorem Below.inv (hy : Below b p y) (hypos : 0 < y) : Above b⁻¹ p y⁻¹ :=
  ⟨inv_anti₀ hypos hy.1, fun hp => inv_strictAnti₀ hypos (hy.2 hp)⟩

theorem Above.inv (hy : Above b p y) (hb : 0 < b) : Below b⁻¹ p y⁻¹ :=
  ⟨inv_anti₀ hb hy.1, fun hp => inv_strictAnti₀ hb (hy.2 hp)⟩

theorem Above.div (hx : Above a o x) (hy : Below b p y) (ha : 0 ≤ a) (hxpos : 0 < x)
    (hypos : 0 < y) : Above (a / b) (o || p) (x / y) := by
  rw [div_eq_mul_inv, div_eq_mul_inv]
  exact hx.mul (hy.inv hypos) ha hxpos (inv_pos.mpr hypos)

theorem Below.div (hx : Below a o x) (hy : Above b p y) (hb : 0 < b) (hxpos : 0 < x)
    (hypos : 0 < y) : Below (a / b) (o || p) (x / y) := by
  rw [div_eq_mul_inv, div_eq_mul_inv]
  exact hx.mul (hy.inv hb) hxpos (inv_pos.mpr hypos)

theorem Above.scale (hx : Above a o x) (hc : 0 < c) : Above (a * c) o (x * c) :=
  ⟨mul_le_mul_of_nonneg_right hx.1 hc.le, fun ho => mul_lt_mul_of_pos_right (hx.2 ho) hc⟩

theorem Below.scale (hx : Below a o x) (hc : 0 < c) : Below (a * c) o (x * c) :=
  ⟨mul_le_mul_of_nonneg_right hx.1 hc.le, fun ho => mul_lt_mul_of_pos_right (hx.2 ho) hc⟩

/-- A whole number beyond an open bound is as far as the next one. -/
theorem Above.succ {m n : ℕ} (h : Above (m : F) true (n : F)) :
    Above ((m + 1 : ℕ) : F) false (n : F) := by
  have hlt : m < n := Nat.cast_lt.mp (h.2 rfl)
  exact .closed (Nat.cast_le.mpr hlt)

theorem Below.pred {m n : ℕ} (h : Below (m : F) true (n : F)) :
    0 < m ∧ Below ((m - 1 : ℕ) : F) false (n : F) := by
  have hlt : n < m := Nat.cast_lt.mp (h.2 rfl)
  exact ⟨Nat.zero_lt_of_lt hlt, .closed (Nat.cast_le.mpr (Nat.le_pred_of_lt hlt))⟩

end OpenBounds
