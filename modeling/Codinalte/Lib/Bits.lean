import Mathlib.Data.Nat.Init
import Mathlib.Algebra.Group.Nat.Defs

/-! One bit of a machine word: how it is tested, set and cleared, and what that does to the number
that the word stands for. -/

namespace Codinalte.Bits
variable {w : Nat} {x : BitVec w} {i j : Nat}

theorem bit_getLsbD (i j : Nat) :
    (1#w <<< i).getLsbD j = (decide (i < w) && decide (i = j)) := BitVec.getLsbD_twoPow i j

theorem and_bit_eq_zero (hi : i < w) : x &&& (1#w <<< i) = 0 ↔ x.getLsbD i = false := by
  constructor
  · intro h
    have hbit := congrArg (fun m => m.getLsbD i) h
    simpa only [BitVec.getLsbD_and, bit_getLsbD, hi, decide_true, Bool.and_self, Bool.and_true,
      BitVec.ofNat_eq_ofNat, BitVec.getLsbD_zero] using hbit
  · intro h
    apply BitVec.eq_of_getLsbD_eq
    intro j hj
    rw [BitVec.getLsbD_and, bit_getLsbD]
    by_cases hij : i = j
    · subst hij
      simp [h]
    · simp [hij]

theorem set_bit (hi : i < w) :
    (x ||| (1#w <<< i)).getLsbD j = true ↔ x.getLsbD j = true ∨ i = j := by
  rw [BitVec.getLsbD_or, bit_getLsbD]
  simp [hi]

theorem clear_bit (hi : i < w) :
    (x &&& ~~~(1#w <<< i)).getLsbD j = true ↔ x.getLsbD j = true ∧ i ≠ j := by
  rw [BitVec.getLsbD_and, BitVec.getLsbD_not, bit_getLsbD]
  by_cases hj : j < w
  · simp [hi, hj]
  · have hout := BitVec.getLsbD_of_ge x j (Nat.le_of_not_lt hj)
    simp [hout]

theorem toNat_bit (hi : i < w) : (1#w <<< i).toNat = 2 ^ i := by
  have hpow : 2 ^ i < 2 ^ w := Nat.pow_lt_pow_right (by decide) hi
  have htwo : (BitVec.twoPow w i).toNat = 2 ^ i % 2 ^ w := BitVec.toNat_twoPow w i
  rw [Nat.mod_eq_of_lt hpow] at htwo
  exact htwo

theorem toNat_set_bit (hi : i < w) (h : x.getLsbD i = false) :
    (x ||| (1#w <<< i)).toNat = x.toNat + 2 ^ i := by
  have hsum : x ||| (1#w <<< i) = x + (1#w <<< i) :=
    (BitVec.add_eq_or_of_and_eq_zero x _ ((and_bit_eq_zero hi).mpr h)).symm
  have hge : x.toNat ≤ (x ||| (1#w <<< i)).toNat := by
    rw [BitVec.toNat_or]
    exact Nat.left_le_or
  have hpow : 2 ^ i < 2 ^ w := Nat.pow_lt_pow_right (by decide) hi
  have hx := x.isLt
  rw [hsum, BitVec.toNat_add, toNat_bit hi] at hge ⊢
  by_cases hfit : x.toNat + 2 ^ i < 2 ^ w
  · exact Nat.mod_eq_of_lt hfit
  · have hwrap : (x.toNat + 2 ^ i) % 2 ^ w = x.toNat + 2 ^ i - 2 ^ w := by
      rw [Nat.mod_eq_sub_mod (Nat.le_of_not_lt hfit), Nat.mod_eq_of_lt (by omega)]
    omega

theorem toNat_clear_bit (hi : i < w) (h : x.getLsbD i = true) :
    (x &&& ~~~(1#w <<< i)).toNat + 2 ^ i = x.toNat := by
  have hclear : (x &&& ~~~(1#w <<< i)).getLsbD i = false := by
    rw [Bool.eq_false_iff, ne_eq, clear_bit hi]
    exact fun hboth => hboth.2 rfl
  have hback : (x &&& ~~~(1#w <<< i)) ||| (1#w <<< i) = x := by
    apply BitVec.eq_of_getLsbD_eq
    intro j hj
    rw [Bool.eq_iff_iff, set_bit hi, clear_bit hi]
    by_cases hij : i = j
    · subst hij
      simp [h]
    · simp [hij]
  rw [← toNat_set_bit hi hclear, hback]

end Codinalte.Bits
