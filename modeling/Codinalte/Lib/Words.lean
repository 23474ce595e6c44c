import Mathlib.Data.Int.Init

/-! Arithmetic on words of 32 bits: the values of a signed and of an unsigned word, and when a
result is not reduced. -/

namespace Codinalte.Words

def int32 (x : Int) : Int := x.bmod 4294967296

def uint32 (x : Int) : Int := x % 4294967296

theorem int32_spec (x : Int) :
    -2147483648 ≤ int32 x ∧ int32 x < 2147483648 ∧ (int32 x - x) % 4294967296 = 0 := by
  unfold int32
  refine ⟨?_, ?_, ?_⟩
  · have hle := Int.le_bmod (x := x) (m := 4294967296) (by decide)
    omega
  · have hlt := Int.bmod_lt (x := x) (m := 4294967296) (by decide)
    omega
  · rw [Int.bmod_def]
    split <;> omega

theorem int32_of_range {x : Int} (hle : -2147483648 ≤ x) (hlt : x < 2147483648) : int32 x = x := by
  obtain ⟨hle', hlt', hmod⟩ := int32_spec x
  omega

/-- Equal residues are equal words. -/
theorem int32_congr {x y : Int} (h : (x - y) % 4294967296 = 0) : int32 x = int32 y := by
  obtain ⟨hlex, hltx, hmodx⟩ := int32_spec x
  obtain ⟨hley, hlty, hmody⟩ := int32_spec y
  omega

theorem int32_sub (x y : Int) : int32 (int32 x - int32 y) = int32 (x - y) := by
  apply int32_congr
  obtain ⟨-, -, hmodx⟩ := int32_spec x
  obtain ⟨-, -, hmody⟩ := int32_spec y
  omega

theorem int32_sub_one (x : Int) : int32 (int32 x - 1) = int32 (x - 1) := by
  apply int32_congr
  obtain ⟨-, -, hmod⟩ := int32_spec x
  omega

theorem int32_add (x y : Int) : int32 (int32 x + y) = int32 (x + y) := by
  apply int32_congr
  obtain ⟨-, -, hmod⟩ := int32_spec x
  omega

theorem uint32_of_range {x : Int} (hle : 0 ≤ x) (hlt : x < 4294967296) : uint32 x = x :=
  Int.emod_eq_of_lt hle hlt

end Codinalte.Words
