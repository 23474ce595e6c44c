import Mathlib.Data.List.Basic
import Mathlib.Data.Option.Basic

/-! Big-endian fields of a block of bytes that is mapped into an address space of 32 bits: an offset
is reduced to a word before the byte is read. -/

namespace Codinalte.BigEndian

/-- At most half of the address space is mapped. -/
structure Block where
  bytes : List UInt8
  size_le : bytes.length ≤ 2147483648

/-- `none` is a read outside the block. -/
def Block.byte? (b : Block) (off : Nat) : Option UInt8 := b.bytes[off % 4294967296]?

def Block.load? (b : Block) (off : Nat) : Nat → Option Nat
  | 0 => some 0
  | n + 1 => do
    let hi ← b.load? off n
    let lo ← b.byte? (off + n)
    return 256 * hi + lo.toNat

/-- The bytes of the block with zeros behind them. -/
def Block.byte (b : Block) (off : Nat) : UInt8 := (b.byte? off).getD 0

def Block.load (b : Block) (off : Nat) : Nat → Nat
  | 0 => 0
  | n + 1 => 256 * b.load off n + (b.byte (off + n)).toNat

/-- The block has the `n` bytes from the offset on. -/
def Inside (b : Block) (off n : Nat) : Prop := off % 4294967296 + n ≤ b.bytes.length

instance (b : Block) (off n : Nat) : Decidable (Inside b off n) :=
  inferInstanceAs (Decidable (_ ≤ _))

section
variable {b : Block} {off n k m : Nat}

theorem byte?_eq_some {x : UInt8} : b.byte? off = some x ↔ Inside b off 1 ∧ b.byte off = x := by
  unfold Block.byte Block.byte? Inside
  constructor
  · intro h
    obtain ⟨hlt, -⟩ := List.getElem?_eq_some_iff.mp h
    exact ⟨hlt, by rw [h]; rfl⟩
  · rintro ⟨hlt, h⟩
    rw [List.getElem?_eq_getElem hlt] at h ⊢
    exact congrArg some h

theorem Inside.part (h : Inside b off n) (hkm : k + m ≤ n) : Inside b (off + k) m := by
  have hsize := b.size_le
  unfold Inside at *
  omega

theorem Inside.front (h : Inside b off n) (hmn : m ≤ n) : Inside b off m :=
  Nat.le_trans (Nat.add_le_add_left hmn _) h

/-- The last byte of a field does not wrap when the first one is in the block. -/
theorem Inside.join (hfirst : Inside b off 1) (hlast : Inside b (off + k) m)
    (hk : k ≤ 2147483648) : Inside b off (k + m) := by
  have hsize := b.size_le
  unfold Inside at *
  omega

theorem load?_succ_eq_some {x : Nat} :
    b.load? off (n + 1) = some x ↔
      ∃ hi, b.load? off n = some hi ∧ Inside b (off + n) 1 ∧
        256 * hi + (b.byte (off + n)).toNat = x := by
  rw [Block.load?]
  simp only [Option.bind_eq_bind, Option.bind_eq_some_iff, byte?_eq_some, Option.some_inj,
    Option.pure_def]
  constructor
  · rintro ⟨hi, hhi, lo, ⟨hlo, rfl⟩, hx⟩
    exact ⟨hi, hhi, hlo, hx⟩
  · rintro ⟨hi, hhi, hlo, hx⟩
    exact ⟨hi, hhi, _, ⟨hlo, rfl⟩, hx⟩

theorem load?_eq_some (hpos : 0 < n) (hn : n ≤ 2147483648) {x : Nat} :
    b.load? off n = some x ↔ Inside b off n ∧ b.load off n = x := by
  induction n generalizing x with
  | zero => cases hpos
  | succ n ih =>
    rw [load?_succ_eq_some]
    rcases Nat.eq_zero_or_pos n with rfl | hpos
    · simp only [Block.load?, Option.some_inj, exists_eq_left']
      rfl
    · simp only [ih hpos (Nat.le_of_succ_le hn)]
      constructor
      · rintro ⟨hi, ⟨hinside, rfl⟩, hlast, hx⟩
        exact ⟨(hinside.front hpos).join hlast (Nat.le_of_succ_le hn), hx⟩
      · rintro ⟨hinside, hx⟩
        exact ⟨_, ⟨hinside.front (Nat.le_succ n), rfl⟩, hinside.part (Nat.le_refl _), hx⟩

end

end Codinalte.BigEndian
