import Codinalte.Lib.Bits

/-! The lock word of a pmem buffer: two flags and a count of 30 bits. -/

namespace Codinalte.Gralloc
open Codinalte.Bits

def lockStateWrite : BitVec 32 := 1#32 <<< 31
def lockStateMapped : BitVec 32 := 1#32 <<< 30
def lockStateReadMask : BitVec 32 := 0x3FFFFFFF#32

def lockedForWrite (value : BitVec 32) : Bool := value &&& lockStateWrite != 0
def isMapped (value : BitVec 32) : Bool := value &&& lockStateMapped != 0
def readCount (value : BitVec 32) : Nat := (value &&& lockStateReadMask).toNat

section Words
variable {x y : BitVec 32} {w m : Bool} {c : Nat}

theorem bit_eq (x : BitVec 32) (i : Nat) : x.getLsbD i = decide (x.toNat / 2 ^ i % 2 = 1) :=
  Nat.testBit_eq_decide_div_mod_eq

theorem locked_for_write_eq (x : BitVec 32) : lockedForWrite x = x.getLsbD 31 := by
  rw [Bool.eq_iff_iff, lockedForWrite, bne_iff_ne, ne_eq, lockStateWrite,
    and_bit_eq_zero (by decide), Bool.not_eq_false]

theorem is_mapped_eq (x : BitVec 32) : isMapped x = x.getLsbD 30 := by
  rw [Bool.eq_iff_iff, isMapped, bne_iff_ne, ne_eq, lockStateMapped,
    and_bit_eq_zero (by decide), Bool.not_eq_false]

theorem read_count_eq (x : BitVec 32) : readCount x = x.toNat % 2 ^ 30 := by
  rw [readCount, BitVec.toNat_and]
  exact Nat.and_two_pow_sub_one_eq_mod x.toNat 30

/-- The three parts of the word. -/
structure Word (x : BitVec 32) (w m : Bool) (c : Nat) : Prop where
  write : lockedForWrite x = w
  mapped : isMapped x = m
  count : readCount x = c

theorem word_iff : Word x w m c ↔
    c < 2 ^ 30 ∧ x.toNat = c + (if m then 2 ^ 30 else 0) + (if w then 2 ^ 31 else 0) := by
  have hx := x.isLt
  have hwrite : lockedForWrite x = decide (x.toNat / 2 ^ 31 % 2 = 1) := by
    rw [locked_for_write_eq, bit_eq]
  have hmapped : isMapped x = decide (x.toNat / 2 ^ 30 % 2 = 1) := by
    rw [is_mapped_eq, bit_eq]
  have hcount := read_count_eq x
  constructor
  · rintro ⟨rfl, rfl, rfl⟩
    rw [hwrite, hmapped, hcount]
    simp only [decide_eq_true_eq]
    refine ⟨Nat.mod_lt _ (by decide), ?_⟩
    split <;> split <;> omega
  · rintro ⟨hc, hsum⟩
    refine ⟨?_, ?_, ?_⟩
    · rw [hwrite]
      cases w <;> cases m <;> simp only [decide_eq_true_eq, decide_eq_false_iff_not] <;>
        simp only [Bool.false_eq_true, if_true, if_false] at hsum <;> omega
    · rw [hmapped]
      cases w <;> cases m <;> simp only [decide_eq_true_eq, decide_eq_false_iff_not] <;>
        simp only [Bool.false_eq_true, if_true, if_false] at hsum <;> omega
    · rw [hcount]
      cases w <;> cases m <;>
        simp only [Bool.false_eq_true, if_true, if_false] at hsum <;> omega

theorem Word.lt (h : Word x w m c) : c < 2 ^ 30 := (word_iff.mp h).1

theorem Word.unique (hx : Word x w m c) (hy : Word y w m c) : x = y := by
  apply BitVec.eq_of_toNat_eq
  rw [(word_iff.mp hx).2, (word_iff.mp hy).2]

theorem Word.add_one (h : Word x w m c) (hc : c + 1 < 2 ^ 30) : Word (x + 1) w m (c + 1) := by
  obtain ⟨-, hsum⟩ := word_iff.mp h
  refine word_iff.mpr ⟨hc, ?_⟩
  have hone : (x + 1).toNat = x.toNat + 1 := by
    have hsmall : x.toNat + 1 < 2 ^ 32 := by
      cases w <;> cases m <;>
        simp only [Bool.false_eq_true, if_true, if_false] at hsum <;> omega
    rw [BitVec.toNat_add]
    exact Nat.mod_eq_of_lt hsmall
  omega

theorem Word.sub_one (h : Word x w m (c + 1)) : Word (x - 1) w m c := by
  obtain ⟨hc, hsum⟩ := word_iff.mp h
  refine word_iff.mpr ⟨Nat.lt_of_succ_lt hc, ?_⟩
  have hone : (x - 1).toNat = x.toNat - 1 := BitVec.toNat_sub_of_le (BitVec.le_def.mpr (by
    have hval : (1 : BitVec 32).toNat = 1 := by decide
    omega))
  omega

theorem Word.set_write (h : Word x false m c) : Word (x ||| lockStateWrite) true m c := by
  obtain ⟨hc, hsum⟩ := word_iff.mp h
  have hset : (x ||| lockStateWrite).toNat = x.toNat + 2 ^ 31 := by
    apply toNat_set_bit (by decide)
    rw [← locked_for_write_eq]
    exact h.write
  exact word_iff.mpr ⟨hc, by rw [hset, hsum]; rfl⟩

theorem Word.clear_write (h : Word x true m c) : Word (x &&& ~~~lockStateWrite) false m c := by
  obtain ⟨hc, hsum⟩ := word_iff.mp h
  have hclear : (x &&& ~~~lockStateWrite).toNat + 2 ^ 31 = x.toNat := by
    apply toNat_clear_bit (by decide)
    rw [← locked_for_write_eq]
    exact h.write
  refine word_iff.mpr ⟨hc, ?_⟩
  simp only [if_true] at hsum
  simp only [Bool.false_eq_true, if_false]
  omega

theorem Word.set_mapped (h : Word x w m c) : Word (x ||| lockStateMapped) w true c := by
  obtain ⟨hc, hsum⟩ := word_iff.mp h
  cases m with
  | false =>
    have hset : (x ||| lockStateMapped).toNat = x.toNat + 2 ^ 30 := by
      apply toNat_set_bit (by decide)
      rw [← is_mapped_eq]
      exact h.mapped
    refine word_iff.mpr ⟨hc, ?_⟩
    simp only [Bool.false_eq_true, if_false] at hsum
    simp only [if_true]
    omega
  | true =>
    have hkeep : x ||| lockStateMapped = x := by
      apply BitVec.eq_of_getLsbD_eq
      intro j hj
      rw [Bool.eq_iff_iff, lockStateMapped, set_bit (by decide)]
      constructor
      · rintro (hbit | rfl)
        · exact hbit
        · rw [← is_mapped_eq]
          exact h.mapped
      · exact Or.inl
    rw [hkeep]
    exact h

end Words

end Codinalte.Gralloc
