import Mathlib.Data.Fintype.Basic
import Mathlib.Algebra.BigOperators.Group.Finset.Piecewise

/-! How many members of a finite family are in a state of interest, and how the number moves
when one member changes its state. -/

namespace Codinalte.Count
open Finset
variable {I S : Type*} [Fintype I]

def countIf (P : I → S → Prop) [∀ i s, Decidable (P i s)] (f : I → S) : ℕ :=
  #{i | P i (f i)}

variable {P : I → S → Prop} [∀ i s, Decidable (P i s)] {f : I → S} {i : I} {s : S}

theorem count_pos (h : P i (f i)) : 0 < countIf P f := by
  apply card_pos.mpr
  exact ⟨i, mem_filter.mpr ⟨mem_univ i, h⟩⟩

theorem exists_of_count_pos (h : 0 < countIf P f) : ∃ i, P i (f i) := by
  obtain ⟨i, hi⟩ := card_pos.mp h
  exact ⟨i, (mem_filter.mp hi).2⟩

variable [DecidableEq I]

theorem count_update (P : I → S → Prop) [∀ i s, Decidable (P i s)] (f : I → S) (i : I) (s : S) :
    countIf P (Function.update f i s) + (if P i (f i) then 1 else 0) =
      countIf P f + if P i s then 1 else 0 := by
  have hsplit : ∀ g : I → S, countIf P g =
      (if P i (g i) then 1 else 0) + ∑ j ∈ univ.erase i, if P j (g j) then 1 else 0 := by
    intro g
    rw [countIf, card_filter]
    exact (add_sum_erase univ (fun j => if P j (g j) then 1 else 0) (mem_univ i)).symm
  have hrest : ∑ j ∈ univ.erase i, (if P j (Function.update f i s j) then 1 else 0) =
      ∑ j ∈ univ.erase i, if P j (f j) then 1 else 0 := by
    apply sum_congr rfl
    intro j hj
    rw [Function.update_of_ne (ne_of_mem_erase hj)]
  rw [hsplit (Function.update f i s), hsplit f, hrest, Function.update_self]
  omega

theorem count_update_keep (h : P i s ↔ P i (f i)) :
    countIf P (Function.update f i s) = countIf P f := by
  have hmove := count_update P f i s
  rw [if_congr h rfl rfl] at hmove
  exact Nat.add_right_cancel hmove

theorem count_update_enter (hold : ¬ P i (f i)) (hnew : P i s) :
    countIf P (Function.update f i s) = countIf P f + 1 := by
  have hmove := count_update P f i s
  rwa [if_neg hold, if_pos hnew] at hmove

theorem count_update_leave (hold : P i (f i)) (hnew : ¬ P i s) :
    countIf P (Function.update f i s) + 1 = countIf P f := by
  have hmove := count_update P f i s
  rwa [if_pos hold, if_neg hnew] at hmove

end Codinalte.Count
