import Mathlib.Data.List.Count
import Mathlib.Data.List.Perm.Subperm
import Mathlib.Tactic.SplitIfs

/-! The balance of a history: how often a key was taken up, less how often it was given back. -/

namespace Codinalte.Balance
variable {α K : Type*} [DecidableEq K] {take give : α → Option K} {log : List α} {a : α} {k : K}

def balance (take give : α → Option K) (k : K) (log : List α) : Int :=
  (log.filterMap take).count k - (log.filterMap give).count k

/-- The balance over all keys. -/
def total (take give : α → Option K) (log : List α) : Int :=
  (log.filterMap take).length - (log.filterMap give).length

@[simp] theorem balance_nil : balance take give k [] = 0 := rfl

omit [DecidableEq K] in
@[simp] theorem total_nil : total take give [] = 0 := rfl

theorem count_filterMap_snoc : ((log ++ [a]).filterMap take).count k =
    (log.filterMap take).count k + if take a = some k then 1 else 0 := by
  rw [List.filterMap_append, List.count_append]
  cases htake : take a with
  | none => simp [htake]
  | some j => simp [htake, List.count_singleton]

theorem balance_snoc : balance take give k (log ++ [a]) =
    balance take give k log + (if take a = some k then 1 else 0) -
      if give a = some k then 1 else 0 := by
  unfold balance
  rw [count_filterMap_snoc, count_filterMap_snoc]
  split_ifs <;> omega

omit [DecidableEq K] in
theorem length_filterMap_snoc : ((log ++ [a]).filterMap take).length =
    (log.filterMap take).length + if (take a).isSome then 1 else 0 := by
  rw [List.filterMap_append, List.length_append]
  cases htake : take a with
  | none => simp [htake]
  | some j => simp [htake]

omit [DecidableEq K] in
theorem total_snoc : total take give (log ++ [a]) =
    total take give log + (if (take a).isSome then 1 else 0) -
      if (give a).isSome then 1 else 0 := by
  unfold total
  rw [length_filterMap_snoc, length_filterMap_snoc]
  split_ifs <;> omega

/-- Where no key was given back more often than taken up, one key has no more than all. -/
theorem balance_le_total (h : ∀ j, 0 ≤ balance take give j log) (k : K) :
    balance take give k log ≤ total take give log := by
  have hcount : ∀ j ∈ log.filterMap give,
      (log.filterMap give).count j ≤ (log.filterMap take).count j := by
    intro j _
    have hj := h j
    unfold balance at hj
    omega
  have hperm := List.subperm_append_diff_self_of_count_le hcount
  have hkey := hperm.count_eq k
  have hlength := hperm.length_eq
  have hrest := List.count_le_length (a := k)
    (l := (log.filterMap take).diff (log.filterMap give))
  rw [List.count_append] at hkey
  rw [List.length_append] at hlength
  unfold balance total
  omega

end Codinalte.Balance
