import Mathlib.Data.List.Basic

/-! Steps that one pass numbers upwards and another, over the reverse, downwards. -/

namespace Codinalte.Numbering
variable {S : Type*}

def numberUp : List S → Nat → List (Nat × S)
  | [], _ => []
  | step :: steps, n => (n + 1, step) :: numberUp steps (n + 1)

def numberDown : List S → Nat → List (Nat × S)
  | [], _ => []
  | step :: steps, n => (n, step) :: numberDown steps (n - 1)

theorem numberUp_append (steps steps' : List S) (n : Nat) :
    numberUp (steps ++ steps') n = numberUp steps n ++ numberUp steps' (n + steps.length) := by
  induction steps generalizing n with
  | nil => rfl
  | cons step steps ih =>
    have hlength : n + (step :: steps).length = n + 1 + steps.length := by
      rw [List.length_cons]
      omega
    rw [hlength, List.cons_append, numberUp, ih]
    rfl

theorem numberDown_append (steps steps' : List S) (n : Nat) :
    numberDown (steps ++ steps') n = numberDown steps n ++ numberDown steps' (n - steps.length) := by
  induction steps generalizing n with
  | nil => rfl
  | cons step steps ih =>
    have hlength : n - (step :: steps).length = n - 1 - steps.length := by
      rw [List.length_cons]
      omega
    rw [hlength, List.cons_append, numberDown, ih]
    rfl

/-- Both passes give a step the same number. -/
theorem numberDown_reverse (steps : List S) (n : Nat) :
    numberDown steps.reverse (n + steps.length) = (numberUp steps n).reverse := by
  induction steps generalizing n with
  | nil => rfl
  | cons step steps ih =>
    have hlength : n + (step :: steps).length = n + 1 + steps.length := by
      rw [List.length_cons]
      omega
    have hlast : n + 1 + steps.length - steps.reverse.length = n + 1 := by
      rw [List.length_reverse]
      omega
    rw [hlength, List.reverse_cons, numberDown_append, ih, hlast, numberUp, List.reverse_cons]
    rfl

theorem lt_of_mem_numberUp {steps : List S} {n : Nat} {p : Nat × S} (h : p ∈ numberUp steps n) :
    n < p.1 := by
  induction steps generalizing n with
  | nil => cases h
  | cons step steps ih =>
    rcases List.mem_cons.mp h with rfl | h
    · exact Nat.lt_succ_self n
    · exact Nat.lt_of_succ_lt (ih h)

theorem numberUp_filter (steps : List S) (n m : Nat) :
    ((numberUp steps n).filter fun p => decide (p.1 ≤ n + m)).map Prod.snd = steps.take m := by
  induction steps generalizing n m with
  | nil => simp [numberUp]
  | cons step steps ih =>
    cases m with
    | zero =>
      have hnone : (numberUp (step :: steps) n).filter (fun p => decide (p.1 ≤ n + 0)) = [] := by
        refine List.filter_eq_nil_iff.mpr ?_
        intro p hp
        have hlt := lt_of_mem_numberUp hp
        simp only [decide_eq_true_eq]
        omega
      rw [hnone]
      rfl
    | succ m =>
      have hshift : n + (m + 1) = n + 1 + m := by omega
      have hhead : decide ((n + 1, step).1 ≤ n + 1 + m) = true :=
        decide_eq_true (Nat.le_add_right _ _)
      rw [hshift, numberUp, List.filter_cons, if_pos hhead, List.map_cons, ih, List.take_succ_cons]

/-- What the pass downwards still does once as many steps were done. -/
theorem numberDown_filter (steps : List S) (m : Nat) :
    ((numberDown steps.reverse steps.length).filter fun p => decide (p.1 ≤ m)).map Prod.snd =
      (steps.take m).reverse := by
  have hdown := numberDown_reverse steps 0
  have hup := numberUp_filter steps 0 m
  rw [Nat.zero_add] at hdown hup
  rw [hdown, List.filter_reverse, List.map_reverse, hup]

end Codinalte.Numbering
