import Codinalte.Lib.Machine
import Mathlib.Data.List.Induction
import Mathlib.Data.List.Nodup

/-! A queue with at most one entry for each key: a new entry takes the place of the queued one of
its key, or the end of the queue. -/

namespace Codinalte.Coalesce
open Codinalte.Machine
variable {E K : Type*} [DecidableEq K] (key : E → K)

def put (e : E) : List E → List E
  | [] => [e]
  | x :: xs => if key x = key e then e :: xs else x :: put e xs

inductive QueueCall (E : Type*) where
  | put (e : E)
  | take (e : E)
  | reset
deriving DecidableEq

/-- Only the first entry is taken, and none from an empty queue. -/
def step [DecidableEq E] : List E → QueueCall E → Option (List E)
  | xs, .put e => some (put key e xs)
  | x :: xs, .take e => if x = e then some xs else none
  | [], .take _ => none
  | _, .reset => some []

/-- The last entry that was put in for a key. -/
def newest (k : K) : List (QueueCall E) → Option E
  | [] => none
  | .put e :: calls => (newest k calls).or (if key e = k then some e else none)
  | _ :: calls => newest k calls

variable {key} {e : E} {xs ys : List E} {calls : List (QueueCall E)}

/-- The queue keeps its order, and a key that is not queued comes last. -/
theorem put_keys : (put key e xs).map key =
    if key e ∈ xs.map key then xs.map key else xs.map key ++ [key e] := by
  induction xs with
  | nil => rfl
  | cons x xs ih =>
    unfold put
    by_cases hx : key x = key e
    · rw [if_pos hx, if_pos (by simp [hx])]
      simp [hx]
    · rw [if_neg hx, List.map_cons, ih, List.map_cons]
      by_cases hmem : key e ∈ xs.map key
      · rw [if_pos hmem, if_pos (List.mem_cons_of_mem _ hmem)]
      · have hall : key e ∉ key x :: xs.map key := by
          rw [List.mem_cons, not_or]
          exact ⟨Ne.symm hx, hmem⟩
        rw [if_neg hmem, if_neg hall]
        rfl

theorem put_nodup (h : (xs.map key).Nodup) : ((put key e xs).map key).Nodup := by
  rw [put_keys]
  split_ifs with hmem
  · exact h
  · rw [List.nodup_append]
    refine ⟨h, List.nodup_singleton _, ?_⟩
    intro k hk k' hk' heq
    rw [List.mem_singleton] at hk'
    exact hmem (hk' ▸ heq ▸ hk)

theorem mem_put (h : (xs.map key).Nodup) {x : E} (hx : x ∈ put key e xs) :
    x = e ∨ (x ∈ xs ∧ key x ≠ key e) := by
  induction xs with
  | nil => exact .inl (List.mem_singleton.mp hx)
  | cons y xs ih =>
    rw [List.map_cons, List.nodup_cons] at h
    unfold put at hx
    split_ifs at hx with hy
    · rcases List.mem_cons.mp hx with rfl | hmem
      · exact .inl rfl
      · refine .inr ⟨List.mem_cons_of_mem _ hmem, ?_⟩
        intro hkey
        exact h.1 (hy.trans hkey.symm ▸ List.mem_map_of_mem hmem)
    · rcases List.mem_cons.mp hx with rfl | hmem
      · exact .inr ⟨List.mem_cons_self .., hy⟩
      · rcases ih h.2 hmem with rfl | ⟨hin, hne⟩
        · exact .inl rfl
        · exact .inr ⟨List.mem_cons_of_mem _ hin, hne⟩

theorem newest_snoc (k : K) (call : QueueCall E) : newest key k (calls ++ [call]) =
    (newest key k [call]).or (newest key k calls) := by
  induction calls with
  | nil => simp [newest]
  | cons c calls ih =>
    cases c with
    | put e => simp only [List.cons_append, newest, ih, Option.or_assoc]
    | take | reset => exact ih

variable [DecidableEq E]

theorem step_reset (xs : List E) : step key xs .reset = some [] := by
  cases xs with
  | nil => rfl
  | cons x xs => rfl

theorem put_count (x : E) : (put key e xs).count x ≤ xs.count x + if e = x then 1 else 0 := by
  induction xs with
  | nil =>
    show [e].count x ≤ _
    rw [List.count_singleton]
    simp
  | cons y xs ih =>
    unfold put
    split_ifs with hy heq heq
    · subst heq
      rw [List.count_cons_self, List.count_cons]
      omega
    · rw [List.count_cons_of_ne heq, List.count_cons]
      omega
    · rw [List.count_cons, List.count_cons]
      rw [if_pos heq] at ih
      omega
    · rw [List.count_cons, List.count_cons]
      rw [if_neg heq] at ih
      omega

theorem step_nodup {call : QueueCall E} (hxs : (xs.map key).Nodup)
    (h : step key xs call = some ys) : (ys.map key).Nodup := by
  cases call with
  | put e =>
    cases h
    exact put_nodup hxs
  | take e =>
    cases xs with
    | nil => cases h
    | cons x xs =>
      obtain ⟨-, heq⟩ := Option.ite_none_right_eq_some.mp h
      cases heq
      exact (List.nodup_cons.mp hxs).2
  | reset =>
    rw [step_reset] at h
    cases h
    exact List.nodup_nil

theorem run_nodup (h : run (step key) [] calls = some xs) : (xs.map key).Nodup :=
  run_induction (P := fun xs => (xs.map key).Nodup) (fun _ _ _ hs hstep => step_nodup hs hstep)
    List.nodup_nil h

theorem run_snoc_eq_some {call : QueueCall E} :
    run (step key) [] (calls ++ [call]) = some ys ↔
      ∃ xs, run (step key) [] calls = some xs ∧ step key xs call = some ys := by
  rw [run_append, Option.bind_eq_some_iff]
  simp

/-- An entry that was put in is queued at most once more than it has been taken. -/
theorem run_count (h : run (step key) [] calls = some xs) (e : E) :
    xs.count e + calls.count (.take e) ≤ calls.count (.put e) := by
  induction calls using List.reverseRecOn generalizing xs with
  | nil =>
    cases h
    simp
  | append_singleton calls call ih =>
    obtain ⟨ys, hrun, hstep⟩ := run_snoc_eq_some.mp h
    have hbefore := ih hrun
    rw [List.count_append, List.count_append, List.count_singleton, List.count_singleton]
    cases call with
    | put e' =>
      cases hstep
      have hput := @put_count E K _ key e' ys _ e
      simp only [beq_iff_eq, QueueCall.put.injEq, reduceCtorEq, if_false]
      omega
    | take e' =>
      cases ys with
      | nil => cases hstep
      | cons y ys =>
        obtain ⟨rfl, heq⟩ := Option.ite_none_right_eq_some.mp hstep
        cases heq
        rw [List.count_cons] at hbefore
        simp only [beq_iff_eq, QueueCall.take.injEq, reduceCtorEq, if_false] at hbefore ⊢
        omega
    | reset =>
      rw [step_reset] at hstep
      cases hstep
      simp only [List.count_nil, beq_iff_eq, reduceCtorEq, if_false]
      omega

/-- A queued entry is the newest of its key. -/
theorem run_newest (h : run (step key) [] calls = some xs) {x : E} (hx : x ∈ xs) :
    newest key (key x) calls = some x := by
  induction calls using List.reverseRecOn generalizing xs x with
  | nil =>
    cases h
    cases hx
  | append_singleton calls call ih =>
    obtain ⟨ys, hrun, hstep⟩ := run_snoc_eq_some.mp h
    rw [newest_snoc]
    cases call with
    | put e =>
      cases hstep
      rcases mem_put (run_nodup hrun) hx with rfl | ⟨hmem, hne⟩
      · simp [newest]
      · simp [newest, Ne.symm hne, ih hrun hmem]
    | take e =>
      cases ys with
      | nil => cases hstep
      | cons y ys =>
        obtain ⟨rfl, heq⟩ := Option.ite_none_right_eq_some.mp hstep
        cases heq
        exact ih hrun (List.mem_cons_of_mem _ hx)
    | reset =>
      rw [step_reset] at hstep
      cases hstep
      cases hx

end Codinalte.Coalesce
