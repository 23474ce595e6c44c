import Mathlib.Data.List.Nodup
import Mathlib.Logic.Function.Basic

/-! A list of places and values stored one after the other. -/

namespace Codinalte.Stores
variable {K V : Type*} [DecidableEq K] {f : K → V} {l l' : List (K × V)} {k : K} {v : V}

def store (f : K → V) (l : List (K × V)) : K → V :=
  l.foldl (fun g p => Function.update g p.1 p.2) f

@[simp] theorem store_nil : store f [] = f := rfl

@[simp] theorem store_cons : store f ((k, v) :: l) = store (Function.update f k v) l := rfl

theorem store_append : store f (l ++ l') = store (store f l) l' := List.foldl_append

theorem store_of_not_mem (h : k ∉ l.map Prod.fst) : store f l k = f k := by
  induction l generalizing f with
  | nil => rfl
  | cons p l ih =>
    rw [List.map_cons, List.mem_cons, not_or] at h
    exact (ih h.2).trans (Function.update_of_ne h.1 _ _)

/-- Where no place is stored to twice, each has its value. -/
theorem store_of_mem (hnodup : (l.map Prod.fst).Nodup) (h : (k, v) ∈ l) : store f l k = v := by
  induction l generalizing f with
  | nil => cases h
  | cons p l ih =>
    rw [List.map_cons, List.nodup_cons] at hnodup
    rcases List.mem_cons.mp h with rfl | hmem
    · exact (store_of_not_mem hnodup.1).trans (Function.update_self ..)
    · exact ih hnodup.2 hmem

/-- Where all that is stored is what one function says, the places stored to have its values. -/
theorem store_of_agree {g : K → V} (hagree : ∀ p ∈ l, p.2 = g p.1) (h : k ∈ l.map Prod.fst) :
    store f l k = g k := by
  induction l generalizing f with
  | nil => cases h
  | cons p l ih =>
    have htail : ∀ q ∈ l, q.2 = g q.1 := fun q hq => hagree q (List.mem_cons_of_mem _ hq)
    by_cases hmem : k ∈ l.map Prod.fst
    · exact ih htail hmem
    · rw [List.map_cons, List.mem_cons] at h
      have hk : k = p.1 := h.resolve_right hmem
      refine (store_of_not_mem hmem).trans ?_
      rw [hk]
      exact (Function.update_self ..).trans (hagree p List.mem_cons_self)

end Codinalte.Stores
