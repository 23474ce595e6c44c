import Mathlib.Data.List.Basic
import Mathlib.Data.Option.Basic
import Mathlib.Logic.Function.Basic
import Mathlib.Data.List.Nodup

/-! Singly linked lists through a `next` field: which list a pointer starts, and what writing
one `next` field does to it. -/

namespace Codinalte.LinkedList
variable {A : Type*}

/-- `p` is the first pointer of the elements `xs`, linked in this order and ended by NULL. -/
def Chain (next : A → Option A) : Option A → List A → Prop
  | p, [] => p = none
  | p, x :: xs => p = some x ∧ Chain next (next x) xs

theorem chain_unique {next : A → Option A} {p : Option A} {xs ys : List A}
    (hx : Chain next p xs) (hy : Chain next p ys) : xs = ys := by
  induction xs generalizing p ys with
  | nil =>
    cases ys with
    | nil => rfl
    | cons y ys =>
      have hnone : p = none := hx
      rw [hnone] at hy
      cases hy.1
  | cons x xs ih =>
    cases ys with
    | nil =>
      have hnone : p = none := hy
      rw [hnone] at hx
      cases hx.1
    | cons y ys =>
      have hxy : x = y := Option.some.inj (hx.1.symm.trans hy.1)
      subst hxy
      rw [ih hx.2 hy.2]

theorem chain_next {next : A → Option A} {p : Option A} {front rest : List A} {a : A}
    (h : Chain next p (front ++ a :: rest)) : Chain next (next a) rest := by
  induction front generalizing p with
  | nil => exact h.2
  | cons x front ih => exact ih h.2

theorem chain_first {next : A → Option A} {p : Option A} {front back : List A} {x : A}
    (h : Chain next p (front ++ x :: back)) : ∃ first, p = some first := by
  cases front with
  | nil => exact ⟨_, h.1⟩
  | cons y front => exact ⟨_, h.1⟩

/-- Following `next` from `p` comes to the element. -/
inductive Reach (next : A → Option A) : Option A → A → Prop
  | here (x : A) : Reach next (some x) x
  | step {x y : A} : Reach next (next x) y → Reach next (some x) y

/-- What a chain reaches is what it holds. -/
theorem chain_reach {next : A → Option A} {p : Option A} {xs : List A} {y : A}
    (h : Chain next p xs) : Reach next p y ↔ y ∈ xs := by
  induction xs generalizing p with
  | nil =>
    have hnone : p = none := h
    subst hnone
    constructor
    · rintro ⟨⟩
    · intro hmem
      cases hmem
  | cons x xs ih =>
    obtain ⟨rfl, hrest⟩ := h
    rw [List.mem_cons, ← ih hrest]
    constructor
    · intro hreach
      cases hreach with
      | here => exact .inl rfl
      | step hreach => exact .inr hreach
    · rintro (rfl | hreach)
      · exact .here y
      · exact .step hreach

variable [DecidableEq A]

/-- A write to an element outside the chain leaves the chain. -/
theorem chain_update_of_notMem {next : A → Option A} {p : Option A} {xs : List A} {a : A}
    {v : Option A} (h : Chain next p xs) (ha : a ∉ xs) :
    Chain (Function.update next a v) p xs := by
  induction xs generalizing p with
  | nil => exact h
  | cons x xs ih =>
    rw [List.mem_cons, not_or] at ha
    refine ⟨h.1, ?_⟩
    rw [Function.update_of_ne (Ne.symm ha.1)]
    exact ih h.2 ha.2

/-- Pointing the last element `a` of the front at `v` continues the front with the chain of
`v`. -/
theorem chain_splice {next : A → Option A} {p v : Option A} {front back : List A} {a : A}
    {rest : List A} (h : Chain next p (front ++ a :: rest)) (hfront : a ∉ front)
    (hback : a ∉ back) (hv : Chain next v back) :
    Chain (Function.update next a v) p (front ++ a :: back) := by
  induction front generalizing p with
  | nil =>
    refine ⟨h.1, ?_⟩
    rw [Function.update_self]
    exact chain_update_of_notMem hv hback
  | cons x front ih =>
    rw [List.mem_cons, not_or] at hfront
    refine ⟨h.1, ?_⟩
    rw [Function.update_of_ne (Ne.symm hfront.1)]
    exact ih h.2 hfront.2

omit [DecidableEq A] in
theorem last_notMem {front : List A} {last : A} (h : (front ++ [last]).Nodup) : last ∉ front :=
  fun hmem => (List.nodup_append.mp h).2.2 last hmem last (List.mem_singleton_self last) rfl

/-- A new element is linked behind the last one. -/
theorem chain_push {next : A → Option A} {p : Option A} {front : List A} {last x : A}
    (h : Chain next p (front ++ [last])) (hnodup : (front ++ [last]).Nodup)
    (hx : x ∉ front ++ [last]) :
    Chain (Function.update (Function.update next x none) last (some x)) p
      (front ++ [last] ++ [x]) := by
  have hkept : Chain (Function.update next x none) p (front ++ [last]) :=
    chain_update_of_notMem h hx
  have hend : Chain (Function.update next x none) (some x) [x] :=
    ⟨rfl, Function.update_self ..⟩
  have hne : last ∉ [x] := by
    rw [List.mem_singleton]
    rintro rfl
    exact hx (List.mem_append_right _ (List.mem_singleton_self _))
  rw [List.append_assoc]
  exact chain_splice hkept (last_notMem hnodup) hne hend

/-- The element before `x` is linked to the one behind it. -/
theorem chain_unlink {next : A → Option A} {p : Option A} {front back : List A} {prev x : A}
    (h : Chain next p (front ++ [prev] ++ x :: back))
    (hnodup : (front ++ [prev] ++ x :: back).Nodup) :
    Chain (Function.update next prev (next x)) p (front ++ [prev] ++ back) := by
  have hnext : Chain next (next x) back := chain_next h
  obtain ⟨hfront, -, hdisjoint⟩ := List.nodup_append.mp hnodup
  have hback : prev ∉ back := fun hmem =>
    hdisjoint prev (by simp) prev (List.mem_cons_of_mem _ hmem) rfl
  rw [List.append_assoc] at h ⊢
  exact chain_splice h (last_notMem hfront) hback hnext

end Codinalte.LinkedList
