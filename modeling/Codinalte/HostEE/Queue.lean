import Codinalte.Lib.LinkedList

/-! The queue of the host execution engine: elements linked through `pNext`, with a first and a
last pointer. `popMatching` on lists says what the pointer code does. -/

namespace Codinalte.HostEE
open Codinalte.LinkedList

/-- Remove the first element that matches. -/
def popMatching {α : Type} (matching : α → Bool) : List α → Option α × List α
  | [] => (none, [])
  | x :: xs =>
    if matching x then (some x, xs)
    else ((popMatching matching xs).1, x :: (popMatching matching xs).2)

theorem pop_matching_append {α : Type} {matching : α → Bool} {front back : List α} {x : α}
    (hfront : ∀ y ∈ front, matching y = false) (hx : matching x = true) :
    popMatching matching (front ++ x :: back) = (some x, front ++ back) := by
  induction front with
  | nil =>
    show (if matching x = true then _ else _) = _
    rw [if_pos hx]
    rfl
  | cons y front ih =>
    have hy : matching y = false := hfront y (List.mem_cons_self ..)
    have hrest := ih fun z hz => hfront z (List.mem_cons_of_mem _ hz)
    simp only [List.cons_append, popMatching, hy, Bool.false_eq_true, if_false, hrest]

theorem pop_matching_none {α : Type} {matching : α → Bool} {xs : List α}
    (h : ∀ y ∈ xs, matching y = false) : popMatching matching xs = (none, xs) := by
  induction xs with
  | nil => rfl
  | cons y xs ih =>
    have hy : matching y = false := h y (List.mem_cons_self ..)
    have hrest := ih fun z hz => h z (List.mem_cons_of_mem _ hz)
    simp only [popMatching, hy, Bool.false_eq_true, if_false, hrest]

/-- Either nothing matches, or the list splits at the first match. -/
theorem pop_matching_cases {α : Type} (matching : α → Bool) (xs : List α) :
    ((∀ y ∈ xs, matching y = false) ∧ popMatching matching xs = (none, xs)) ∨
    ∃ front x back, xs = front ++ x :: back ∧ (∀ y ∈ front, matching y = false) ∧
      matching x = true ∧ popMatching matching xs = (some x, front ++ back) := by
  induction xs with
  | nil => exact .inl ⟨by simp, rfl⟩
  | cons x xs ih =>
    cases hx : matching x with
    | true =>
      exact .inr ⟨[], x, xs, rfl, by simp, hx, if_pos hx⟩
    | false =>
      rcases ih with ⟨hall, -⟩ | ⟨front, y, back, rfl, hfront, hy, -⟩
      · have hall' : ∀ y ∈ x :: xs, matching y = false := by
          intro y hy
          rcases List.mem_cons.mp hy with rfl | hy
          · exact hx
          · exact hall y hy
        exact .inl ⟨hall', pop_matching_none hall'⟩
      · have hfront' : ∀ z ∈ x :: front, matching z = false := by
          intro z hz
          rcases List.mem_cons.mp hz with rfl | hz
          · exact hx
          · exact hfront z hz
        exact .inr ⟨x :: front, y, back, rfl, hfront', hy, pop_matching_append hfront' hy⟩

theorem pop_matching_sublist {α : Type} (matching : α → Bool) (xs : List α) :
    (popMatching matching xs).2.Sublist xs := by
  rcases pop_matching_cases matching xs with ⟨-, heq⟩ | ⟨front, x, back, rfl, -, -, heq⟩
  · rw [heq]
  · rw [heq]
    exact List.Sublist.append_left (List.sublist_cons_self x back) front

/-- A queue description together with the `pNext` field of every element. -/
structure QueueMemory (A : Type) where
  pNext : A → Option A
  pFIRST : Option A
  pLAST : Option A

variable {A : Type} [DecidableEq A]

/-- `none` is a store through NULL. -/
def pushAndExecute (m : QueueMemory A) (pElem : A) : Option (QueueMemory A) :=
  match m.pFIRST with
  | none => some
    { pNext := Function.update m.pNext pElem none, pFIRST := some pElem, pLAST := some pElem }
  | some _ => m.pLAST.map fun pLAST =>
    { pNext := Function.update (Function.update m.pNext pLAST (some pElem)) pElem none
      pFIRST := m.pFIRST
      pLAST := some pElem }

/-- The three ways to unlink `pRes`: first, last, or between. -/
def unlink (m : QueueMemory A) (pPrev : Option A) (pRes : A) : QueueMemory A :=
  match pPrev with
  | none => { m with
      pNext := Function.update m.pNext pRes none
      pFIRST := m.pNext pRes }
  | some prev =>
    if m.pNext pRes = none then { m with
      pNext := Function.update (Function.update m.pNext prev none) pRes none
      pLAST := some prev }
    else { m with
      pNext := Function.update (Function.update m.pNext prev (m.pNext pRes)) pRes none }

/-- The loop of `popMatchingAndExecute`; the fuel bounds the elements it may visit. -/
def popMatchingLoop (matching : A → Bool) (m : QueueMemory A) :
    Nat → Option A → Option A → Option (QueueMemory A × Option A)
  | _, _, none => some (m, none)
  | 0, _, some _ => none
  | fuel + 1, pPrev, some pRes =>
    if matching pRes then some (unlink m pPrev pRes, some pRes)
    else popMatchingLoop matching m fuel (some pRes) (m.pNext pRes)

/-- The memory holds the queue `xs`; where it is empty `pLAST` may be stale. -/
structure Holds (m : QueueMemory A) (xs : List A) : Prop where
  chain : Chain m.pNext m.pFIRST xs
  nodup : xs.Nodup
  last : ∀ x ∈ xs.getLast?, m.pLAST = some x

theorem push_and_execute_first {m : QueueMemory A} (x : A) (h : m.pFIRST = none) :
    pushAndExecute m x = some
      { pNext := Function.update m.pNext x none, pFIRST := some x, pLAST := some x } := by
  simp only [pushAndExecute, h]

theorem push_and_execute_next {m : QueueMemory A} {first last : A} (x : A)
    (h : m.pFIRST = some first) (hlast : m.pLAST = some last) :
    pushAndExecute m x = some
      { pNext := Function.update (Function.update m.pNext last (some x)) x none
        pFIRST := some first
        pLAST := some x } := by
  simp only [pushAndExecute, h, hlast, Option.map_some]

theorem push_and_execute_holds {m : QueueMemory A} {xs : List A} {x : A} (h : Holds m xs)
    (hx : x ∉ xs) : ∃ m', pushAndExecute m x = some m' ∧ Holds m' (xs ++ [x]) := by
  have hnodup : (xs ++ [x]).Nodup := List.nodup_append.mpr
    ⟨h.nodup, List.nodup_singleton x, fun y hy z hz hyz => hx (List.mem_singleton.mp hz ▸ hyz ▸ hy)⟩
  rcases List.eq_nil_or_concat' xs with rfl | ⟨front, last, rfl⟩
  · refine ⟨_, push_and_execute_first x h.chain, ⟨rfl, ?_⟩, hnodup, by simp⟩
    exact Function.update_self ..
  · have hlast : m.pLAST = some last := h.last last (by simp)
    obtain ⟨first, hfirst⟩ := chain_first h.chain
    refine ⟨_, push_and_execute_next x hfirst hlast, ?_, hnodup, by simp⟩
    have hne : last ≠ x := by
      rintro rfl
      exact hx (List.mem_append_right _ (List.mem_singleton_self _))
    rw [Function.update_comm hne, ← hfirst]
    exact chain_push h.chain h.nodup hx

/-- Unlinking `x` leaves the others linked in order. -/
theorem unlink_holds {m : QueueMemory A} {front back : List A} {x : A}
    (h : Holds m (front ++ x :: back)) :
    Holds (unlink m front.getLast? x) (front ++ back) := by
  have hnodup := h.nodup
  have hsub : (front ++ back).Nodup :=
    hnodup.sublist (List.Sublist.append_left (List.sublist_cons_self x back) front)
  have hnext : Chain m.pNext (m.pNext x) back := chain_next h.chain
  rw [List.nodup_append, List.nodup_cons] at hnodup
  obtain ⟨hfront, ⟨hxback, -⟩, hdisjoint⟩ := hnodup
  have hxfront : x ∉ front := fun hmem => hdisjoint x hmem x (List.mem_cons_self ..) rfl
  have hxrest : x ∉ front ++ back := by
    rw [List.mem_append, not_or]
    exact ⟨hxfront, hxback⟩
  rcases List.eq_nil_or_concat' front with rfl | ⟨init, prev, rfl⟩
  · -- the first element
    refine ⟨chain_update_of_notMem hnext hxback, hsub, ?_⟩
    intro y hy
    refine h.last y ?_
    cases back with
    | nil => simp at hy
    | cons b back => simpa [List.getLast?_cons_cons] using hy
  · have hunlinked := chain_update_of_notMem (v := none) (chain_unlink h.chain h.nodup) hxrest
    have hlast : (init ++ [prev]).getLast? = some prev := by simp
    rw [hlast]
    unfold unlink
    by_cases hend : m.pNext x = none
    · -- the last element
      have hback : back = [] := chain_unique (hend ▸ hnext) rfl
      subst hback
      rw [hend] at hunlinked
      simp only [hend, if_true]
      refine ⟨hunlinked, hsub, ?_⟩
      intro y hy
      simpa using hy
    · simp only [hend, if_false]
      refine ⟨hunlinked, hsub, ?_⟩
      intro y hy
      refine h.last y ?_
      cases back with
      | nil => exact absurd hnext hend
      | cons b back => simpa using hy

/-- With fuel for every element the loop ends, and does what `popMatching` says. -/
theorem pop_matching_loop_holds {matching : A → Bool} {m : QueueMemory A} {front rest : List A}
    {fuel : Nat} (h : Holds m (front ++ rest)) (hfuel : rest.length ≤ fuel)
    (hfront : ∀ y ∈ front, matching y = false) {p : Option A} (hp : Chain m.pNext p rest) :
    ∃ m', popMatchingLoop matching m fuel front.getLast? p =
        some (m', (popMatching matching (front ++ rest)).1) ∧
      Holds m' (popMatching matching (front ++ rest)).2 := by
  induction rest generalizing front fuel p with
  | nil =>
    have hnone : p = none := hp
    subst hnone
    rw [List.append_nil] at h ⊢
    rw [pop_matching_none hfront]
    exact ⟨m, by simp [popMatchingLoop], h⟩
  | cons x rest ih =>
    obtain ⟨rfl, hrest⟩ := hp
    obtain ⟨fuel, rfl⟩ : ∃ n, fuel = n + 1 := ⟨fuel - 1, by simp at hfuel; omega⟩
    cases hx : matching x with
    | true =>
      rw [pop_matching_append hfront hx]
      exact ⟨_, by simp only [popMatchingLoop, hx, if_true], unlink_holds h⟩
    | false =>
      have hlist : front ++ x :: rest = (front ++ [x]) ++ rest := by simp
      have hfront' : ∀ y ∈ front ++ [x], matching y = false := by
        intro y hy
        rcases List.mem_append.mp hy with hy | hy
        · exact hfront y hy
        · rw [List.mem_singleton.mp hy]
          exact hx
      have := ih (hlist ▸ h) (by simpa using hfuel) hfront' hrest
      rw [← hlist] at this
      simp only [popMatchingLoop, hx, Bool.false_eq_true, if_false]
      simpa using this

theorem pop_matching_and_execute_holds {matching : A → Bool} {m : QueueMemory A} {xs : List A}
    {fuel : Nat} (h : Holds m xs) (hfuel : xs.length ≤ fuel) :
    ∃ m', popMatchingLoop matching m fuel none m.pFIRST =
        some (m', (popMatching matching xs).1) ∧ Holds m' (popMatching matching xs).2 :=
  @pop_matching_loop_holds A _ matching m [] xs fuel h hfuel (by simp) _ h.chain

end Codinalte.HostEE
