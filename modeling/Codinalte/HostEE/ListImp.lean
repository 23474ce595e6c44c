import Codinalte.HostEE.Queue

/-! The list of the host execution engine: elements linked through `pNext`, with a first and a last
pointer as in a queue. Its loops look at one element after the other with a function that may change
a state of its own, until the function says that it matches; `matchList` says on lists what they do.
-/

namespace Codinalte.HostEE
open Codinalte.LinkedList
variable {A σ : Type}

/-- The first element that matches, with the state that the functions leave. -/
def matchList (matching : A → σ → Bool × σ) : List A → σ → Option A × σ
  | [], state => (none, state)
  | x :: xs, state =>
    if (matching x state).1 then (some x, (matching x state).2)
    else matchList matching xs (matching x state).2

/-- A `t_list_imp` has the fields of a queue description. -/
abbrev ListMemory (A : Type) := QueueMemory A

/-- The loop of `addNotMatching`, `removeMatching`, `getNumberOfElem` and `isElem`; the fuel bounds
the elements it may visit. -/
def matchingLoop (matching : A → σ → Bool × σ) (m : ListMemory A) :
    Nat → Option A → σ → Option (Option A × σ)
  | _, none, state => some (none, state)
  | 0, some _, _ => none
  | fuel + 1, some pCurrent, state =>
    if (matching pCurrent state).1 then some (some pCurrent, (matching pCurrent state).2)
    else matchingLoop matching m fuel (m.pNext pCurrent) (matching pCurrent state).2

theorem matching_loop_chain (matching : A → σ → Bool × σ) {m : ListMemory A} {p : Option A}
    {xs : List A} {fuel : Nat} (h : Chain m.pNext p xs) (hfuel : xs.length ≤ fuel) (state : σ) :
    matchingLoop matching m fuel p state = some (matchList matching xs state) := by
  induction xs generalizing p fuel state with
  | nil =>
    have hnone : p = none := h
    subst hnone
    cases fuel <;> rfl
  | cons x xs ih =>
    obtain ⟨rfl, hrest⟩ := h
    cases fuel with
    | zero => exact absurd hfuel (Nat.not_succ_le_zero _)
    | succ fuel =>
      unfold matchingLoop matchList
      by_cases hx : (matching x state).1 = true
      · rw [if_pos hx, if_pos hx]
      · rw [if_neg hx, if_neg hx]
        exact ih hrest (Nat.le_of_succ_le_succ hfuel) _

variable [DecidableEq A]

/-- `none` is a store through NULL. -/
def addToList (m : ListMemory A) (pElem : A) : Option (ListMemory A) :=
  match m.pFIRST with
  | none => some
    { pNext := Function.update m.pNext pElem none, pFIRST := some pElem, pLAST := some pElem }
  | some _ => m.pLAST.map fun pLAST =>
    { pNext := Function.update (Function.update m.pNext pLAST (some pElem)) pElem none
      pFIRST := m.pFIRST
      pLAST := some pElem }

/-- The three ways to take `pElem` out; unlike the queue, a list that becomes empty has no last
element. -/
def takeOut (m : ListMemory A) (pPrev : Option A) (pElem : A) : ListMemory A :=
  match pPrev with
  | none => { m with
      pNext := Function.update m.pNext pElem none
      pFIRST := m.pNext pElem
      pLAST := if m.pNext pElem = none then none else m.pLAST }
  | some _ => unlink m pPrev pElem

/-- The loop of `removeFromList`. -/
def removeLoop (m : ListMemory A) (pElem : A) :
    Nat → Option A → Option A → Option (ListMemory A)
  | _, _, none => some m
  | 0, _, some _ => none
  | fuel + 1, pPrev, some pCurrent =>
    if pCurrent = pElem then some (takeOut m pPrev pCurrent)
    else removeLoop m pElem fuel (some pCurrent) (m.pNext pCurrent)

def addNotMatching (matching : A → σ → Bool × σ) (m : ListMemory A) (fuel : Nat) (pElem : A)
    (state : σ) : Option (ListMemory A × Bool × σ) :=
  (matchingLoop matching m fuel m.pFIRST state).bind fun res =>
    if res.1.isSome then some (m, true, res.2)
    else (addToList m pElem).map fun m' => (m', false, res.2)

def removeMatching (matching : A → σ → Bool × σ) (m : ListMemory A) (fuel : Nat) (state : σ) :
    Option (ListMemory A × Bool × σ) :=
  (matchingLoop matching m fuel m.pFIRST state).bind fun res =>
    match res.1 with
    | some pCurrent => (removeLoop m pCurrent fuel none m.pFIRST).map fun m' => (m', true, res.2)
    | none => some (m, false, res.2)

/-- `res` is a `t_uint32`. -/
def getNumberOfElem (m : ListMemory A) (fuel : Nat) : Option Nat :=
  (matchingLoop (fun _ res => (false, (res + 1) % 4294967296)) m fuel m.pFIRST 0).map Prod.snd

def isElem (m : ListMemory A) (fuel : Nat) (pElem : A) : Option Bool :=
  (matchingLoop (fun pCurrent _ => (decide (pCurrent = pElem), decide (pCurrent = pElem))) m fuel
    m.pFIRST false).map Prod.snd

variable {m : ListMemory A} {xs : List A} {x : A} {fuel : Nat}

theorem add_to_list_holds (h : Holds m xs) (hx : x ∉ xs) :
    ∃ m', addToList m x = some m' ∧ Holds m' (xs ++ [x]) := push_and_execute_holds h hx

theorem take_out_holds {front back : List A} (h : Holds m (front ++ x :: back)) :
    Holds (takeOut m front.getLast? x) (front ++ back) := by
  have hunlink := unlink_holds h
  rcases List.eq_nil_or_concat' front with rfl | ⟨init, prev, rfl⟩
  · refine ⟨hunlink.chain, hunlink.nodup, ?_⟩
    intro y hy
    have hne : m.pNext x ≠ none := by
      intro hnone
      have hback : back = [] := chain_unique (hnone ▸ chain_next h.chain) rfl
      rw [hback] at hy
      cases hy
    have hlast := hunlink.last y hy
    show (if m.pNext x = none then none else m.pLAST) = some y
    rw [if_neg hne]
    exact hlast
  · have hlast : (init ++ [prev]).getLast? = some prev := by simp
    rw [hlast] at hunlink ⊢
    exact hunlink

/-- With fuel for every element the loop ends, and takes the element out. -/
theorem remove_loop_holds {front rest : List A} (h : Holds m (front ++ rest))
    (hfuel : rest.length ≤ fuel) (hfront : x ∉ front) {p : Option A}
    (hp : Chain m.pNext p rest) :
    ∃ m', removeLoop m x fuel front.getLast? p = some m' ∧ Holds m' ((front ++ rest).erase x) := by
  induction rest generalizing front fuel p with
  | nil =>
    have hnone : p = none := hp
    subst hnone
    rw [List.append_nil] at h ⊢
    rw [List.erase_of_not_mem hfront]
    exact ⟨m, by simp [removeLoop], h⟩
  | cons y rest ih =>
    obtain ⟨rfl, hrest⟩ := hp
    cases fuel with
    | zero => exact absurd hfuel (Nat.not_succ_le_zero _)
    | succ fuel =>
      by_cases hy : y = x
      · subst hy
        refine ⟨takeOut m front.getLast? y, by simp only [removeLoop, if_true], ?_⟩
        rw [List.erase_append_right _ hfront, List.erase_cons_head]
        exact take_out_holds h
      · have hlist : front ++ y :: rest = (front ++ [y]) ++ rest := by simp
        have hfront' : x ∉ front ++ [y] := by
          rw [List.mem_append, List.mem_singleton, not_or]
          exact ⟨hfront, Ne.symm hy⟩
        have hstep := ih (hlist ▸ h) (Nat.le_of_succ_le_succ hfuel) hfront' hrest
        rw [← hlist] at hstep
        simp only [removeLoop, if_neg hy]
        simpa using hstep

theorem add_not_matching_holds (matching : A → σ → Bool × σ) (h : Holds m xs)
    (hfuel : xs.length ≤ fuel) (hx : x ∉ xs) (state : σ) :
    ∃ m', addNotMatching matching m fuel x state =
        some (m', (matchList matching xs state).1.isSome, (matchList matching xs state).2) ∧
      Holds m' (if (matchList matching xs state).1.isSome then xs else xs ++ [x]) := by
  unfold addNotMatching
  rw [matching_loop_chain matching h.chain hfuel, Option.bind_some]
  split_ifs with hfound
  · rw [hfound]
    exact ⟨m, rfl, h⟩
  · obtain ⟨m', hm', hholds⟩ := add_to_list_holds h hx
    rw [hm', Bool.eq_false_iff.mpr hfound]
    exact ⟨m', rfl, hholds⟩

theorem remove_matching_holds (matching : A → σ → Bool × σ) (h : Holds m xs)
    (hfuel : xs.length ≤ fuel) (state : σ) :
    ∃ m', removeMatching matching m fuel state =
        some (m', (matchList matching xs state).1.isSome, (matchList matching xs state).2) ∧
      Holds m' ((matchList matching xs state).1.elim xs xs.erase) := by
  unfold removeMatching
  rw [matching_loop_chain matching h.chain hfuel, Option.bind_some]
  cases hfound : (matchList matching xs state).1 with
  | none => exact ⟨m, rfl, h⟩
  | some pCurrent =>
    obtain ⟨m', hm', hholds⟩ := @remove_loop_holds A _ m pCurrent fuel [] xs h hfuel
      (List.not_mem_nil) _ h.chain
    refine ⟨m', ?_, hholds⟩
    show (removeLoop m pCurrent fuel none m.pFIRST).map _ = _
    have hloop : removeLoop m pCurrent fuel none m.pFIRST = some m' := hm'
    rw [hloop]
    rfl

omit [DecidableEq A] in
theorem get_number_of_elem_holds (h : Holds m xs) (hfuel : xs.length ≤ fuel) :
    getNumberOfElem m fuel = some (xs.length % 4294967296) := by
  unfold getNumberOfElem
  rw [matching_loop_chain _ h.chain hfuel, Option.map_some]
  have hcount : ∀ (ys : List A) (n : Nat), (matchList (fun _ res => (false, (res + 1) % 4294967296))
      ys (n % 4294967296)).2 = (n + ys.length) % 4294967296 := by
    intro ys
    induction ys with
    | nil => exact fun n => rfl
    | cons y ys ih =>
      intro n
      show (matchList _ ys ((n % 4294967296 + 1) % 4294967296)).2 = _
      rw [Nat.mod_add_mod, ih, List.length_cons]
      congr 1
      omega
  exact congrArg some ((hcount xs 0).trans (by rw [Nat.zero_add]))

theorem is_elem_holds (h : Holds m xs) (hfuel : xs.length ≤ fuel) (x : A) :
    isElem m fuel x = some (decide (x ∈ xs)) := by
  unfold isElem
  rw [matching_loop_chain _ h.chain hfuel, Option.map_some]
  congr 1
  have hfind : ∀ ys : List A, (matchList (fun pCurrent (_ : Bool) =>
      (decide (pCurrent = x), decide (pCurrent = x))) ys false).2 = decide (x ∈ ys) := by
    intro ys
    induction ys with
    | nil => rfl
    | cons y ys ih =>
      unfold matchList
      by_cases hy : y = x
      · subst hy
        simp
      · simp only [hy, decide_false, Bool.false_eq_true, if_false]
        rw [ih]
        simp [Ne.symm hy]
  exact hfind xs

end Codinalte.HostEE
