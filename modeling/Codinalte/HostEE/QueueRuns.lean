import Codinalte.HostEE.Queue

/-! Any sequence of calls on a queue of the host execution engine, against a first-in first-out
list. -/

namespace Codinalte.HostEE
open Codinalte.LinkedList

/-- `execute` says whether the caller passes an execute function. -/
inductive QueueCall (A : Type)
  | push (pElem : A) (execute : Bool)
  | pop
  | popMatching (matching : A → Bool) (execute : Bool)

/-- What a call returns, and the arguments its execute function was called with. -/
structure QueueReply (A : Type) where
  returned : Option A
  executed : List (Option A)

/-- The execute function is called with `pRes`, which is NULL where nothing was found. -/
def executeFunction {A : Type} (execute : Bool) (pRes : Option A) : List (Option A) :=
  if execute then [pRes] else []

section Fifo
variable {A : Type}

/-- A first-in first-out list: the list after the call, and the reply. -/
def fifo (xs : List A) : QueueCall A → List A × QueueReply A
  | .push pElem execute => (xs ++ [pElem], ⟨none, executeFunction execute (some pElem)⟩)
  | .pop => (xs.tail, ⟨xs.head?, []⟩)
  | .popMatching matching execute =>
    (xs.eraseP matching, ⟨xs.find? matching, executeFunction execute (xs.find? matching)⟩)

def fifoRun : List A → List (QueueCall A) → List A × List (QueueReply A)
  | xs, [] => (xs, [])
  | xs, call :: calls =>
    ((fifoRun (fifo xs call).1 calls).1, (fifo xs call).2 :: (fifoRun (fifo xs call).1 calls).2)

/-- The element a call pushes is not in the list. -/
def PushesNew (xs : List A) : QueueCall A → Prop
  | .push pElem _ => pElem ∉ xs
  | .pop => True
  | .popMatching _ _ => True

/-- Every call pushes an element that is not in the list at that time. -/
def AlwaysNew : List A → List (QueueCall A) → Prop
  | _, [] => True
  | xs, call :: calls => PushesNew xs call ∧ AlwaysNew (fifo xs call).1 calls

/-- The search of the source takes the oldest match out and keeps the others in order. -/
theorem pop_matching_eq (matching : A → Bool) (xs : List A) :
    popMatching matching xs = (xs.find? matching, xs.eraseP matching) := by
  induction xs with
  | nil => rfl
  | cons x xs ih =>
    cases hx : matching x with
    | true => simp [popMatching, hx]
    | false => simp [popMatching, hx, ih]

theorem fifo_length_le (xs : List A) (call : QueueCall A) :
    (fifo xs call).1.length ≤ xs.length + 1 := by
  cases call with
  | push pElem execute => simp [fifo]
  | pop =>
    have : (fifo xs .pop).1.length = xs.length - 1 := List.length_tail
    omega
  | popMatching matching execute =>
    have : (xs.eraseP matching).length ≤ xs.length := List.length_eraseP_le
    exact Nat.le_succ_of_le this

end Fifo

variable {A : Type} [DecidableEq A]

/-- The memory that `create` leaves; the elements hold anything. -/
def createQueue (pNext : A → Option A) : QueueMemory A :=
  { pNext := pNext, pFIRST := none, pLAST := none }

def nmfQueuePop (m : QueueMemory A) : Option A × QueueMemory A :=
  match m.pFIRST with
  | none => (none, m)
  | some pRes =>
    (some pRes,
      { pNext := Function.update m.pNext pRes none
        pFIRST := m.pNext pRes
        pLAST := if m.pNext pRes = none then none else m.pLAST })

/-- `none` is a store through NULL, or a search that did not end within the fuel. -/
def queueCall (fuel : Nat) (m : QueueMemory A) :
    QueueCall A → Option (QueueMemory A × QueueReply A)
  | .push pElem execute =>
    (pushAndExecute m pElem).map fun m' => (m', ⟨none, executeFunction execute (some pElem)⟩)
  | .pop => some ((nmfQueuePop m).2, ⟨(nmfQueuePop m).1, []⟩)
  | .popMatching matching execute =>
    (popMatchingLoop matching m fuel none m.pFIRST).map fun r =>
      (r.1, ⟨r.2, executeFunction execute r.2⟩)

def queueRun (fuel : Nat) :
    QueueMemory A → List (QueueCall A) → Option (QueueMemory A × List (QueueReply A))
  | m, [] => some (m, [])
  | m, call :: calls =>
    (queueCall fuel m call).bind fun r =>
      (queueRun fuel r.1 calls).map fun rest => (rest.1, r.2 :: rest.2)

omit [DecidableEq A] in
theorem holds_create (pNext : A → Option A) : Holds (createQueue pNext) [] :=
  ⟨rfl, List.nodup_nil, by simp⟩

/-- `pLAST` is cleared with the only element and kept otherwise. -/
theorem queue_pop_holds {m : QueueMemory A} {xs : List A} (h : Holds m xs) :
    (nmfQueuePop m).1 = xs.head? ∧ Holds (nmfQueuePop m).2 xs.tail := by
  cases xs with
  | nil =>
    have hfirst : m.pFIRST = none := h.chain
    have hpop : nmfQueuePop m = (none, m) := by simp only [nmfQueuePop, hfirst]
    rw [hpop]
    exact ⟨rfl, h⟩
  | cons x xs =>
    obtain ⟨hfirst, hrest⟩ := h.chain
    obtain ⟨hx, hnodup⟩ := List.nodup_cons.mp h.nodup
    simp only [nmfQueuePop, hfirst]
    refine ⟨rfl, chain_update_of_notMem hrest hx, hnodup, ?_⟩
    intro y hy
    cases xs with
    | nil => cases hy
    | cons z zs =>
      have hnext : m.pNext x = some z := hrest.1
      have hlast : m.pLAST = some y := h.last y (by simpa [List.getLast?_cons_cons] using hy)
      simp only [hnext, reduceCtorEq, if_false, hlast]

/-- Every call does to the memory what it does to the list, and replies the same. -/
theorem queue_call_holds {fuel : Nat} {m : QueueMemory A} {xs : List A} {call : QueueCall A}
    (h : Holds m xs) (hnew : PushesNew xs call) (hfuel : xs.length ≤ fuel) :
    ∃ m', queueCall fuel m call = some (m', (fifo xs call).2) ∧ Holds m' (fifo xs call).1 := by
  cases call with
  | push pElem execute =>
    obtain ⟨m', hpush, hm'⟩ := push_and_execute_holds h hnew
    refine ⟨m', ?_, hm'⟩
    simp only [queueCall, hpush, Option.map_some, fifo]
  | pop =>
    obtain ⟨hreturned, hm'⟩ := queue_pop_holds h
    refine ⟨_, ?_, hm'⟩
    simp only [queueCall, hreturned, fifo]
  | popMatching matching execute =>
    obtain ⟨m', hloop, hm'⟩ :=
      @pop_matching_and_execute_holds A _ matching m xs fuel h hfuel
    rw [pop_matching_eq] at hloop hm'
    refine ⟨m', ?_, hm'⟩
    simp only [queueCall, hloop, Option.map_some, fifo]

/-- From a memory that holds `xs`: each call adds at most one element, so the fuel is enough. -/
theorem queue_run_holds {fuel : Nat} {m : QueueMemory A} {xs : List A}
    {calls : List (QueueCall A)} (h : Holds m xs) (hnew : AlwaysNew xs calls)
    (hfuel : xs.length + calls.length ≤ fuel) :
    ∃ m', queueRun fuel m calls = some (m', (fifoRun xs calls).2) ∧
      Holds m' (fifoRun xs calls).1 := by
  induction calls generalizing m xs with
  | nil => exact ⟨m, rfl, h⟩
  | cons call calls ih =>
    have hlen := fifo_length_le xs call
    rw [List.length_cons] at hfuel
    obtain ⟨m₁, hcall, hm₁⟩ := queue_call_holds h hnew.1 (by omega : xs.length ≤ fuel)
    obtain ⟨m', hrun, hm'⟩ := ih hm₁ hnew.2 (by omega)
    refine ⟨m', ?_, hm'⟩
    simp only [queueRun, hcall, Option.bind_some, hrun, Option.map_some, fifoRun]

/-- A queue is a first-in first-out list over every sequence of calls. -/
theorem queue_refines_fifo (pNext : A → Option A) (calls : List (QueueCall A)) (fuel : Nat)
    (hnew : AlwaysNew [] calls) (hfuel : calls.length ≤ fuel) :
    ∃ m, queueRun fuel (createQueue pNext) calls = some (m, (fifoRun [] calls).2) ∧
      Chain m.pNext m.pFIRST (fifoRun [] calls).1 ∧
      ∀ x, Reach m.pNext m.pFIRST x ↔ x ∈ (fifoRun [] calls).1 := by
  obtain ⟨m, hrun, hm⟩ := queue_run_holds (holds_create pNext) hnew (by simpa using hfuel)
  exact ⟨m, hrun, hm.chain, fun x => chain_reach hm.chain⟩

/-- The calls that empty a queue in both ways and fill it again. -/
def sampleQueueCalls : List (QueueCall Nat) :=
  [.push 1 false, .push 2 true, .push 3 false, .popMatching (fun x => x % 2 == 0) true, .pop,
    .popMatching (fun x => x == 3) false, .push 2 false, .push 1 false]

theorem queue_refines_fifo_sample :
    ∃ m, queueRun 8 (createQueue fun _ => none) sampleQueueCalls =
        some (m, (fifoRun [] sampleQueueCalls).2) ∧
      Chain m.pNext m.pFIRST [2, 1] ∧ ∀ x, Reach m.pNext m.pFIRST x ↔ x ∈ [2, 1] :=
  queue_refines_fifo (fun _ => none) sampleQueueCalls 8
    (by simp [sampleQueueCalls, AlwaysNew, PushesNew, fifo]) (by decide)

end Codinalte.HostEE
