import Mathlib.Data.List.Basic
import Mathlib.Data.List.Induction
import Mathlib.Data.List.Infix

/-! Lines that end in a letter they have nowhere else, and items that are laid one behind the
other. -/

namespace Codinalte.Lines
variable {α M : Type*} {a : α}

section Terminator

def line (a : α) (t : List α) : List α := t ++ [a]

theorem first_line {t s r q : List α} (ht : a ∉ t) (hs : a ∉ s)
    (h : t ++ a :: r = s ++ a :: q) : t = s ∧ r = q := by
  induction t generalizing s with
  | nil =>
    cases s with
    | nil => exact ⟨rfl, List.tail_eq_of_cons_eq h⟩
    | cons b s =>
      obtain ⟨rfl, -⟩ := List.cons_eq_cons.mp h
      exact absurd List.mem_cons_self hs
  | cons b t ih =>
    cases s with
    | nil =>
      obtain ⟨rfl, -⟩ := List.cons_eq_cons.mp h
      exact absurd List.mem_cons_self ht
    | cons c s =>
      obtain ⟨rfl, hrest⟩ := List.cons_eq_cons.mp h
      obtain ⟨rfl, hr⟩ := ih (fun h => ht (List.mem_cons_of_mem _ h))
        (fun h => hs (List.mem_cons_of_mem _ h)) hrest
      exact ⟨rfl, hr⟩

/-- A word that is the front of itself behind one letter is a power of the letter. -/
theorem eq_replicate_of_front {y r r' : List α} (h : y ++ r = a :: y ++ r') :
    y = List.replicate y.length a := by
  induction y generalizing r' with
  | nil => rfl
  | cons b y ih =>
    obtain ⟨rfl, hrest⟩ := List.cons_eq_cons.mp h
    rw [List.length_cons, List.replicate_succ, ← ih hrest]

theorem eq_replicate_of_shift {v : List α} (h : v ++ [a, a] = a :: a :: v) :
    v = List.replicate v.length a := by
  induction v with
  | nil => rfl
  | cons b v ih =>
    obtain ⟨rfl, hrest⟩ := List.cons_eq_cons.mp h
    rw [List.length_cons, List.replicate_succ, ← ih hrest]

/-- The first line of the rest goes to its end, and one letter of the text is lost with it. -/
theorem eq_replicate_of_rotation {y v : List α}
    (h : y ++ v ++ a :: (y ++ [a]).take 1 = a :: y ++ a :: v) :
    y = List.replicate y.length a ∧ v = List.replicate v.length a := by
  have hy : y = List.replicate y.length a := by
    rw [List.append_assoc] at h
    exact eq_replicate_of_front h
  refine ⟨hy, eq_replicate_of_shift ?_⟩
  have htake : (y ++ [a]).take 1 = [a] := by
    rw [hy]
    cases y.length with
    | zero => rfl
    | succ n => rfl
  have hshift : a :: y = y ++ [a] := by
    rw [hy, ← List.replicate_succ, List.replicate_succ']
  rw [htake, hshift] at h
  simp only [List.append_assoc, List.cons_append, List.nil_append] at h
  exact List.append_cancel_left h

/-- Lines that can be exchanged with two lines of which the second is empty repeat these two. -/
theorem exists_replicate_of_commute {t : List α} (ht : a ∉ t) (hne : t ≠ []) {ts : List (List α)}
    (hts : ∀ s ∈ ts, a ∉ s)
    (h : ts.flatMap (line a) ++ (line a t ++ [a]) = (line a t ++ [a]) ++ ts.flatMap (line a)) :
    ∃ j, ts = (List.replicate j [t, []]).flatten := by
  induction ts using List.twoStepInduction with
  | nil => exact ⟨0, rfl⟩
  | singleton s =>
    simp only [line, List.flatMap_cons, List.flatMap_nil, List.append_assoc, List.cons_append,
      List.nil_append] at h
    obtain ⟨rfl, hrest⟩ := first_line (hts s List.mem_cons_self) ht h
    obtain ⟨rfl, -⟩ := first_line (s := []) ht (fun h => by cases h) hrest
    exact absurd rfl hne
  | cons_cons s₁ s₂ ts ih _ =>
    simp only [line, List.flatMap_cons, List.append_assoc, List.cons_append,
      List.nil_append] at h
    obtain ⟨rfl, hrest⟩ := first_line (hts s₁ List.mem_cons_self) ht h
    obtain ⟨rfl, hrest⟩ := first_line (s := [])
      (hts s₂ (List.mem_cons_of_mem _ List.mem_cons_self)) (fun h => by cases h) hrest
    obtain ⟨j, rfl⟩ := ih (fun s hs => hts s (List.mem_cons_of_mem _ (List.mem_cons_of_mem _ hs)))
      (by simpa only [line, List.append_assoc, List.cons_append, List.nil_append] using hrest)
    exact ⟨j + 1, rfl⟩

theorem replicate_commute (ts : List M) (f : M → List α) (j : Nat) :
    ((List.replicate j ts).flatten).flatMap f ++ ts.flatMap f =
      ts.flatMap f ++ ((List.replicate j ts).flatten).flatMap f := by
  rw [← List.flatMap_append, ← List.flatMap_append, ← List.flatten_concat, ← List.replicate_succ',
    List.replicate_succ, List.flatten_cons]

end Terminator

section Laid
variable (bytes : M → List α)

/-- The items with their offsets, the first one at `b`. -/
def laid : Nat → List M → List (Nat × M)
  | _, [] => []
  | b, m :: ms => (b, m) :: laid (b + (bytes m).length) ms

variable {bytes} {b n : Nat} {ms ms' : List M}

theorem laid_append : laid bytes b (ms ++ ms') =
    laid bytes b ms ++ laid bytes (b + (ms.flatMap bytes).length) ms' := by
  induction ms generalizing b with
  | nil => rfl
  | cons m ms ih =>
    rw [List.cons_append, laid, laid, ih, List.flatMap_cons, List.length_append, Nat.add_assoc,
      List.cons_append]

theorem map_snd_laid : (laid bytes b ms).map Prod.snd = ms := by
  induction ms generalizing b with
  | nil => rfl
  | cons m ms ih => rw [laid, List.map_cons, ih]

theorem laid_bounds {p : Nat × M} (hp : p ∈ laid bytes b ms) :
    b ≤ p.1 ∧ p.1 + (bytes p.2).length ≤ b + (ms.flatMap bytes).length := by
  induction ms generalizing b with
  | nil => cases hp
  | cons m ms ih =>
    rw [List.flatMap_cons, List.length_append]
    rcases List.mem_cons.mp hp with rfl | hp
    · exact ⟨Nat.le_refl _, Nat.add_le_add_left (Nat.le_add_right _ _) _⟩
    · obtain ⟨hle, hend⟩ := ih hp
      exact ⟨by omega, by omega⟩

/-- A laid item has its letters at its offset. -/
theorem laid_letters {p : Nat × M} (hp : p ∈ laid bytes b ms) :
    ((ms.flatMap bytes).drop (p.1 - b)).take (bytes p.2).length = bytes p.2 := by
  induction ms generalizing b with
  | nil => cases hp
  | cons m ms ih =>
    rw [List.flatMap_cons]
    rcases List.mem_cons.mp hp with rfl | hp
    · rw [Nat.sub_self, List.drop_zero]
      exact List.take_left
    · have hle := (laid_bounds hp).1
      have hsub : p.1 - b = (bytes m).length + (p.1 - (b + (bytes m).length)) := by omega
      rw [hsub, List.drop_length_add_append]
      exact ih hp

theorem filter_laid_front (hpos : ∀ m, 0 < (bytes m).length)
    (h : b + (ms.flatMap bytes).length ≤ n) : (laid bytes b ms).filter (n ≤ ·.1) = [] := by
  refine List.filter_eq_nil_iff.mpr fun p hp hle => ?_
  obtain ⟨-, hend⟩ := laid_bounds hp
  have hlen := hpos p.2
  have hle := of_decide_eq_true hle
  omega

theorem filter_laid_back (h : n ≤ b) : (laid bytes b ms).filter (n ≤ ·.1) = laid bytes b ms :=
  List.filter_eq_self.mpr fun _ hp =>
    decide_eq_true (Nat.le_trans h (laid_bounds hp).1)

/-- A place among the items is the first of an item, or within one. -/
theorem exists_item_at (h : n < (ms.flatMap bytes).length) :
    ∃ front m back, ms = front ++ m :: back ∧ (front.flatMap bytes).length ≤ n ∧
      n < (front.flatMap bytes).length + (bytes m).length := by
  induction ms generalizing n with
  | nil => cases h
  | cons m ms ih =>
    rw [List.flatMap_cons, List.length_append] at h
    by_cases hlt : n < (bytes m).length
    · exact ⟨[], m, ms, rfl, Nat.zero_le _, by simpa using hlt⟩
    · obtain ⟨front, m', back, rfl, hle, hlt'⟩ := ih (n := n - (bytes m).length) (by omega)
      refine ⟨m :: front, m', back, rfl, ?_, ?_⟩
      · rw [List.flatMap_cons, List.length_append]
        omega
      · rw [List.flatMap_cons, List.length_append]
        omega

/-- The items from `n` on, when an item is the first there or is broken there. -/
theorem filter_laid (hpos : ∀ m, 0 < (bytes m).length) {front : List M} (back : List M) {m : M}
    (hle : (front.flatMap bytes).length ≤ n)
    (hlt : n < (front.flatMap bytes).length + (bytes m).length) :
    (laid bytes 0 (front ++ m :: back)).filter (n ≤ ·.1) =
      (if (front.flatMap bytes).length = n then [(n, m)] else []) ++
        laid bytes ((front.flatMap bytes).length + (bytes m).length) back := by
  have hfront : (laid bytes 0 front).filter (n ≤ ·.1) = [] :=
    filter_laid_front hpos (by omega)
  have hback : (laid bytes ((front.flatMap bytes).length + (bytes m).length) back).filter
      (n ≤ ·.1) = laid bytes ((front.flatMap bytes).length + (bytes m).length) back :=
    filter_laid_back (by omega)
  rw [laid_append, List.filter_append, hfront, List.nil_append, Nat.zero_add, laid,
    List.filter_cons, hback]
  by_cases heq : (front.flatMap bytes).length = n
  · rw [if_pos heq, if_pos (decide_eq_true (Nat.le_of_eq heq.symm)), heq]
    rfl
  · rw [if_neg heq, if_neg fun h => heq (Nat.le_antisymm hle (of_decide_eq_true h))]
    rfl

end Laid

end Codinalte.Lines
