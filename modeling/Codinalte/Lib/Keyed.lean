import Mathlib.Data.List.Perm.Basic
import Mathlib.Data.List.Nodup
import Std.Data.String.ToNat

/-! Rows with a key, of which the first one with a key is the one that is found, and keys that are
made from a number. -/

namespace Codinalte.Keyed

section Rows
variable {α κ : Type*} [DecidableEq κ] {key : α → κ} {x : α} {l : List α}

/-- In place of the row with the same key, or behind all rows. -/
def put (key : α → κ) (x : α) : List α → List α
  | [] => [x]
  | y :: l => if key y = key x then x :: l else y :: put key x l

def putAll (key : α → κ) (xs l : List α) : List α := xs.foldl (fun l x => put key x l) l

theorem put_new (h : key x ∉ l.map key) : put key x l = l ++ [x] := by
  induction l with
  | nil => rfl
  | cons y l ih =>
    rw [List.map_cons, List.mem_cons, not_or] at h
    have hother : ¬ key y = key x := fun heq => h.1 heq.symm
    rw [put, if_neg hother, ih h.2, List.cons_append]

theorem putAll_new {xs : List α} (h : ((l ++ xs).map key).Nodup) : putAll key xs l = l ++ xs := by
  induction xs generalizing l with
  | nil => exact (List.append_nil l).symm
  | cons x xs ih =>
    have hnew : key x ∉ l.map key := by
      rw [List.map_append, List.map_cons, List.nodup_middle, List.nodup_cons, List.mem_append,
        not_or] at h
      exact h.1.1
    have hrest : ((l ++ [x] ++ xs).map key).Nodup := by
      rw [List.append_assoc]
      exact h
    have hcons : putAll key (x :: xs) l = putAll key xs (put key x l) := rfl
    rw [hcons, put_new hnew, ih hrest, List.append_assoc]
    rfl

theorem mem_put_self : x ∈ put key x l := by
  induction l with
  | nil => exact List.mem_cons_self
  | cons y l ih =>
    unfold put
    split
    · exact List.mem_cons_self
    · exact List.mem_cons_of_mem _ ih

theorem mem_put_of_ne {z : α} (hz : z ∈ l) (hne : key z ≠ key x) : z ∈ put key x l := by
  induction l with
  | nil => cases hz
  | cons y l ih =>
    unfold put
    rcases List.mem_cons.mp hz with rfl | hz
    · rw [if_neg hne]
      exact List.mem_cons_self
    · split
      · exact List.mem_cons_of_mem _ hz
      · exact List.mem_cons_of_mem _ (ih hz)

theorem mem_putAll_of_not_mem {xs : List α} {z : α} (hz : z ∈ l) (hne : key z ∉ xs.map key) :
    z ∈ putAll key xs l := by
  induction xs generalizing l with
  | nil => exact hz
  | cons x xs ih =>
    rw [List.map_cons, List.mem_cons, not_or] at hne
    exact ih (mem_put_of_ne hz hne.1) hne.2

/-- Rows with different keys are all there once they are put. -/
theorem mem_putAll {xs : List α} (h : (xs.map key).Nodup) (hx : x ∈ xs) : x ∈ putAll key xs l := by
  induction xs generalizing l with
  | nil => cases hx
  | cons y xs ih =>
    rw [List.map_cons, List.nodup_cons] at h
    have hcons : putAll key (y :: xs) l = putAll key xs (put key y l) := rfl
    rw [hcons]
    rcases List.mem_cons.mp hx with rfl | hx
    · exact mem_putAll_of_not_mem mem_put_self h.1
    · exact ih h.2 hx

theorem find_of_mem (h : (l.map key).Nodup) (hx : x ∈ l) :
    l.find? (fun y => key y = key x) = some x := by
  induction l with
  | nil => cases hx
  | cons y l ih =>
    rw [List.map_cons, List.nodup_cons] at h
    rw [List.find?_cons]
    rcases List.mem_cons.mp hx with rfl | hmem
    · rw [decide_eq_true rfl]
    · have hne : key y ≠ key x := fun heq => h.1 (heq ▸ List.mem_map_of_mem hmem)
      rw [decide_eq_false hne]
      exact ih h.2 hmem

theorem find_of_not_mem {k : κ} (h : k ∉ l.map key) : l.find? (fun y => key y = k) = none := by
  refine List.find?_eq_none.mpr fun y hy hk => h ?_
  exact of_decide_eq_true hk ▸ List.mem_map_of_mem hy

theorem exists_of_mem_left {β : Type*} {R : α → β → Prop} {l' : List β} (h : List.Forall₂ R l l')
    (hx : x ∈ l) : ∃ y ∈ l', R x y := by
  induction h with
  | nil => cases hx
  | @cons a b l l' hab _ ih =>
    rcases List.mem_cons.mp hx with rfl | hx
    · exact ⟨b, List.mem_cons_self, hab⟩
    · obtain ⟨y, hy, hxy⟩ := ih hx
      exact ⟨y, List.mem_cons_of_mem _ hy, hxy⟩

theorem exists_of_mem_right {β : Type*} {R : α → β → Prop} {l' : List β} {y : β}
    (h : List.Forall₂ R l l') (hy : y ∈ l') : ∃ x ∈ l, R x y :=
  exists_of_mem_left h.flip hy

/-- Rows that are put behind those they belong to, or directly beside them. -/
theorem map_append_flatMap_perm {β : Type*} (f : α → β) (g : α → List β) (l : List α) :
    (l.map f ++ l.flatMap g).Perm (l.flatMap fun x => f x :: g x) := by
  induction l with
  | nil => exact .nil
  | cons x l ih =>
    rw [List.map_cons, List.flatMap_cons, List.flatMap_cons, List.cons_append, List.cons_append]
    refine .cons _ (.trans ?_ (ih.append_left (g x)))
    rw [← List.append_assoc, ← List.append_assoc]
    exact List.perm_append_comm.append_right _

end Rows

section Labels
variable {n m : Nat}

/-- A word with a number behind it. -/
def label (word : String) (n : Nat) : String := word ++ toString n

theorem label_inj {word : String} (h : label word n = label word m) : n = m :=
  Nat.repr_injective ((String.append_right_inj word).mp h)

/-- Words that begin differently make different labels. -/
theorem label_ne {c d : Char} {word word' : List Char} (h : c ≠ d) :
    label (String.ofList (c :: word)) n ≠ label (String.ofList (d :: word')) m := by
  intro heq
  have hlist := congrArg String.toList heq
  simp only [label, String.toList_append, String.toList_ofList, List.cons_append,
    List.cons.injEq] at hlist
  exact h hlist.1

end Labels

end Codinalte.Keyed
