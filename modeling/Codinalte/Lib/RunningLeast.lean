import Mathlib.Data.List.Basic
import Mathlib.Data.List.Nodup
import Mathlib.Order.Lattice

/-! The least entry of a list by a key, the least ones so far while the list is read, and the lists
that hold the least entries of another one. -/

namespace Codinalte.RunningLeast
variable {α κ : Type*} [LinearOrder κ] (key : α → κ)

def least (m x : α) : α := if key x < key m then x else m

def leastOf (m : α) (l : List α) : α := l.foldl (least key) m

def leasts (m : α) : List α → List α
  | [] => []
  | x :: xs => least key m x :: leasts (least key m x) xs

variable {key} {m x y : α} {l : List α}

theorem key_least_le_left : key (least key m x) ≤ key m := by
  unfold least
  split_ifs with h
  · exact h.le
  · exact le_rfl

theorem key_least_le_right : key (least key m x) ≤ key x := by
  unfold least
  split_ifs with h
  · exact le_rfl
  · exact not_lt.mp h

theorem least_eq : least key m x = m ∨ least key m x = x := by
  unfold least
  split_ifs
  · exact .inr rfl
  · exact .inl rfl

theorem least_of_mem : leastOf key m l ∈ m :: l := by
  unfold leastOf
  induction l generalizing m with
  | nil => exact List.mem_cons_self
  | cons x l ih =>
    rw [List.foldl_cons]
    rcases List.mem_cons.mp (ih (m := least key m x)) with h | h
    · have heq : least key m x = m ∨ least key m x = x := least_eq
      rw [h]
      rcases heq with heq | heq
      · rw [heq]
        exact List.mem_cons_self
      · rw [heq]
        exact List.mem_cons_of_mem _ List.mem_cons_self
    · exact List.mem_cons_of_mem _ (List.mem_cons_of_mem _ h)

theorem least_of_le : ∀ y ∈ m :: l, key (leastOf key m l) ≤ key y := by
  unfold leastOf
  induction l generalizing m with
  | nil =>
    intro y hy
    rw [List.mem_singleton.mp hy]
    exact le_rfl
  | cons x l ih =>
    have hleast : key (l.foldl (least key) (least key m x)) ≤ key (least key m x) :=
      ih _ List.mem_cons_self
    intro y hy
    rw [List.foldl_cons]
    rcases List.mem_cons.mp hy with rfl | hy
    · exact hleast.trans key_least_le_left
    · rcases List.mem_cons.mp hy with rfl | hy
      · exact hleast.trans key_least_le_right
      · exact ih y (List.mem_cons_of_mem _ hy)

theorem length_leasts : (leasts key m l).length = l.length := by
  induction l generalizing m with
  | nil => rfl
  | cons x l ih => exact congrArg (· + 1) ih

theorem leasts_eq (h : (m :: l).Pairwise fun a b => key b < key a) : leasts key m l = l := by
  induction l generalizing m with
  | nil => rfl
  | cons x l ih =>
    have hx : least key m x = x := if_pos (List.rel_of_pairwise_cons h List.mem_cons_self)
    rw [leasts, hx, ih h.of_cons]

/-- No entry is the least one twice when each is below all before it, and only then. -/
theorem nodup_leasts_iff :
    (m :: leasts key m l).Nodup ↔ (m :: l).Pairwise fun a b => key b < key a := by
  induction l generalizing m with
  | nil => exact iff_of_true (List.nodup_singleton m) (List.pairwise_singleton _ m)
  | cons x l ih =>
    constructor
    · intro h
      have hx : key x < key m := by
        by_contra hx
        have hm : least key m x = m := if_neg hx
        rw [leasts, hm] at h
        exact (List.nodup_cons.mp h).1 List.mem_cons_self
      have hleast : least key m x = x := if_pos hx
      rw [leasts, hleast] at h
      have hrest := ih.mp (List.nodup_cons.mp h).2
      refine List.pairwise_cons.mpr ⟨fun y hy => ?_, hrest⟩
      rcases List.mem_cons.mp hy with rfl | hy
      · exact hx
      · exact (List.rel_of_pairwise_cons hrest hy).trans hx
    · intro h
      rw [leasts_eq h]
      exact h.imp fun hlt heq => hlt.ne (congrArg key heq.symm)

/-- The same with each entry against all before it. -/
theorem pairwise_least_of_iff {first rest : List α} :
    ((leastOf key m first :: rest).Pairwise fun a b => key b < key a) ↔
      ∀ before y after, m :: first ++ rest = before ++ y :: after →
        first.length < before.length → ∀ z ∈ before, key y < key z := by
  constructor
  · intro h before y after heq hlength z hz
    obtain ⟨later, rfl⟩ : m :: first <+: before :=
      List.prefix_of_prefix_length_le (List.prefix_append _ rest)
        (heq.symm ▸ List.prefix_append _ _) hlength
    rw [List.append_assoc, List.append_cancel_left_eq] at heq
    rw [heq] at h
    have hy : key y < key (leastOf key m first) :=
      List.rel_of_pairwise_cons h (List.mem_append_right _ List.mem_cons_self)
    rcases List.mem_append.mp hz with hz | hz
    · exact hy.trans_le (least_of_le z hz)
    · exact (List.pairwise_append.mp h.of_cons).2.2 z hz y List.mem_cons_self
  · intro h
    refine List.pairwise_cons.mpr ⟨fun y hy => ?_, List.pairwise_iff_getElem.mpr ?_⟩
    · obtain ⟨before, after, rfl⟩ := List.append_of_mem hy
      refine h (m :: first ++ before) y after (List.append_assoc _ _ _).symm ?_ _
        (List.mem_append_left _ least_of_mem)
      rw [List.length_append, List.length_cons]
      omega
    · intro i j hi hj hij
      have hsplit : rest = rest.take j ++ rest[j] :: rest.drop (j + 1) := by
        rw [← List.drop_eq_getElem_cons hj, List.take_append_drop]
      refine h (m :: first ++ rest.take j) _ (rest.drop (j + 1)) ?_ ?_ _
        (List.mem_append_right _ ?_)
      · rw [List.append_assoc, ← hsplit]
      · rw [List.length_append, List.length_cons]
        omega
      · exact List.mem_take_iff_getElem.mpr ⟨i, by omega, rfl⟩

/-- Some entries of a list, each once, with all others above them. -/
structure Lowest (key : α → κ) (l removed : List α) (n : Nat) : Prop where
  nodup : removed.Nodup
  subset : ∀ a ∈ removed, a ∈ l
  length : removed.length = n
  lt : ∀ a ∈ removed, ∀ b ∈ l, b ∉ removed → key a < key b

theorem Lowest.perm {l l' removed : List α} {n : Nat} (h : Lowest key l removed n)
    (hperm : l.Perm l') : Lowest key l' removed n :=
  ⟨h.nodup, fun a ha => hperm.subset (h.subset a ha), h.length,
    fun a ha b hb => h.lt a ha b (hperm.symm.subset hb)⟩

/-- The least of the first entries and all that follow are the lowest ones, when each that follows
is below all before it. -/
theorem lowest_of_pairwise {first rest : List α} (hinj : ((m :: first).map key).Nodup)
    (h : (leastOf key m first :: rest).Pairwise fun a b => key b < key a) :
    Lowest key (m :: first ++ rest) (leastOf key m first :: rest) (rest.length + 1) := by
  have hle : ∀ a ∈ leastOf key m first :: rest, ∀ b ∈ m :: first, key a ≤ key b := by
    intro a ha b hb
    rcases List.mem_cons.mp ha with rfl | ha
    · exact least_of_le b hb
    · exact (List.rel_of_pairwise_cons h ha).le.trans (least_of_le b hb)
  refine ⟨h.imp fun hlt heq => hlt.ne (congrArg key heq.symm), fun a ha => ?_, rfl,
    fun a ha b hb hnot => ?_⟩
  · rcases List.mem_cons.mp ha with rfl | ha
    · exact List.mem_append_left _ least_of_mem
    · exact List.mem_append_right _ ha
  · rcases List.mem_append.mp hb with hb | hb
    · have hne : leastOf key m first ≠ b := fun heq => hnot (heq ▸ List.mem_cons_self)
      have hlt : key (leastOf key m first) < key b := (least_of_le b hb).lt_of_ne fun heq =>
        hne (List.inj_on_of_nodup_map hinj least_of_mem hb heq)
      rcases List.mem_cons.mp ha with rfl | ha
      · exact hlt
      · exact (List.rel_of_pairwise_cons h ha).trans hlt
    · exact absurd (List.mem_cons_of_mem _ hb) hnot

/-- What is left is as many as it should be, and above all that is not. -/
theorem Lowest.left [DecidableEq α] {l removed : List α} {n : Nat} (h : Lowest key l removed n)
    (hl : l.Nodup) : (l.filter (· ∉ removed)).length = l.length - n ∧
      ∀ a ∈ l.filter (· ∉ removed), ∀ b ∈ l, b ∉ l.filter (· ∉ removed) → key b < key a := by
  constructor
  · have hperm : (l.filter (· ∈ removed)).Perm removed := by
      refine (List.perm_ext_iff_of_nodup (hl.filter _) h.nodup).mpr fun a => ?_
      rw [List.mem_filter, decide_eq_true_iff]
      exact ⟨fun ha => ha.2, fun ha => ⟨h.subset a ha, ha⟩⟩
    have hsum := List.length_eq_length_filter_add (l := l) (· ∈ removed)
    rw [hperm.length_eq, h.length] at hsum
    have hnot : l.filter (fun a => !decide (a ∈ removed)) = l.filter (· ∉ removed) := by
      refine List.filter_congr fun a _ => ?_
      rw [decide_not]
    rw [hnot] at hsum
    omega
  · intro a ha b hb hnot
    rw [List.mem_filter, decide_eq_true_iff] at ha
    have hb' : b ∈ removed := by
      by_contra hb'
      exact hnot (List.mem_filter.mpr ⟨hb, decide_eq_true hb'⟩)
    exact h.lt b hb' a ha.1 ha.2

end Codinalte.RunningLeast
