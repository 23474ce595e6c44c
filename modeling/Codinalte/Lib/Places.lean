import Mathlib.Data.List.Perm.Basic
import Mathlib.Data.List.Nodup
import Mathlib.Logic.Function.Basic
import Mathlib.Logic.ExistsUnique

/-! Tokens that wander between places: each token that is alive is at one place, once. A token is
put somewhere when it is made, is moved, and is taken away for good. -/

namespace Codinalte.Places
variable {P E : Type*}

section Kept
variable {contents : P → List E} {live : List E} {p q : P} {e : E} {rest : List E}

structure Kept (contents : P → List E) (live : List E) : Prop where
  nodup : live.Nodup
  once : ∀ p, (contents p).Nodup
  apart : ∀ p q e, e ∈ contents p → e ∈ contents q → p = q
  covered : ∀ e, e ∈ live ↔ ∃ p, e ∈ contents p

theorem kept_nil : Kept (fun _ : P => ([] : List E)) [] where
  nodup := List.nodup_nil
  once := fun _ => List.nodup_nil
  apart := fun _ _ _ h => absurd h List.not_mem_nil
  covered := fun _ => ⟨fun h => absurd h List.not_mem_nil, fun ⟨_, h⟩ => absurd h List.not_mem_nil⟩

theorem Kept.place (h : Kept contents live) (he : e ∈ live) : ∃! p, e ∈ contents p := by
  obtain ⟨p, hp⟩ := (h.covered e).mp he
  exact ⟨p, hp, fun q hq => h.apart q p e hq hp⟩

theorem Kept.mem_live (h : Kept contents live) (he : e ∈ contents p) : e ∈ live :=
  (h.covered e).mpr ⟨p, he⟩

theorem Kept.perm {live' : List E} (h : Kept contents live) (hperm : live.Perm live') :
    Kept contents live' where
  nodup := hperm.nodup_iff.mp h.nodup
  once := h.once
  apart := h.apart
  covered := fun e => hperm.mem_iff.symm.trans (h.covered e)

variable [DecidableEq P]

theorem mem_update {l : List E} : e ∈ Function.update contents p l q ↔
    (q = p ∧ e ∈ l) ∨ (q ≠ p ∧ e ∈ contents q) := by
  by_cases hq : q = p
  · subst hq
    simp
  · simp [hq]

/-- A token is made. -/
theorem Kept.put (h : Kept contents live) (hnew : e ∉ live) :
    Kept (Function.update contents p (contents p ++ [e])) (live ++ [e]) := by
  have hnot : ∀ q, e ∉ contents q := fun q hq => hnew (h.mem_live hq)
  have hmem : ∀ q x, x ∈ Function.update contents p (contents p ++ [e]) q ↔
      x ∈ contents q ∨ (q = p ∧ x = e) := by
    intro q x
    rw [mem_update, List.mem_append, List.mem_singleton]
    by_cases hq : q = p
    · subst hq
      simp
    · simp [hq]
  refine ⟨?_, ?_, ?_, ?_⟩
  · exact h.nodup.append (List.nodup_singleton e) (List.disjoint_singleton.mpr hnew)
  · intro q
    by_cases hq : q = p
    · subst hq
      rw [Function.update_self]
      exact (h.once q).append (List.nodup_singleton e) (List.disjoint_singleton.mpr (hnot q))
    · rw [Function.update_of_ne hq]
      exact h.once q
  · intro q r x hq hr
    rcases (hmem q x).mp hq with hq' | ⟨hqp, hx⟩
    · rcases (hmem r x).mp hr with hr' | ⟨-, hx⟩
      · exact h.apart q r x hq' hr'
      · rw [hx] at hq'
        exact absurd hq' (hnot q)
    · rcases (hmem r x).mp hr with hr' | ⟨hrp, -⟩
      · rw [hx] at hr'
        exact absurd hr' (hnot r)
      · exact hqp.trans hrp.symm
  · intro x
    rw [List.mem_append, List.mem_singleton, h.covered x]
    constructor
    · rintro (⟨q, hq⟩ | rfl)
      · exact ⟨q, (hmem q x).mpr (Or.inl hq)⟩
      · exact ⟨p, (hmem p x).mpr (Or.inr ⟨rfl, rfl⟩)⟩
    · rintro ⟨q, hq⟩
      rcases (hmem q x).mp hq with hq | ⟨-, rfl⟩
      · exact Or.inl ⟨q, hq⟩
      · exact Or.inr rfl

variable [BEq E] [LawfulBEq E]

/-- A token is taken away. -/
theorem Kept.take (h : Kept contents live) (hperm : (contents p).Perm (e :: rest)) :
    Kept (Function.update contents p rest) (live.erase e) := by
  have hhere : e ∈ contents p := hperm.mem_iff.mpr List.mem_cons_self
  have hcons : (e :: rest).Nodup := hperm.nodup_iff.mp (h.once p)
  -- only the token itself leaves: it was here once, and nowhere else
  have hmem : ∀ q x, x ∈ Function.update contents p rest q ↔ x ∈ contents q ∧ x ≠ e := by
    intro q x
    rw [mem_update]
    by_cases hq : q = p
    · subst hq
      rw [hperm.mem_iff, List.mem_cons]
      constructor
      · rintro (⟨-, hx⟩ | ⟨hne, -⟩)
        · exact ⟨Or.inr hx, fun heq => (List.nodup_cons.mp hcons).1 (heq ▸ hx)⟩
        · exact absurd rfl hne
      · rintro ⟨heq | hx, hne⟩
        · exact absurd heq hne
        · exact Or.inl ⟨rfl, hx⟩
    · constructor
      · rintro (⟨heq, -⟩ | ⟨-, hx⟩)
        · exact absurd heq hq
        · exact ⟨hx, fun heq => hq (h.apart q p e (heq ▸ hx) hhere)⟩
      · exact fun hx => Or.inr ⟨hq, hx.1⟩
  refine ⟨h.nodup.erase e, ?_, ?_, ?_⟩
  · intro q
    by_cases hq : q = p
    · subst hq
      rw [Function.update_self]
      exact (List.nodup_cons.mp hcons).2
    · rw [Function.update_of_ne hq]
      exact h.once q
  · exact fun q r x hq hr => h.apart q r x ((hmem q x).mp hq).1 ((hmem r x).mp hr).1
  · intro x
    rw [h.nodup.mem_erase_iff, h.covered x]
    constructor
    · rintro ⟨hne, q, hq⟩
      exact ⟨q, (hmem q x).mpr ⟨hq, hne⟩⟩
    · rintro ⟨q, hq⟩
      obtain ⟨hq, hne⟩ := (hmem q x).mp hq
      exact ⟨hne, q, hq⟩

/-- A token is moved to the end of another place. -/
theorem Kept.move (h : Kept contents live) (hpq : q ≠ p)
    (hperm : (contents p).Perm (e :: rest)) :
    Kept (Function.update (Function.update contents p rest) q (contents q ++ [e])) live := by
  have he : e ∈ live := h.mem_live (hperm.mem_iff.mpr List.mem_cons_self)
  have hgone : e ∉ live.erase e := fun hmem => (h.nodup.mem_erase_iff.mp hmem).1 rfl
  have hput := (h.take hperm).put (p := q) hgone
  rw [Function.update_of_ne hpq] at hput
  refine hput.perm ?_
  exact (List.perm_append_singleton e _).trans (List.perm_cons_erase he).symm

/-- How many tokens of a kind are alive once one is taken away. -/
theorem countP_erase_add (f : E → Bool) (he : e ∈ live) :
    (live.erase e).countP f + (if f e then 1 else 0) = live.countP f := by
  rw [(List.perm_cons_erase he).countP_eq f, List.countP_cons]

end Kept

section Ledger
variable {made live freed : List E} {e : E}

/-- What was made is alive or was taken away for good, and nothing was made twice. -/
structure Accounted (made live freed : List E) : Prop where
  nodup : made.Nodup
  perm : made.Perm (live ++ freed)

theorem Accounted.made_of_live (h : Accounted made live freed) (he : e ∈ live) : e ∈ made :=
  h.perm.mem_iff.mpr (List.mem_append_left _ he)

theorem Accounted.freed_once (h : Accounted made live freed) :
    freed.Nodup ∧ ∀ e ∈ freed, e ∉ live := by
  have hparts := List.nodup_append.mp (h.perm.nodup_iff.mp h.nodup)
  exact ⟨hparts.2.1, fun e hfreed hlive => hparts.2.2 e hlive e hfreed rfl⟩

theorem Accounted.make (h : Accounted made live freed) (hnew : e ∉ made) :
    Accounted (made ++ [e]) (live ++ [e]) freed where
  nodup := h.nodup.append (List.nodup_singleton e) (List.disjoint_singleton.mpr hnew)
  perm := by
    have hperm := h.perm.append_right [e]
    rw [List.append_assoc] at hperm
    refine hperm.trans ?_
    rw [List.append_assoc]
    exact List.Perm.append_left live List.perm_append_comm

theorem Accounted.free [BEq E] [LawfulBEq E] (h : Accounted made live freed) (he : e ∈ live) :
    Accounted made (live.erase e) (freed ++ [e]) where
  nodup := h.nodup
  perm := by
    rw [← List.append_assoc]
    refine (h.perm.trans ?_).trans (List.perm_append_singleton e _).symm
    exact (List.perm_cons_erase he).append_right freed

end Ledger

section Spread
variable {K Q T : Type*}

/-- The places of a system whose parties `K` have a queue each, share the queues `Q`, and whose
agents `T` have hands. -/
inductive Place (K Q T : Type*) where
  | own (k : K)
  | shared (q : Q)
  | hands (t : T)
deriving DecidableEq

def spread (own : K → List E) (shared : Q → List E) (hands : T → List E) : Place K Q T → List E
  | .own k => own k
  | .shared q => shared q
  | .hands t => hands t

variable [DecidableEq K] [DecidableEq Q] [DecidableEq T]
variable (own : K → List E) (shared : Q → List E) (hands : T → List E) (l : List E)

theorem spread_own (k : K) : spread (Function.update own k l) shared hands =
    Function.update (spread own shared hands) (.own k) l := by
  funext p
  by_cases hp : p = .own k
  · subst hp
    rw [Function.update_self]
    exact Function.update_self ..
  · rw [Function.update_of_ne hp]
    cases p with
    | own j => exact Function.update_of_ne (fun heq => hp (congrArg _ heq)) _ _
    | shared _ => rfl
    | hands _ => rfl

theorem spread_shared (q : Q) : spread own (Function.update shared q l) hands =
    Function.update (spread own shared hands) (.shared q) l := by
  funext p
  by_cases hp : p = .shared q
  · subst hp
    rw [Function.update_self]
    exact Function.update_self ..
  · rw [Function.update_of_ne hp]
    cases p with
    | own _ => rfl
    | shared j => exact Function.update_of_ne (fun heq => hp (congrArg _ heq)) _ _
    | hands _ => rfl

theorem spread_hands (t : T) : spread own shared (Function.update hands t l) =
    Function.update (spread own shared hands) (.hands t) l := by
  funext p
  by_cases hp : p = .hands t
  · subst hp
    rw [Function.update_self]
    exact Function.update_self ..
  · rw [Function.update_of_ne hp]
    cases p with
    | own _ => rfl
    | shared _ => rfl
    | hands j => exact Function.update_of_ne (fun heq => hp (congrArg _ heq)) _ _

end Spread

section Update
variable {K A : Type*} [DecidableEq K]

theorem isSome_update {f : K → Option A} {k : K} {a : A} (h : (f k).isSome = true) (j : K) :
    (Function.update f k (some a) j).isSome = (f j).isSome := by
  by_cases hj : j = k
  · subst hj
    rw [Function.update_self, h]
    rfl
  · rw [Function.update_of_ne hj]

theorem isSome_update_self {f : K → Option A} {k : K} (a : A) :
    (Function.update f k (some a) k).isSome = true := by
  rw [Function.update_self]
  rfl

/-- What holds of the tokens at each place. -/
theorem forall_mem_update {f : K → List E} {P : K → E → Prop} {k : K} {l : List E}
    (h : ∀ j, ∀ e ∈ f j, P j e) (hl : ∀ e ∈ l, P k e) (j : K) :
    ∀ e ∈ Function.update f k l j, P j e := by
  by_cases hj : j = k
  · subst hj
    rw [Function.update_self]
    exact hl
  · rw [Function.update_of_ne hj]
    exact h j

theorem forall_mem_update_some {f : K → Option (List E)} {P : K → E → Prop} {k : K} {l : List E}
    (h : ∀ j m, f j = some m → ∀ e ∈ m, P j e) (hl : ∀ e ∈ l, P k e) (j : K) (m : List E)
    (hm : Function.update f k (some l) j = some m) : ∀ e ∈ m, P j e := by
  by_cases hj : j = k
  · subst hj
    rw [Function.update_self] at hm
    cases hm
    exact hl
  · rw [Function.update_of_ne hj] at hm
    exact h j m hm

end Update

end Codinalte.Places
