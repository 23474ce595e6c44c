import Mathlib.Data.List.Basic
import Mathlib.Data.Option.Basic
import Mathlib.Logic.Function.Basic

/-! Partial steps labelled by actions, their finite runs, and the rules that carry an
invariant from one step to a whole run. A step returns `none` where the action is not
possible in the state. -/

namespace Codinalte.Machine
variable {σ α : Type*} {step : σ → α → Option σ}

def run (step : σ → α → Option σ) : σ → List α → Option σ
  | s, [] => some s
  | s, a :: as => (step s a).bind fun t => run step t as

/-- Every action of the run meets `ok` in the state it is taken from. -/
def Meets (step : σ → α → Option σ) (ok : σ → α → Prop) : σ → List α → Prop
  | _, [] => True
  | s, a :: as => ok s a ∧ ∀ t, step s a = some t → Meets step ok t as

@[simp] theorem run_nil (s : σ) : run step s [] = some s := rfl

@[simp] theorem run_cons (s : σ) (a : α) (as : List α) :
    run step s (a :: as) = (step s a).bind fun t => run step t as := rfl

@[simp] theorem meets_nil (ok : σ → α → Prop) (s : σ) : Meets step ok s [] := trivial

theorem run_cons_eq_some {s u : σ} {a : α} {as : List α} :
    run step s (a :: as) = some u ↔ ∃ t, step s a = some t ∧ run step t as = some u := by
  rw [run_cons, Option.bind_eq_some_iff]

theorem run_append (s : σ) (as bs : List α) :
    run step s (as ++ bs) = (run step s as).bind fun t => run step t bs := by
  induction as generalizing s with
  | nil => rfl
  | cons a as ih =>
    simp only [List.cons_append, run_cons, Option.bind_assoc]
    congr 1
    funext t
    exact ih t

theorem run_snoc {s t u : σ} {as : List α} {a : α} (h : run step s as = some t)
    (hstep : step t a = some u) : run step s (as ++ [a]) = some u := by
  rw [run_append, h]
  simp [hstep]

/-- What one step preserves, a run preserves. -/
theorem run_induction {P : σ → Prop}
    (hstep : ∀ s a t, P s → step s a = some t → P t)
    {s u : σ} {as : List α} (hs : P s) (h : run step s as = some u) : P u := by
  induction as generalizing s with
  | nil =>
    cases h
    exact hs
  | cons a as ih =>
    obtain ⟨t, hst, hrun⟩ := run_cons_eq_some.mp h
    exact ih (hstep s a t hs hst) hrun

/-- What one step preserves under `ok`, a run whose steps all meet `ok` preserves. -/
theorem run_induction_of_meets {P : σ → Prop} {ok : σ → α → Prop}
    (hstep : ∀ s a t, P s → ok s a → step s a = some t → P t)
    {s u : σ} {as : List α} (hs : P s) (hok : Meets step ok s as)
    (h : run step s as = some u) : P u := by
  induction as generalizing s with
  | nil =>
    cases h
    exact hs
  | cons a as ih =>
    obtain ⟨t, hst, hrun⟩ := run_cons_eq_some.mp h
    exact ih (hstep s a t hs hok.1 hst) (hok.2 t hst) hrun

/-- Where `ok` makes the step possible, a run whose steps all meet it goes to its end. -/
theorem run_of_meets {P : σ → Prop} {ok : σ → α → Prop}
    (hstep : ∀ s a, P s → ok s a → ∃ t, step s a = some t ∧ P t)
    {s : σ} {as : List α} (hs : P s) (hok : Meets step ok s as) :
    ∃ u, run step s as = some u ∧ P u := by
  induction as generalizing s with
  | nil => exact ⟨s, rfl, hs⟩
  | cons a as ih =>
    obtain ⟨t, hst, ht⟩ := hstep s a hs hok.1
    obtain ⟨u, hrun, hu⟩ := ih ht (hok.2 t hst)
    exact ⟨u, run_cons_eq_some.mpr ⟨t, hst, hrun⟩, hu⟩

theorem meets_cons {ok : σ → α → Prop} {s : σ} {a : α} {as : List α} :
    Meets step ok s (a :: as) ↔ ok s a ∧ ∀ t, step s a = some t → Meets step ok t as := Iff.rfl

theorem meets_cons_of_eq {ok : σ → α → Prop} {s t : σ} {a : α} {as : List α}
    (h : step s a = some t) : Meets step ok s (a :: as) ↔ ok s a ∧ Meets step ok t as := by
  rw [meets_cons, h]
  simp

theorem Meets.imp {ok ok' : σ → α → Prop} (hok : ∀ s a, ok s a → ok' s a) {s : σ} {as : List α}
    (h : Meets step ok s as) : Meets step ok' s as := by
  induction as generalizing s with
  | nil => trivial
  | cons a as ih => exact ⟨hok s a h.1, fun t hst => ih (h.2 t hst)⟩

instance decidableMeets {ok : σ → α → Prop} [∀ s a, Decidable (ok s a)] :
    ∀ (s : σ) (as : List α), Decidable (Meets step ok s as)
  | _, [] => .isTrue trivial
  | s, a :: as =>
    match h : step s a with
    | none => decidable_of_iff (ok s a) (by simp [meets_cons, h])
    | some t =>
      have : Decidable (Meets step ok t as) := decidableMeets t as
      decidable_of_iff (ok s a ∧ Meets step ok t as) (meets_cons_of_eq h).symm

section Each
variable {ι : Type*} [DecidableEq ι] {steps : ι → σ → α → Option σ}

/-- A family of machines that do not touch each other. -/
def each (steps : ι → σ → α → Option σ) (s : ι → σ) (a : ι × α) : Option (ι → σ) :=
  (steps a.1 (s a.1) a.2).map (Function.update s a.1)

/-- The actions of one machine of the family. -/
def actionsOf (i : ι) (as : List (ι × α)) : List α :=
  as.filterMap fun a => if a.1 = i then some a.2 else none

/-- A run of the family is a run of each of its machines. -/
theorem run_of_each {ok : ι → σ → α → Prop} {s t : ι → σ} {as : List (ι × α)} (i : ι)
    (hok : Meets (each steps) (fun s a => ok a.1 (s a.1) a.2) s as)
    (h : run (each steps) s as = some t) :
    Meets (steps i) (ok i) (s i) (actionsOf i as) ∧
      run (steps i) (s i) (actionsOf i as) = some (t i) := by
  induction as generalizing s with
  | nil =>
    cases h
    exact ⟨trivial, rfl⟩
  | cons a as ih =>
    obtain ⟨u, hstep, hrun⟩ := run_cons_eq_some.mp h
    obtain ⟨v, hv, rfl⟩ := Option.map_eq_some_iff.mp hstep
    obtain ⟨hmeets, hrest⟩ := ih (hok.2 _ hstep) hrun
    by_cases hi : a.1 = i
    · subst hi
      rw [Function.update_self] at hmeets hrest
      have hcons : actionsOf a.1 (a :: as) = a.2 :: actionsOf a.1 as := by
        rw [actionsOf, List.filterMap_cons, if_pos rfl]
        rfl
      rw [hcons]
      refine ⟨(meets_cons_of_eq hv).mpr ⟨hok.1, hmeets⟩, run_cons_eq_some.mpr ⟨v, hv, hrest⟩⟩
    · rw [Function.update_of_ne (Ne.symm hi)] at hmeets hrest
      have hskip : actionsOf i (a :: as) = actionsOf i as := by
        rw [actionsOf, List.filterMap_cons, if_neg hi]
        rfl
      rw [hskip]
      exact ⟨hmeets, hrest⟩

end Each

end Codinalte.Machine
