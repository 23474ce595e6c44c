import Codinalte.Graph.Check
import Mathlib.Logic.Relation

/-! The lookups as steps along binds: an end of a bind leads to the next one until nothing is bound
there, and what a lookup returns is read off that last end. -/

namespace Codinalte.Graph
open Codinalte.Checks

/-- An interface of a component, seen from the component that calls it, or from the one that serves
it. -/
inductive End where
  | client (place : Place) (itf : ItfName)
  | server (place : Place) (itf : ItfName)

namespace End

def place : End → Place
  | .client place _ => place
  | .server place _ => place

/-- The bind that is followed from an end, in the composite that holds it. -/
def bindAt : End → Option (Place × Bind)
  | .client ⟨_, []⟩ _ => none
  | .client ⟨component, owner :: owners⟩ itf =>
    (bindOf owner.getBinds component.nameinowner itf).map fun sb => (⟨owner, owners⟩, sb)
  | .server place itf =>
    if (place.component.getProvide itf.getNameOfInterfaceCollection).isSome then
      (bindOf place.component.getBinds "this" itf).map fun sb => (place, sb)
    else none

/-- The other end of a bind. -/
def across (e : End) (composite : Place) (sb : Bind) : Option End :=
  match e with
  | .client .. =>
    if sb.to_ = "this" then some (.client composite sb.toitf)
    else (composite.getFcSubComponent sb.to_).map fun sc => .server sc sb.toitf
  | .server .. => (composite.getFcSubComponent sb.to_).map fun sc => .server sc sb.toitf

def next (e : End) : Option End := e.bindAt.bind fun (composite, sb) => e.across composite sb

/-- What a lookup returns at an end that leads nowhere. -/
def last : End → Lookup
  | .client ⟨component, []⟩ itf =>
    match component.getRequire itf.getNameOfInterfaceCollection with
    | none => .nullPointer
    | some require => .returned (some ⟨none, require.name, itf.getIndexOfInterfaceCollection⟩)
  | .client ⟨component, owner :: _⟩ itf =>
    match bindOf owner.getBinds component.nameinowner itf with
    | none => .returned none
    | some _ => .nullPointer
  | .server place itf =>
    match place.component, place.component.getProvide itf.getNameOfInterfaceCollection with
    | _, none => .returned none
    | .raw .., some provide =>
      .returned (some ⟨some place, provide.name, itf.getIndexOfInterfaceCollection⟩)
    | .composite _ binds _ _, some _ =>
      match bindOf binds "this" itf with
      | none => .returned none
      | some _ => .nullPointer

def look (fuel : Nat) : End → Lookup
  | .client place itf => lookupFc fuel place.component place.owners itf
  | .server place itf => getFcInterface fuel place itf

end End

def Leads : End → End → Prop := Relation.ReflTransGen fun e e' => e.next = some e'

/-- The bind is one of those that are followed from the end. -/
def Followed (e : End) (composite : Place) (sb : Bind) : Prop :=
  ∃ e', Leads e e' ∧ e'.bindAt = some (composite, sb)

/-- A lookup returns this, however much fuel is left. -/
def Yields (e : End) (l : Lookup) : Prop := ∃ n, ∀ fuel ≥ n, e.look fuel = l

section Look
variable {e e' t : End} {l l' : Lookup}

/-- The one is the other, at once or one call later. -/
def Delayed (f g : Nat → Lookup) : Prop :=
  (∀ fuel, f fuel = g fuel) ∨ (f 0 = .unfinished ∧ ∀ fuel, f (fuel + 1) = g fuel)

theorem Yields.unique (h : Yields e l) (h' : Yields e l') : l = l' := by
  obtain ⟨n, hn⟩ := h
  obtain ⟨n', hn'⟩ := h'
  rw [← hn (max n n') (le_max_left ..), hn' (max n n') (le_max_right ..)]

theorem look_next (h : e.next = some e') : Delayed e.look e'.look := by
  obtain ⟨⟨composite, sb⟩, hbind, hacross⟩ := Option.bind_eq_some_iff.mp h
  cases e with
  | client place itf =>
    refine .inl fun fuel => ?_
    obtain ⟨component, owners⟩ := place
    cases owners with
    | nil => cases hbind
    | cons owner owners =>
      obtain ⟨sb', hsb, heq⟩ := Option.map_eq_some_iff.mp hbind
      cases heq
      simp only [End.look, lookupFc, hsb]
      simp only [End.across] at hacross
      split at hacross
      · next hthis =>
        cases hacross
        rw [if_pos hthis]
      · next hthis =>
        obtain ⟨sc, hsc, rfl⟩ := Option.map_eq_some_iff.mp hacross
        rw [if_neg hthis, hsc]
  | server place itf =>
    refine .inr ⟨rfl, fun fuel => ?_⟩
    simp only [End.bindAt] at hbind
    split at hbind
    · next hprovide =>
      obtain ⟨provide, hprovide⟩ := Option.isSome_iff_exists.mp hprovide
      obtain ⟨sb', hsb, heq⟩ := Option.map_eq_some_iff.mp hbind
      cases heq
      obtain ⟨sc, hsc, rfl⟩ := Option.map_eq_some_iff.mp hacross
      obtain ⟨component, owners⟩ := composite
      cases component with
      | raw decl isFirstInstance kind => cases hsb
      | composite decl binds subcomponents controllercomponents =>
        have hsb' : bindOf binds "this" itf = some sb := hsb
        simp only [End.look, getFcInterface, hprovide, hsb', hsc]
    · cases hbind

theorem look_last (h : e.next = none) : Delayed e.look fun _ => e.last := by
  cases e with
  | client place itf =>
    refine .inl fun fuel => ?_
    obtain ⟨component, owners⟩ := place
    cases owners with
    | nil => rfl
    | cons owner owners =>
      simp only [End.next, End.bindAt] at h
      simp only [End.look, lookupFc, End.last]
      cases hsb : bindOf owner.getBinds component.nameinowner itf with
      | none => rfl
      | some sb =>
        simp only [hsb, Option.map_some, Option.bind_some, End.across] at h
        by_cases hthis : sb.to_ = "this"
        · rw [if_pos hthis] at h
          cases h
        · rw [if_neg hthis] at h
          simp only [if_neg hthis, Option.map_eq_none_iff.mp h]
  | server place itf =>
    refine .inr ⟨rfl, fun fuel => ?_⟩
    obtain ⟨component, owners⟩ := place
    cases hprovide : component.getProvide itf.getNameOfInterfaceCollection with
    | none => simp only [End.look, getFcInterface, End.last, hprovide]
    | some provide =>
      cases component with
      | raw decl isFirstInstance kind => simp only [End.look, getFcInterface, End.last, hprovide]
      | composite decl binds subcomponents controllercomponents =>
        simp only [End.look, getFcInterface, End.last, hprovide]
        cases hsb : bindOf binds "this" itf with
        | none => rfl
        | some sb =>
          have hbind : bindOf (Component.composite decl binds subcomponents
              controllercomponents).getBinds "this" itf = some sb := hsb
          simp only [End.next, End.bindAt, hprovide, Option.isSome_some, if_true, hbind,
            Option.map_some, Option.bind_some, End.across] at h
          simp only [Option.map_eq_none_iff.mp h]

theorem Delayed.yields {f : Nat → Lookup} (h : Delayed e.look f) {n : Nat}
    (hf : ∀ fuel ≥ n, f fuel = l) : Yields e l := by
  rcases h with hsame | ⟨-, hmore⟩
  · exact ⟨n, fun fuel hfuel => (hsame fuel).trans (hf fuel hfuel)⟩
  · refine ⟨n + 1, fun fuel hfuel => ?_⟩
    obtain ⟨fuel, rfl⟩ := Nat.exists_eq_add_of_le' hfuel
    exact (hmore (fuel + n)).trans (hf _ (Nat.le_add_left ..))

/-- A lookup returns what is read off the end that its interface leads to. -/
theorem yields_of_leads (h : Leads e t) (ht : t.next = none) : Yields e t.last := by
  induction h using Relation.ReflTransGen.head_induction_on with
  | refl => exact (look_last ht).yields (n := 0) fun _ _ => rfl
  | head hnext _ ih =>
    obtain ⟨n, hn⟩ := ih
    exact (look_next hnext).yields hn

theorem Delayed.cases {f g : Nat → Lookup} (h : Delayed f g) (hg : ∀ fuel, g fuel = .unfinished ∨
    g fuel = l) (fuel : Nat) : f fuel = .unfinished ∨ f fuel = l := by
  rcases h with hsame | ⟨hzero, hmore⟩
  · rw [hsame]
    exact hg fuel
  · cases fuel with
    | zero => exact .inl hzero
    | succ fuel =>
      rw [hmore]
      exact hg fuel

/-- With less fuel it does not return anything else. -/
theorem look_of_leads (h : Leads e t) (ht : t.next = none) (fuel : Nat) :
    e.look fuel = .unfinished ∨ e.look fuel = t.last := by
  induction h using Relation.ReflTransGen.head_induction_on generalizing fuel with
  | refl => exact (look_last ht).cases (fun _ => .inr rfl) fuel
  | head hnext _ ih => exact (look_next hnext).cases ih fuel

end Look

end Codinalte.Graph
