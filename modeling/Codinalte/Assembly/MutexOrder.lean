import Codinalte.Assembly.Leaves
import Codinalte.Graph.Architecture

/-! Which mutex a binding component puts in its events: whether the mutex of its target was created
before them. -/

namespace Codinalte.Assembly
open Codinalte.Checks Codinalte.Graph Codinalte.Numbering
open Codinalte.Composite (Path Leaf Statement World Instance constructLeaf execStatement execLevel
  execConstruct)

/-- In a composite that holds both, the content that leads to `a` stands before the one that leads
to `b`. -/
def StandsBefore (place a b : Place) : Prop :=
  ∃ composite sc sc', Under place composite ∧ [sc, sc'].Sublist composite.component.contents ∧
    Under (composite.sub sc) a ∧ Under (composite.sub sc') b

def statements (leaves : List Leaf) : List Statement := (leaves.flatMap constructLeaf).flatten

/-- The mutex of the target is created before the events of the binding component. -/
def CreatedFirst (leaves : List Leaf) (event server : Path) : Prop :=
  ∀ before after, statements leaves = before ++ .createFifo event server :: after →
    .eeMutexCreate server ∈ before

/-- The components that create a mutex of their own: a primitive of the host, and the binding
components for events and traces. -/
def synchronises (place : Place) : Bool :=
  match place.component.kind with
  | .instantiated => place.component.decl.localmpc.isNone
  | .event .. | .trace _ => true
  | _ => false

section Order
variable {α : Type} {l front back : List α} {a b x : α}

theorem pair_sublist (ha : a ∈ l) (hb : b ∈ l) (hne : a ≠ b) :
    [a, b].Sublist l ∨ [b, a].Sublist l := by
  obtain ⟨front, back, rfl⟩ := List.append_of_mem ha
  rcases List.mem_append.mp hb with hb | hb
  · refine .inr ?_
    exact (List.singleton_sublist.mpr hb).append
      (List.singleton_sublist.mpr (List.mem_cons_self (l := back)))
  · have hb : b ∈ back := (List.mem_cons.mp hb).resolve_left (Ne.symm hne)
    have hpair : [a, b].Sublist (a :: back) := (List.singleton_sublist.mpr hb).cons_cons a
    exact .inl (hpair.trans (List.sublist_append_right ..))

/-- What comes before an element that comes once is in front of it. -/
theorem mem_front (h : [a, x].Sublist (front ++ x :: back)) (hx : x ∉ back) : a ∈ front := by
  obtain ⟨s, t, hst, hs, ht⟩ := List.sublist_append_iff.mp h
  cases s with
  | nil =>
    rw [List.nil_append] at hst
    subst hst
    cases ht with
    | cons _ ht => exact absurd (ht.subset (List.mem_cons_of_mem _ (List.mem_singleton_self _))) hx
    | cons_cons _ ht => exact absurd (ht.subset (List.mem_singleton_self _)) hx
  | cons b s =>
    rw [List.cons_append] at hst
    obtain ⟨rfl, -⟩ := List.cons.inj hst
    exact hs.subset List.mem_cons_self

theorem mem_back (h : [x, a].Sublist (front ++ x :: back)) (hfront : x ∉ front) (hback : x ∉ back) :
    a ∈ back := by
  obtain ⟨s, t, hst, hs, ht⟩ := List.sublist_append_iff.mp h
  cases s with
  | nil =>
    rw [List.nil_append] at hst
    subst hst
    cases ht with
    | cons _ ht => exact absurd (ht.subset List.mem_cons_self) hback
    | cons_cons _ ht => exact ht.subset (List.mem_singleton_self _)
  | cons b s =>
    rw [List.cons_append] at hst
    obtain ⟨rfl, -⟩ := List.cons.inj hst
    exact absurd (hs.subset List.mem_cons_self) hfront

end Order

section Stands
variable {place a b : Place}

theorem StandsBefore.inside {sc : Component} (hsc : sc ∈ place.component.contents)
    (h : StandsBefore (place.sub sc) a b) : StandsBefore place a b := by
  obtain ⟨composite, c, c', hunder, hrest⟩ := h
  exact ⟨composite, c, c', .sub hsc hunder, hrest⟩

/-- The visitor travels what stands before first. -/
theorem StandsBefore.travelled (h : StandsBefore place a b) (ha : IsLeaf a.component)
    (hb : IsLeaf b.component) :
    [a, b].Sublist (travelled place.owners place.component) := by
  obtain ⟨composite, sc, sc', hunder, hpair, hsc, hsc'⟩ := h
  refine List.Sublist.trans ?_ (under_sublist hunder)
  have hmem : sc ∈ composite.component.contents := hpair.subset List.mem_cons_self
  rw [travelled_contents (isComposite_of_content hmem)]
  have hboth : [a, b].Sublist (travelledEach (composite.component :: composite.owners) [sc, sc']) := by
    have hfirst := List.singleton_sublist.mpr (mem_travelled hsc ha)
    have hsecond := List.singleton_sublist.mpr (mem_travelled hsc' hb)
    unfold travelledEach travelledEach travelledEach
    rw [List.append_nil]
    exact hfirst.append hsecond
  exact hboth.trans (travelledEach_sublist _ hpair)

/-- Of two components without contents one stands before the other. -/
theorem stands_total (ha : Under place a) (hb : Under place b) (hra : a.component.isComposite = false)
    (hrb : b.component.isComposite = false) (hne : a ≠ b) :
    StandsBefore place a b ∨ StandsBefore place b a := by
  induction ha with
  | refl place =>
    cases hb with
    | refl => exact absurd rfl hne
    | sub hsc _ => exact nomatch hra.symm.trans (isComposite_of_content hsc)
  | sub hsc ha ih =>
    rename_i place a sc
    cases hb with
    | refl => exact nomatch hrb.symm.trans (isComposite_of_content hsc)
    | sub hsc' hb =>
      rename_i sc'
      by_cases hsame : sc = sc'
      · subst hsame
        exact (ih hb hra hne).imp (.inside hsc) (.inside hsc)
      · rcases pair_sublist hsc hsc' hsame with hpair | hpair
        · exact .inl ⟨place, sc, sc', .refl _, hpair, ha, hb⟩
        · exact .inr ⟨place, sc', sc, .refl _, hpair, hb, ha⟩

end Stands

section Leaves
variable {fuel : Nat} {place p q : Place} {leaf : Leaf} {leaves : List Leaf} {l : List Place}
  {c t : Path}

theorem leafOf_path (h : leafOf fuel place = .ok leaf) : leaf.path = getPathName place := by
  obtain ⟨kind, -, h⟩ := bind_ok.mp h
  cases h
  rfl

/-- The statements of a leaf create the mutex that is its own, and no other. -/
theorem leafOf_mutex (h : leafOf fuel place = .ok leaf) :
    .eeMutexCreate c ∈ (constructLeaf leaf).flatten ↔
      synchronises place = true ∧ getPathName place = c := by
  obtain ⟨kind, hkind, h⟩ := bind_ok.mp h
  cases h
  unfold leafKind at hkind
  unfold synchronises
  cases hcomponent : place.component.kind with
  | instantiated =>
    rw [hcomponent] at hkind
    cases hmpc : place.component.decl.localmpc with
    | none =>
      rw [hmpc] at hkind
      cases hkind
      simp [constructLeaf, eq_comm]
    | some mpc =>
      rw [hmpc] at hkind
      cases hkind
      simp [constructLeaf]
  | event itf size subpriority =>
    rw [hcomponent] at hkind
    obtain ⟨server, -, hkind⟩ := bind_ok.mp hkind
    cases hkind
    cases server <;> simp [constructLeaf, eq_comm]
  | trace itf =>
    rw [hcomponent] at hkind
    cases hkind
    simp [constructLeaf, eq_comm]
  | proxyskel itf client clientitfname server serveritfname size =>
    rw [hcomponent] at hkind
    obtain ⟨server, -, hkind⟩ := bind_ok.mp hkind
    cases hkind
    simp [constructLeaf]
  | proxybind client clientitfname server serveritfname size asynchronous =>
    rw [hcomponent] at hkind
    obtain ⟨client, -, hkind⟩ := bind_ok.mp hkind
    cases hkind
    simp [constructLeaf]
  | proxystub itf client clientitfname server serveritfname size =>
    rw [hcomponent] at hkind
    cases hkind
    simp [constructLeaf]
  | call itf asynchronous onMPC =>
    rw [hcomponent] at hkind
    cases hkind
    simp [constructLeaf]
  | callback itf asynchronous optional =>
    rw [hcomponent] at hkind
    cases hkind
    simp [constructLeaf]

/-- Only an event creates events, its own. -/
theorem leafOf_fifo (h : leafOf fuel place = .ok leaf)
    (hfifo : .createFifo c t ∈ (constructLeaf leaf).flatten) :
    declares place = true ∧ getPathName place = c := by
  obtain ⟨kind, hkind, h⟩ := bind_ok.mp h
  cases h
  have hevent : ∃ target, kind = .event target := by
    cases kind with
    | event target => exact ⟨target, rfl⟩
    | _ => simp [constructLeaf] at hfifo
  obtain ⟨target, rfl⟩ := hevent
  have hpath : getPathName place = c := by
    cases target with
    | none => simp [constructLeaf] at hfifo
    | some target =>
      have hpair : c = getPathName place ∧ t = target := by simpa [constructLeaf] using hfifo
      exact hpair.1.symm
  refine ⟨?_, hpath⟩
  unfold leafKind at hkind
  unfold declares
  cases hcomponent : place.component.kind with
  | event itf size subpriority => rfl
  | instantiated => rfl
  | trace itf => rfl
  | proxyskel itf client clientitfname server serveritfname size =>
    rw [hcomponent] at hkind
    obtain ⟨server, -, hkind⟩ := bind_ok.mp hkind
    cases hkind
  | proxybind client clientitfname server serveritfname size asynchronous =>
    rw [hcomponent] at hkind
    obtain ⟨client, -, hkind⟩ := bind_ok.mp hkind
    cases hkind
  | _ =>
    rw [hcomponent] at hkind
    cases hkind

end Leaves

section Runs
variable {world : World} {s s' s₁ m : Instance} {sts sts' : List Statement} {statement : Statement}
  {c t : Path}

/-- Statements that are completed one after the other, with the levels that are set between them. -/
inductive Executes (world : World) : Instance → List Statement → Instance → Prop where
  | nil (s : Instance) : Executes world s [] s
  | level {s s' : Instance} {sts : List Statement} (n : Int)
      (h : Executes world { s with levelOfConstruction := n } sts s') : Executes world s sts s'
  | step {s s₁ s' : Instance} {statement : Statement} {sts : List Statement}
      (hrun : execStatement world s statement = (s₁, true)) (h : Executes world s₁ sts s') :
      Executes world s (statement :: sts) s'

theorem Executes.append (h : Executes world s sts m) (h' : Executes world m sts' s') :
    Executes world s (sts ++ sts') s' := by
  induction h with
  | nil => exact h'
  | level n _ ih => exact .level n (ih h')
  | step hrun _ ih => exact .step hrun (ih h')

theorem Executes.split (h : Executes world s (sts ++ sts') s') :
    ∃ m, Executes world s sts m ∧ Executes world m sts' s' := by
  generalize hall : sts ++ sts' = all at h
  induction h generalizing sts with
  | nil s =>
    obtain ⟨rfl, rfl⟩ := List.append_eq_nil_iff.mp hall
    exact ⟨s, .nil s, .nil s⟩
  | level n _ ih =>
    obtain ⟨m, hfirst, hsecond⟩ := ih hall
    exact ⟨m, .level n hfirst, hsecond⟩
  | @step s s₁ s' statement rest hrun h ih =>
    cases sts with
    | nil =>
      rw [List.nil_append] at hall
      subst hall
      exact ⟨s, .nil s, .step hrun h⟩
    | cons first sts =>
      rw [List.cons_append, List.cons.injEq] at hall
      obtain ⟨rfl, hall⟩ := hall
      obtain ⟨m, hfirst, hsecond⟩ := ih hall
      exact ⟨m, .step hrun hfirst, hsecond⟩

theorem execLevel_executes (h : execLevel world sts s = (s', none)) : Executes world s sts s' := by
  induction sts generalizing s with
  | nil =>
    cases h
    exact .nil _
  | cons statement sts ih =>
    unfold execLevel at h
    cases hrun : execStatement world s statement with
    | mk s₁ goes =>
      rw [hrun] at h
      cases goes with
      | true => exact .step hrun (ih h)
      | false => cases h

/-- A construction that completes has run all its statements. -/
theorem execConstruct_executes {levels : List (List Statement)} {n : Nat}
    (h : execConstruct world (numberUp levels n) s = (s', none)) :
    Executes world s levels.flatten s' := by
  induction levels generalizing s n with
  | nil =>
    cases h
    exact .nil _
  | cons sts levels ih =>
    unfold numberUp execConstruct at h
    cases hlevel : execLevel world sts s with
    | mk s₁ r =>
      rw [hlevel] at h
      cases r with
      | some statement => cases h
      | none =>
        rw [List.flatten_cons]
        exact (execLevel_executes hlevel).append (.level _ (ih h))

theorem execStatement_create (h : execStatement world s (.eeMutexCreate c) = (s₁, true)) :
    s₁.mutexHandle c = world.mutex c ∧ world.mutex c ≠ 0 := by
  simp only [execStatement] at h
  split at h
  · cases h
  · next hzero =>
    cases h
    exact ⟨Function.update_self .., hzero⟩

/-- No other statement touches the mutex of a component. -/
theorem execStatement_mutexHandle (h : execStatement world s statement = (s₁, true))
    (hother : statement ≠ .eeMutexCreate c) : s₁.mutexHandle c = s.mutexHandle c := by
  cases statement with
  | eeMutexCreate d =>
    have hne : c ≠ d := by
      rintro rfl
      exact hother rfl
    simp only [execStatement] at h
    split at h
    · cases h
    · cases h
      exact Function.update_of_ne hne _ _
  | signalComponentCreation d priority checked =>
    simp only [execStatement] at h
    split at h
    · cases h
      rfl
    · rw [(Prod.mk.inj h).1]
  | _ =>
    simp only [execStatement] at h
    split at h <;> cases h <;> rfl

theorem execStatement_fifo (h : execStatement world s statement = (s₁, true))
    (hother : ∀ t, statement ≠ .createFifo c t) : s₁.fifo c = s.fifo c := by
  cases statement with
  | createFifo d t =>
    have hne : c ≠ d := by
      rintro rfl
      exact hother t rfl
    simp only [execStatement] at h
    split at h <;> (cases h; exact Function.update_of_ne hne _ _)
  | signalComponentCreation d priority checked =>
    simp only [execStatement] at h
    split at h
    · cases h
      rfl
    · rw [(Prod.mk.inj h).1]
  | _ =>
    simp only [execStatement] at h
    split at h <;> cases h <;> rfl

theorem Executes.kept (h : Executes world s sts s') (hc : .eeMutexCreate c ∉ sts) :
    s'.mutexHandle c = s.mutexHandle c := by
  induction h with
  | nil => rfl
  | level n _ ih => exact ih hc
  | step hrun _ ih =>
    rw [List.mem_cons, not_or] at hc
    exact (ih hc.2).trans (execStatement_mutexHandle hrun (Ne.symm hc.1))

/-- A mutex that was created stays as it is, however often that is done. -/
theorem Executes.stays (h : Executes world s sts s') (hc : s.mutexHandle c = world.mutex c) :
    s'.mutexHandle c = world.mutex c := by
  induction h with
  | nil => exact hc
  | level n _ ih => exact ih hc
  | @step s s₁ s' statement sts hrun _ ih =>
    refine ih ?_
    by_cases hcreate : statement = .eeMutexCreate c
    · subst hcreate
      exact (execStatement_create hrun).1
    · exact (execStatement_mutexHandle hrun hcreate).trans hc

theorem Executes.created (h : Executes world s sts s') (hc : .eeMutexCreate c ∈ sts) :
    s'.mutexHandle c = world.mutex c ∧ world.mutex c ≠ 0 := by
  induction h with
  | nil => cases hc
  | level n _ ih => exact ih hc
  | step hrun hrest ih =>
    rcases List.mem_cons.mp hc with rfl | hc
    · obtain ⟨hhandle, hzero⟩ := execStatement_create hrun
      exact ⟨hrest.stays hhandle, hzero⟩
    · exact ih hc

theorem Executes.fifo (h : Executes world s sts s') (hc : ∀ t, .createFifo c t ∉ sts) :
    s'.fifo c = s.fifo c := by
  induction h with
  | nil => rfl
  | level n _ ih => exact ih hc
  | step hrun _ ih =>
    refine (ih fun t ht => hc t (List.mem_cons_of_mem _ ht)).trans (execStatement_fifo hrun ?_)
    rintro t rfl
    exact hc t List.mem_cons_self

/-- What the first statement leaves, whatever level is set before it. -/
theorem Executes.cons (h : Executes world s (statement :: sts) s') :
    ∃ n s₁, execStatement world { s with levelOfConstruction := n } statement = (s₁, true) ∧
      Executes world s₁ sts s' := by
  generalize hall : statement :: sts = all at h
  induction h with
  | nil => cases hall
  | level n _ ih =>
    obtain ⟨n', s₁, hrun, hrest⟩ := ih hall
    exact ⟨n', s₁, hrun, hrest⟩
  | @step s s₁ s' statement sts hrun hrest ih =>
    cases hall
    exact ⟨s.levelOfConstruction, s₁, hrun, hrest⟩

/-- The events get the mutex that their target has when they are created. -/
theorem Executes.copied {before after : List Statement}
    (h : Executes world s (before ++ .createFifo c t :: after) s')
    (hsucceeds : world.succeeds (.createFifo c t) = true)
    (honce : ∀ t, .createFifo c t ∉ after) :
    ∃ m, Executes world s before m ∧ s'.fifo c = some (m.mutexHandle t) := by
  obtain ⟨m, hbefore, hrest⟩ := h.split
  obtain ⟨n, s₁, hrun, hafter⟩ := hrest.cons
  refine ⟨m, hbefore, (hafter.fifo honce).trans ?_⟩
  simp only [execStatement, hsucceeds, if_true] at hrun
  cases hrun
  exact Function.update_self ..

end Runs

theorem mem_statements {fuel : Nat} {places : List Place} {leaves : List Leaf}
    {statement : Statement} (h : places.mapM (leafOf fuel) = .ok leaves) :
    statement ∈ statements leaves ↔ ∃ place ∈ places, ∃ leaf, leafOf fuel place = .ok leaf ∧
      statement ∈ (constructLeaf leaf).flatten := by
  unfold statements
  simp only [List.mem_flatten, List.mem_flatMap, mem_mapM h]
  constructor
  · rintro ⟨l, ⟨leaf, ⟨place, hplace, hleaf⟩, hl⟩, hs⟩
    exact ⟨place, hplace, leaf, hleaf, l, hl, hs⟩
  · rintro ⟨place, hplace, leaf, hleaf, l, hl, hs⟩
    exact ⟨l, ⟨leaf, ⟨place, hplace, hleaf⟩, hl⟩, hs⟩

theorem statements_append (leaves leaves' : List Leaf) :
    statements (leaves ++ leaves') = statements leaves ++ statements leaves' := by
  unfold statements
  rw [List.flatMap_append, List.flatten_append]

theorem declares_of_synchronises {place : Place} (h : synchronises place = true) :
    declares place = true := by
  unfold synchronises at h
  unfold declares
  cases hkind : place.component.kind <;> rw [hkind] at h <;> first | rfl | exact h

def isEvent (place : Place) : Bool :=
  match place.component.kind with
  | .event .. => true
  | _ => false

/-- A binding component for events, and the component that it posts them to. -/
structure Posts (fuel : Nat) (top : Component) (event server : Place) : Prop where
  events : isEvent event = true
  eventTravelled : event ∈ travelled [] top
  connected : connect fuel event = .ok (some server)
  serialises : synchronises server = true
  serverTravelled : server ∈ travelled [] top

section Events
variable {fuel : Nat} {top : Component} {leaves : List Leaf} {event server : Place}

theorem Posts.leaf (h : Posts fuel top event server) :
    leafOf fuel event = .ok ⟨getPathName event, .event (some (getPathName server))⟩ := by
  have hevents := h.events
  unfold isEvent at hevents
  unfold leafOf leafKind
  cases hkind : event.component.kind with
  | event itf size subpriority =>
    simp only
    rw [h.connected]
    rfl
  | _ =>
    rw [hkind] at hevents
    cases hevents

theorem Posts.ownVariable (h : Posts fuel top event server) : declares event = true := by
  have hevents := h.events
  unfold isEvent at hevents
  unfold declares
  split at hevents
  · next hkind => rw [hkind]
  · cases hevents

theorem Posts.alone (h : Posts fuel top event server)
    (hdeclared : (((travelled [] top).filter declares).map getPathName).Nodup)
    {front back : List Place} (hsplit : travelled [] top = front ++ event :: back) :
    event ∉ front ∧ event ∉ back := by
  have hnodup := hdeclared.of_map
  rw [hsplit, List.filter_append, List.filter_cons_of_pos h.ownVariable] at hnodup
  obtain ⟨-, hback, hdisjoint⟩ := List.nodup_append.mp hnodup
  constructor
  · intro hfront
    exact hdisjoint _ (List.mem_filter.mpr ⟨hfront, h.ownVariable⟩) _ List.mem_cons_self rfl
  · intro hmem
    exact (List.nodup_cons.mp hback).1 (List.mem_filter.mpr ⟨hmem, h.ownVariable⟩)

/-- The visitor comes to the target before the events, or it comes to the events before. -/
theorem Posts.front (h : Posts fuel top event server)
    (hdeclared : (((travelled [] top).filter declares).map getPathName).Nodup)
    {front back : List Place} (hsplit : travelled [] top = front ++ event :: back) :
    server ∈ front ∨ server = event ↔ ¬ StandsBefore ⟨top, []⟩ event server := by
  obtain ⟨hnotfront, hnotback⟩ := h.alone hdeclared hsplit
  obtain ⟨hunder, hleaf⟩ := under_of_travelled [] top h.eventTravelled
  obtain ⟨hunder', hleaf'⟩ := under_of_travelled [] top h.serverTravelled
  constructor
  · intro hfront hstands
    have hsub : [event, server].Sublist (travelled [] top) := hstands.travelled hleaf hleaf'
    rw [hsplit] at hsub
    have hserver := mem_back hsub hnotfront hnotback
    rcases hfront with hfront | rfl
    · -- the target would be there twice
      have hvariable := declares_of_synchronises h.serialises
      have hnodup := hdeclared.of_map
      rw [hsplit, List.filter_append, List.filter_cons_of_pos h.ownVariable] at hnodup
      exact (List.nodup_append.mp hnodup).2.2 _ (List.mem_filter.mpr ⟨hfront, hvariable⟩) _
        (List.mem_cons_of_mem _ (List.mem_filter.mpr ⟨hserver, hvariable⟩)) rfl
    · exact hnotback hserver
  · intro hstands
    by_cases hsame : server = event
    · exact .inr hsame
    have hbefore := (stands_total hunder hunder' hleaf.raw hleaf'.raw (Ne.symm hsame)).resolve_left
      hstands
    have hsub : [server, event].Sublist (travelled [] top) := hbefore.travelled hleaf' hleaf
    rw [hsplit] at hsub
    exact .inl (mem_front hsub hnotback)

theorem Assembled.inj (h : Assembled fuel top leaves) {place place' : Place}
    (hplace : place ∈ travelled [] top) (hplace' : place' ∈ travelled [] top)
    (hdeclares : declares place = true) (hdeclares' : declares place' = true)
    (hname : getPathName place = getPathName place') : place = place' :=
  List.inj_on_of_nodup_map h.declared (List.mem_filter.mpr ⟨hplace, hdeclares⟩)
    (List.mem_filter.mpr ⟨hplace', hdeclares'⟩) hname

/-- No other component creates these events. -/
theorem Posts.others (h : Posts fuel top event server) (hassembled : Assembled fuel top leaves)
    {places : List Place} (hplaces : ∀ place ∈ places, place ∈ travelled [] top)
    (hnot : event ∉ places) {leaves' : List Leaf} (hleaves' : places.mapM (leafOf fuel) = .ok leaves')
    (t : Path) : .createFifo (getPathName event) t ∉ statements leaves' := by
  intro hmem
  obtain ⟨place, hplace, leaf, hleaf, hmem⟩ := (mem_statements hleaves').mp hmem
  obtain ⟨hdeclares, hname⟩ := leafOf_fifo hleaf hmem
  have hsame := hassembled.inj (hplaces place hplace) h.eventTravelled hdeclares h.ownVariable hname
  exact hnot (hsame ▸ hplace)

/-- Components create the mutex of the target where it is one of them. -/
theorem Posts.mutex (h : Posts fuel top event server) (hassembled : Assembled fuel top leaves)
    {places : List Place} (hplaces : ∀ place ∈ places, place ∈ travelled [] top)
    {leaves' : List Leaf} (hleaves' : places.mapM (leafOf fuel) = .ok leaves') :
    .eeMutexCreate (getPathName server) ∈ statements leaves' ↔ server ∈ places := by
  rw [mem_statements hleaves']
  constructor
  · rintro ⟨place, hplace, leaf, hleaf, hmem⟩
    obtain ⟨hserialises, hname⟩ := (leafOf_mutex hleaf).mp hmem
    have hsame := hassembled.inj (hplaces place hplace) h.serverTravelled
      (declares_of_synchronises hserialises) (declares_of_synchronises h.serialises) hname
    exact hsame ▸ hplace
  · intro hserver
    obtain ⟨leaf, hleaf⟩ := exists_of_mapM hleaves' hserver
    exact ⟨server, hserver, leaf, hleaf, (leafOf_mutex hleaf).mpr ⟨h.serialises, rfl⟩⟩

/-- The statements before and after those of the events. -/
theorem Posts.statements (h : Posts fuel top event server) (hassembled : Assembled fuel top leaves) :
    ∃ before after, statements leaves =
        before ++ .createFifo (getPathName event) (getPathName server) :: after ∧
      (∀ t, .createFifo (getPathName event) t ∉ before) ∧
      (∀ t, .createFifo (getPathName event) t ∉ after) ∧
      (.eeMutexCreate (getPathName server) ∈ before ↔ ¬ StandsBefore ⟨top, []⟩ event server) := by
  obtain ⟨front, back, hsplit⟩ := List.append_of_mem h.eventTravelled
  have hfront := h.front hassembled.declared hsplit
  have hmapM := hassembled.assembled
  unfold assemble at hmapM
  rw [hsplit] at hmapM
  obtain ⟨leaves₁, rest, hleaves₁, hrest, rfl⟩ := mapM_append_ok hmapM
  rw [List.mapM_cons] at hrest
  obtain ⟨leaf, hleaf, hrest⟩ := bind_ok.mp hrest
  obtain ⟨leaves₂, hleaves₂, hrest⟩ := bind_ok.mp hrest
  cases hrest
  rw [h.leaf] at hleaf
  cases hleaf
  obtain ⟨hnotfront, hnotback⟩ := h.alone hassembled.declared hsplit
  have hin : ∀ place ∈ front, place ∈ travelled [] top := by
    intro place hplace
    rw [hsplit]
    exact List.mem_append_left _ hplace
  have hin' : ∀ place ∈ back, place ∈ travelled [] top := by
    intro place hplace
    rw [hsplit]
    exact List.mem_append_right _ (List.mem_cons_of_mem _ hplace)
  refine ⟨Assembly.statements leaves₁ ++ [.eeMutexCreate (getPathName event)],
    Assembly.statements leaves₂, ?_, fun t hmem => ?_, h.others hassembled hin' hnotback hleaves₂, ?_⟩
  · rw [statements_append, List.append_assoc]
    rfl
  · rcases List.mem_append.mp hmem with hmem | hmem
    · exact h.others hassembled hin hnotfront hleaves₁ t hmem
    · cases List.mem_singleton.mp hmem
  · rw [← h.front hassembled.declared hsplit, List.mem_append, List.mem_singleton,
      h.mutex hassembled hin hleaves₁, Statement.eeMutexCreate.injEq]
    refine or_congr_right ⟨fun hname => ?_, fun hsame => congrArg getPathName hsame⟩
    exact hassembled.inj h.serverTravelled h.eventTravelled (declares_of_synchronises h.serialises)
      h.ownVariable hname

/-- The mutex of the target is created before the events are exactly where the events do not stand
before their target, and that decides which mutex every event posted through the binding has. -/
theorem mutex_order {fuel : Nat} {top : Component} {leaves : List Leaf} {event server : Place}
    (hassembled : Assembled fuel top leaves) (h : Posts fuel top event server) :
    (CreatedFirst leaves (getPathName event) (getPathName server) ↔
      ¬ StandsBefore ⟨top, []⟩ event server) ∧
    ∀ (world : World) (s s' : Instance), execConstruct world (constructBody leaves) s = (s', none) →
      world.succeeds (.createFifo (getPathName event) (getPathName server)) = true →
      (¬ StandsBefore ⟨top, []⟩ event server → s'.fifo (getPathName event) =
        some (world.mutex (getPathName server)) ∧ world.mutex (getPathName server) ≠ 0) ∧
      (StandsBefore ⟨top, []⟩ event server → s'.fifo (getPathName event) =
        some (s.mutexHandle (getPathName server))) := by
  obtain ⟨before, after, hstatements, hbefore, hafter, hfirst⟩ := h.statements hassembled
  constructor
  · rw [← hfirst]
    constructor
    · exact fun hcreated => hcreated before after hstatements
    · intro hmem before' after' hstatements'
      rw [hstatements] at hstatements'
      obtain ⟨rfl, -, -⟩ := (List.append_cons_inj_of_notMem (hbefore _) (hafter _)).mp hstatements'
      exact hmem
  · intro world s s' hrun hsucceeds
    have hexecutes := execConstruct_executes hrun
    have hall : (leaves.flatMap constructLeaf).flatten = _ := hstatements
    rw [hall] at hexecutes
    obtain ⟨m, hm, hfifo⟩ := hexecutes.copied hsucceeds hafter
    rw [hfifo]
    constructor
    · intro hstands
      obtain ⟨hhandle, hzero⟩ := hm.created (hfirst.mpr hstands)
      exact ⟨congrArg some hhandle, hzero⟩
    · intro hstands
      exact congrArg some (hm.kept fun hmem => hfirst.mp hmem hstands)

end Events

def sampleInner : Component :=
  .composite ⟨"inner", "Inner", false, none, "1",
    [⟨"test.api", "r", false, 1, false, false, false, false⟩], []⟩
    [asynchronousBind "client" "r" "this" "r"] [sampleClient] []

/-- A client that is bound to the outside of its composite, which stands before the server. -/
def sampleNested : Component :=
  .composite ⟨"", "Top", false, none, "1", [], []⟩
    [astbind "inner" ("r", none) "server" ("p", none)] [sampleInner, sampleProvider] []

def sampleEvent : Place :=
  match travelled [] (madeAtop sampleNested) with
  | [_, event, _] => event
  | _ => ⟨sampleNested, []⟩

/-- In an accepted network the events are created with the handle that the mutex of their target has
before it is created. -/
theorem mutex_order_sample : Accepted hostee ⟨sampleNested, rfl⟩ ∧
    ∃ leaves, assemble 9 (madeAtop sampleNested) = .ok leaves ∧
      ¬ CreatedFirst leaves ["inner", "bc0"] ["server"] ∧
      ∀ (world : World) (s' : Instance),
        execConstruct world (constructBody leaves) Composite.create = (s', none) →
        world.succeeds (.createFifo ["inner", "bc0"] ["server"]) = true →
        s'.fifo ["inner", "bc0"] = some 0 := by
  have hassembled : Assembled 9 (madeAtop sampleNested) _ := ⟨rfl, by decide⟩
  have hposts : Posts 9 (madeAtop sampleNested) sampleEvent ⟨sampleProvider, [madeAtop sampleNested]⟩ :=
    ⟨rfl, .tail _ (.head _), rfl, rfl, .tail _ (.tail _ (.head _))⟩
  have hstands : StandsBefore ⟨madeAtop sampleNested, []⟩ sampleEvent
      ⟨sampleProvider, [madeAtop sampleNested]⟩ := by
    refine ⟨⟨madeAtop sampleNested, []⟩, _, sampleProvider, .refl _, List.Sublist.refl _, ?_, .refl _⟩
    exact .sub (.tail _ (.head _)) (.refl _)
  obtain ⟨hfirst, hruns⟩ := mutex_order hassembled hposts
  refine ⟨⟨rfl, 3, rfl⟩, _, rfl, fun hcreated => hfirst.mp hcreated hstands, ?_⟩
  intro world s' hrun hsucceeds
  exact (hruns world _ s' hrun hsucceeds).2 hstands

end Codinalte.Assembly
