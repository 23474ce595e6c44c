import Codinalte.Graph.Boundaries
import Mathlib.Algebra.Ring.Nat

/-! Both passes keep what every client interface is bound to. -/

namespace Codinalte.Graph
open Codinalte.Checks Codinalte.Keyed

/-- The same component of a network, before and after. -/
structure Kept (top top' : Component) (place place' : Place) : Prop where
  under : Under ⟨top, []⟩ place
  under' : Under ⟨top', []⟩ place'
  path : place'.path = place.path
  fullyname : place'.component.decl.fullyname = place.component.decl.fullyname
  isComposite : place'.component.isComposite = place.component.isComposite
  kind : place'.component.kind = place.component.kind
  provides : place'.component.getProvides = place.component.getProvides

/-- The same interface of components that are related, or nothing in both. -/
inductive SameReference (R : Place → Place → Prop) :
    Option InterfaceReference → Option InterfaceReference → Prop where
  | unbound : SameReference R none none
  | outside (itfname : String) (collectionIndex : Int) : SameReference R
      (some ⟨none, itfname, collectionIndex⟩) (some ⟨none, itfname, collectionIndex⟩)
  | served {server server' : Place} (h : R server server') (itfname : String)
      (collectionIndex : Int) : SameReference R (some ⟨some server, itfname, collectionIndex⟩)
        (some ⟨some server', itfname, collectionIndex⟩)

/-- The component on top, with what is put at its boundaries, and the same places in both. -/
inductive Atop (top top' : Component) : Place → Place → Prop where
  | top : Atop top top' ⟨top, []⟩ ⟨top', []⟩
  | sub {place place' : Place} {c : Component} (h : Atop top top' place place')
      (hc : c ∈ place.component.contents) : Atop top top' (place.sub c) (place'.sub c)

inductive EndAtop (top top' : Component) : End → End → Prop where
  | client {place place' : Place} (h : Atop top top' place place') (itf : ItfName) :
      EndAtop top top' (.client place itf) (.client place' itf)
  | server {place place' : Place} (h : Atop top top' place place') (itf : ItfName) :
      EndAtop top top' (.server place itf) (.server place' itf)

section Last
variable {conf : Configuration} {gen : Generators} {network : Network} {top' : Component}
  {place place' : Place} {t t' : End}

theorem BoundAt.kept (h : BoundAt gen network.top top' place place') :
    Kept network.top top' place place' := by
  have halike := h.makes.alike
  refine ⟨h.under, h.under', h.path, ?_, halike.isComposite, halike.kind, ?_⟩
  · rw [halike.decl]
  · unfold Component.getProvides
    rw [halike.decl]

/-- At a component that serves an interface the same is read off in both places. -/
theorem server_last {R : Place → Place → Prop} (hR : R place place') {itf : ItfName}
    (hprovides : place'.component.getProvide itf.getNameOfInterfaceCollection =
      place.component.getProvide itf.getNameOfInterfaceCollection)
    (hcomposite : place'.component.isComposite = place.component.isComposite)
    (hunbound : bindOf place.component.getBinds "this" itf = none →
      bindOf place'.component.getBinds "this" itf = none)
    (hbind : (End.server place itf).bindAt = none) {ir : Option InterfaceReference}
    (hlast : (End.server place itf).last = .returned ir) :
    (End.server place' itf).bindAt = none ∧ ∃ ir', (End.server place' itf).last = .returned ir' ∧
      SameReference R ir ir' := by
  cases hprovide : place.component.getProvide itf.getNameOfInterfaceCollection with
  | none =>
    rw [hprovide] at hprovides
    simp only [End.last, hprovide] at hlast
    cases hlast
    simp only [End.bindAt, End.last, hprovides]
    exact ⟨rfl, none, rfl, .unbound⟩
  | some provide =>
    rw [hprovide] at hprovides
    obtain ⟨component, owners⟩ := place
    obtain ⟨component', owners'⟩ := place'
    cases component with
    | raw decl isFirstInstance kind =>
      have hprovide' : (Component.raw decl isFirstInstance kind).getProvide
          itf.getNameOfInterfaceCollection = some provide := hprovide
      simp only [End.last, hprovide'] at hlast
      cases hlast
      cases component' with
      | composite decl' binds' subcomponents' controllercomponents' => cases hcomposite
      | raw decl' isFirstInstance' kind' =>
        have hprovides' : (Component.raw decl' isFirstInstance' kind').getProvide
            itf.getNameOfInterfaceCollection = some provide := hprovides
        simp only [End.bindAt, End.last, hprovides']
        exact ⟨rfl, _, rfl, .served hR _ _⟩
    | composite decl binds subcomponents controllercomponents =>
      have hprovide' : (Component.composite decl binds subcomponents
          controllercomponents).getProvide itf.getNameOfInterfaceCollection = some provide := hprovide
      simp only [End.bindAt, hprovide', Option.isSome_some, if_true] at hbind
      have hsb : bindOf binds "this" itf = none := Option.map_eq_none_iff.mp hbind
      have hsb' := hunbound hsb
      simp only [End.last, hprovide', hsb] at hlast
      cases hlast
      cases component' with
      | raw decl' isFirstInstance' kind' => cases hcomposite
      | composite decl' binds' subcomponents' controllercomponents' =>
        have hprovides' : (Component.composite decl' binds' subcomponents'
            controllercomponents').getProvide itf.getNameOfInterfaceCollection = some provide :=
          hprovides
        have hsb'' : bindOf binds' "this" itf = none := hsb'
        simp only [End.bindAt, End.last, hprovides', Option.isSome_some, if_true, hsb', hsb'']
        exact ⟨rfl, none, rfl, .unbound⟩

/-- An end that leads nowhere leads nowhere afterwards, and the same is read off it. -/
theorem EndMade.last (h : Accepted conf network) (hfresh : Fresh network.top top')
    (honce : BoundOnce network.top) (hmade : EndMade gen network.top top' t t')
    (ht : t.next = none) {ir : Option InterfaceReference} (hlast : t.last = .returned ir) :
    t'.bindAt = none ∧ ∃ ir', t'.last = .returned ir' ∧
      SameReference (Kept network.top top') ir ir' := by
  have hbind := bindAt_last h hmade.under ht
  cases hmade with
  | @client place place' hbound itf =>
    obtain ⟨component, owners⟩ := place
    cases owners with
    | nil =>
      cases hbound with
      | top hmakes =>
        have hrequire : top'.getRequire itf.getNameOfInterfaceCollection =
            network.top.getRequire itf.getNameOfInterfaceCollection := by
          unfold Component.getRequire Component.getRequires
          rw [hmakes.alike.decl]
        simp only [End.last] at hlast
        simp only [End.last, hrequire]
        split at hlast
        · cases hlast
        · next require hfound =>
          cases hlast
          exact ⟨rfl, _, rfl, .outside _ _⟩
    | cons owner owners =>
      obtain ⟨q', component', hq, rfl, hcontent, hname⟩ := hbound.owner
      obtain ⟨made, rebounds, hrewired⟩ := rewired h hfresh honce hq
      have hsb : bindOf owner.getBinds component.nameinowner itf = none :=
        Option.map_eq_none_iff.mp hbind
      have hsb' : bindOf q'.component.getBinds component'.nameinowner itf = none := by
        rw [hname]
        exact hrewired.unbound hsb (.inr ⟨component, hcontent, rfl⟩)
      simp only [End.last, hsb] at hlast
      cases hlast
      refine ⟨congrArg (Option.map fun b => (q', b)) hsb', none, ?_, .unbound⟩
      simp only [Place.sub, End.last, hsb']
  | @server place place' hbound itf =>
    have halike := hbound.makes.alike
    have hprovides : place'.component.getProvide itf.getNameOfInterfaceCollection =
        place.component.getProvide itf.getNameOfInterfaceCollection := by
      unfold Component.getProvide Component.getProvides
      rw [halike.decl]
    obtain ⟨made, rebounds, hrewired⟩ := rewired h hfresh honce hbound
    exact server_last hbound.kept hprovides halike.isComposite
      (fun hsb => hrewired.unbound hsb (.inl rfl)) hbind hlast

end Last

section Boundary
variable {top top' : Component} {place place' : Place} {e e' f t t' : End}

theorem Atop.widened (h : Atop top top' place place') (hwide : Widened top top') :
    Widened place.component place'.component := by
  cases h with
  | top => exact hwide
  | sub => exact .refl _

theorem Widened.nameinowner {c c' : Component} (h : Widened c c') :
    c'.nameinowner = c.nameinowner := by
  obtain ⟨requires, hdecl⟩ := h.decl
  unfold Component.nameinowner
  rw [hdecl]

theorem Widened.getProvides {c c' : Component} (h : Widened c c') :
    c'.getProvides = c.getProvides := by
  obtain ⟨requires, hdecl⟩ := h.decl
  unfold Component.getProvides
  rw [hdecl]

theorem Widened.getProvide {c c' : Component} (h : Widened c c') (itfname : String) :
    c'.getProvide itfname = c.getProvide itfname := by
  unfold Component.getProvide
  rw [h.getProvides]

theorem Widened.bindOf {c c' : Component} (h : Widened c c') {from_ : String} {fromitf : ItfName}
    {sb : Bind} (hsb : Graph.bindOf c.getBinds from_ fromitf = some sb) :
    Graph.bindOf c'.getBinds from_ fromitf = some sb := by
  obtain ⟨newb, hnewb, -⟩ := h.binds
  rw [hnewb]
  unfold Graph.bindOf at hsb ⊢
  rw [List.find?_append, hsb]
  rfl

theorem Widened.unbound {c c' : Component} (h : Widened c c') {from_ : String} {fromitf : ItfName}
    (hsb : Graph.bindOf c.getBinds from_ fromitf = none)
    (hfrom : from_ = "this" ∨ ∃ sc ∈ c.contents, sc.nameinowner = from_) :
    Graph.bindOf c'.getBinds from_ fromitf = none := by
  obtain ⟨newb, hnewb, hother⟩ := h.binds
  refine bindOf_none fun hmem => ?_
  rw [hnewb, List.map_append] at hmem
  rcases List.mem_append.mp hmem with hmem | hmem
  · exact mem_of_bindOf_none hsb hmem
  · obtain ⟨bind, hbind, heq⟩ := List.mem_map.mp hmem
    have hname : bind.from_ = from_ := congrArg Prod.fst heq
    rcases hfrom with rfl | ⟨sc, hsc, rfl⟩
    · exact (hother bind hbind).1 hname
    · exact (hother bind hbind).2 sc hsc hname.symm

theorem Atop.getFcSubComponent (h : Atop top top' place place') (hwide : Widened top top')
    {scname : String} {sc : Place} (hsc : place.getFcSubComponent scname = some sc) :
    ∃ sc', place'.getFcSubComponent scname = some sc' ∧ Atop top top' sc sc' := by
  obtain ⟨ncs, hncs⟩ := (h.widened hwide).contents
  unfold Place.getFcSubComponent at hsc ⊢
  split at hsc
  · next hthis =>
    cases hsc
    exact ⟨place', if_pos hthis, h⟩
  · next hthis =>
    obtain ⟨c, hc, rfl⟩ := Option.map_eq_some_iff.mp hsc
    refine ⟨place'.sub c, ?_, .sub h (List.mem_of_find?_eq_some hc)⟩
    rw [if_neg hthis, hncs, List.find?_append, hc]
    rfl

theorem Atop.far (h : Atop top top' place place') (hwide : Widened top top') {sb : Bind}
    (hfar : far place sb = some f) : ∃ f', Graph.far place' sb = some f' ∧ EndAtop top top' f f' := by
  unfold Graph.far at hfar ⊢
  split at hfar
  · next hthis =>
    cases hfar
    rw [if_pos hthis]
    exact ⟨_, rfl, .client h _⟩
  · next hthis =>
    obtain ⟨sc, hsc, rfl⟩ := Option.map_eq_some_iff.mp hfar
    obtain ⟨sc', hsc', hsub⟩ := h.getFcSubComponent hwide hsc
    rw [if_neg hthis, hsc']
    exact ⟨_, rfl, .server hsub _⟩

theorem Atop.owner {component owner : Component} {owners : List Component}
    (h : Atop top top' ⟨component, owner :: owners⟩ place') :
    ∃ q', Atop top top' ⟨owner, owners⟩ q' ∧ place' = q'.sub component ∧
      component ∈ owner.contents := by
  cases h with
  | sub h hc => exact ⟨_, h, rfl, hc⟩

/-- A bind that is followed is the one that is followed afterwards. -/
theorem EndAtop.next (h : EndAtop top top' e e') (hwide : Widened top top')
    (hnext : e.next = some f) : ∃ f', e'.next = some f' ∧ EndAtop top top' f f' := by
  obtain ⟨⟨composite, sb⟩, hbind, hacross⟩ := Option.bind_eq_some_iff.mp hnext
  cases h with
  | @client place place' h itf =>
    obtain ⟨component, owners⟩ := place
    cases owners with
    | nil => cases hbind
    | cons owner owners =>
      obtain ⟨sb', hsb, heq⟩ := Option.map_eq_some_iff.mp hbind
      cases heq
      obtain ⟨q', hq, rfl, -⟩ := h.owner
      obtain ⟨f', hf', hsame⟩ := hq.far hwide hacross
      have hsb' := (hq.widened hwide).bindOf hsb
      have hbind' : (End.client (q'.sub component) itf).bindAt = some (q', sb) :=
        congrArg (Option.map fun b => (q', b)) hsb'
      exact ⟨f', (next_far hbind' fun _ => ⟨_, _, rfl⟩).trans hf', hsame⟩
  | @server place place' h itf =>
    simp only [End.bindAt] at hbind
    split at hbind
    · next hprovide =>
      obtain ⟨sb', hsb, heq⟩ := Option.map_eq_some_iff.mp hbind
      cases heq
      obtain ⟨sc, hsc, rfl⟩ := Option.map_eq_some_iff.mp hacross
      obtain ⟨sc', hsc', hsub⟩ := h.getFcSubComponent hwide hsc
      have hsb' := (h.widened hwide).bindOf hsb
      have hprovide' := hprovide
      rw [← (h.widened hwide).getProvide] at hprovide'
      refine ⟨.server sc' sb.toitf, ?_, .server hsub _⟩
      simp only [End.next, End.bindAt, if_pos hprovide', hsb', Option.map_some, Option.bind_some,
        End.across, hsc']
    · cases hbind

/-- What is passed is passed again. -/
theorem EndAtop.passage {passed : List Component} (hwide : Widened top top')
    (hcomposite : top.isComposite = true) (hpassage : Passage e passed t) (h : EndAtop top top' e e') :
    ∃ t', Passage e' passed t' ∧ EndAtop top top' t t' := by
  induction hpassage generalizing e' with
  | refl => exact ⟨e', .refl _, h⟩
  | next hnext _ ih =>
    obtain ⟨f', hf', hsame⟩ := h.next hwide hnext
    obtain ⟨t', hpassage, hlast⟩ := ih hsame
    exact ⟨t', .next hf' hpassage, hlast⟩
  | @through q hop t passed hhands _ ih =>
    cases h with
    | @server _ q' h =>
      obtain ⟨t', hpassage, hlast⟩ := ih (.client h target)
      refine ⟨t', ?_, hlast⟩
      cases h with
      | top => exact nomatch hcomposite.symm.trans hhands.raw
      | sub hq hc => exact .through hhands hpassage

/-- An end that leads nowhere leads nowhere afterwards, and the same is read off it. -/
theorem EndAtop.last (h : EndAtop top top' t t') (hwide : Widened top top')
    (hbind : t.bindAt = none) {ir : Option InterfaceReference} (hlast : t.last = .returned ir) :
    t'.next = none ∧ ∃ ir', t'.last = .returned ir' ∧ SameReference (Atop top top') ir ir' := by
  suffices hbind' : t'.bindAt = none ∧ ∃ ir', t'.last = .returned ir' ∧
      SameReference (Atop top top') ir ir' by
    refine ⟨?_, hbind'.2⟩
    rw [End.next, hbind'.1]
    rfl
  cases h with
  | @client place place' h itf =>
    obtain ⟨component, owners⟩ := place
    cases owners with
    | nil =>
      cases h with
      | top =>
        simp only [End.last] at hlast
        split at hlast
        · cases hlast
        · next require hfound =>
          cases hlast
          obtain ⟨requires, hdecl⟩ := hwide.decl
          have hfound' : top'.getRequire itf.getNameOfInterfaceCollection = some require := by
            unfold Component.getRequire Component.getRequires at hfound ⊢
            rw [hdecl, List.find?_append, hfound]
            rfl
          simp only [End.last, hfound']
          exact ⟨rfl, _, rfl, .outside _ _⟩
    | cons owner owners =>
      obtain ⟨q', hq, rfl, hcontent⟩ := h.owner
      have hsb : bindOf owner.getBinds component.nameinowner itf = none :=
        Option.map_eq_none_iff.mp hbind
      have hsb' : bindOf q'.component.getBinds component.nameinowner itf = none :=
        (hq.widened hwide).unbound hsb (.inr ⟨component, hcontent, rfl⟩)
      simp only [End.last, hsb] at hlast
      cases hlast
      refine ⟨congrArg (Option.map fun b => (q', b)) hsb', none, ?_, .unbound⟩
      simp only [Place.sub, End.last, hsb']
  | @server place place' h itf =>
    have hplace := h.widened hwide
    exact server_last h (hplace.getProvide _) hplace.isComposite
      (fun hsb => hplace.unbound hsb (.inl rfl)) hbind hlast

end Boundary

/-- What a composite is after the passes: every content is found under its name, and there are those
of before, those that were inserted in the binds, and those at the boundaries. -/
structure Unshadowed (place place' : Place) (boundary : Nat) : Prop where
  names : (place'.component.contents.map Component.nameinowner).Nodup
  found : ∀ c ∈ place'.component.contents,
    place'.getFcSubComponent c.nameinowner = some (place'.sub c)
  length : place'.component.contents.length = place.component.contents.length +
    (place.component.getBinds.map (inserted place)).sum + boundary

/-- Every lookup comes through what was inserted in the binds on its way to what it returned before.
-/
def Resolves (top top' : Component) (place place' : Place) : Prop :=
  ∀ itf ir, Returns place itf ir → ∃ route t passed ir',
    Route (.client place itf) route t ∧ t.next = none ∧
    Reaches (.client place' itf) passed ir' ∧ SameReference (Kept top top') ir ir' ∧
    passed.map (fun c => c.kind.hop) = (route.flatMap fun r => hops r.1 r.2).map some

/-- Every component is kept, with what its interfaces are bound to. -/
def Preserved (top top' : Component) (boundary : Nat) : Prop :=
  ∀ place, Under ⟨top, []⟩ place → ∃ place', Kept top top' place place' ∧
    Unshadowed place place' (if place.owners = [] then boundary else 0) ∧
    Resolves top top' place place'

section Preservation
variable {conf : Configuration} {gen : Generators} {network : Network} {top' top'' : Component}
  {place place' place'' : Place} {e t t' : End}

theorem route_of_leads (h : Leads e t) : ∃ route, Route e route t := by
  induction h using Relation.ReflTransGen.head_induction_on with
  | refl => exact ⟨[], .refl _⟩
  | head hnext _ ih =>
    obtain ⟨route, hroute⟩ := ih
    obtain ⟨⟨composite, sb⟩, hbind, -⟩ := Option.bind_eq_some_iff.mp hnext
    exact ⟨(composite, sb) :: route, .next hbind hnext hroute⟩

/-- Every component has been made one of the network that is bound. -/
theorem bound_below (h : Accepted conf network) (hfresh : Fresh network.top top')
    (honce : BoundOnce network.top) {below : Place} (hunder : Under place below)
    (hbound : BoundAt gen network.top top' place place') :
    ∃ below', BoundAt gen network.top top' below below' := by
  induction hunder generalizing place' with
  | refl => exact ⟨place', hbound⟩
  | sub hsc _ ih =>
    obtain ⟨made, rebounds, hrewired⟩ := rewired h hfresh honce hbound
    obtain ⟨c', hc', hmakes⟩ := exists_of_mem_left hrewired.makes hsc
    refine ih (.sub hbound hsc ?_ hmakes)
    rw [hrewired.contents]
    exact List.mem_append_left _ hc'

theorem atop_below {below : Place} (hunder : Under place below)
    (hatop : Atop top' top'' place place') : ∃ below', Atop top' top'' below below' := by
  induction hunder generalizing place' with
  | refl => exact ⟨place', hatop⟩
  | sub hsc _ ih => exact ih (.sub hatop hsc)

theorem Rewired.unshadowed {made : List Component} {rebounds : List Rebound}
    (h : Rewired gen place place' made rebounds) : Unshadowed place place' 0 := by
  refine ⟨h.names, fun c hc => ?_, ?_⟩
  · unfold Place.getFcSubComponent
    rw [if_neg (h.this c hc), find_of_mem h.names hc]
    rfl
  · have hncs : (rebounds.flatMap Rebound.ncs).length =
        (place.component.getBinds.map (inserted place)).sum := by
      have hall := h.all
      generalize place.component.getBinds = binds at hall ⊢
      clear h
      induction hall with
      | nil => rfl
      | cons hfirst _ ih =>
        obtain ⟨counts, nbbc, counts', nbbc', hfirst⟩ := hfirst
        rw [List.flatMap_cons, List.length_append, List.map_cons, List.sum_cons, hfirst.length, ih]
    rw [h.contents, List.length_append, hncs, h.makes.length_eq]
    rfl

/-- What a lookup ends at has not been inserted. -/
theorem BoundAt.instantiated (h : BoundAt gen network.top top' place place') {q : Place}
    {itf itf' : ItfName} (hunder : Under ⟨network.top, []⟩ q)
    (hleads : Leads (.client q itf) (.server place itf')) : place'.component.kind = .instantiated := by
  rw [h.kept.kind]
  cases h with
  | sub hq hc _ => exact ((network.names hq.under).2 _ hc).2
  | top =>
    cases htop : network.top with
    | composite decl binds subcomponents controllercomponents => rfl
    | raw decl isFirstInstance kind =>
      rw [htop] at hunder
      cases hunder with
      | sub hsc => cases hsc
      | refl =>
        rcases Relation.ReflTransGen.cases_head hleads with heq | ⟨e', hnext, -⟩
        · cases heq
        · cases hnext

theorem last_server {r : InterfaceReference} {server : Place}
    (hlast : t.last = .returned (some r)) (hserver : r.server = some server) :
    ∃ itf, t = .server server itf := by
  cases t with
  | client place itf =>
    obtain ⟨component, owners⟩ := place
    cases owners with
    | nil =>
      simp only [End.last] at hlast
      split at hlast <;> cases hlast
      cases hserver
    | cons owner owners =>
      simp only [End.last] at hlast
      split at hlast <;> cases hlast
  | server place itf =>
    simp only [End.last] at hlast
    split at hlast
    · cases hlast
    · cases hlast
      cases hserver
      exact ⟨itf, rfl⟩
    · split at hlast <;> cases hlast

theorem BoundAt.resolves (h : Accepted conf network) (hfresh : Fresh network.top top')
    (honce : BoundOnce network.top) (hbound : BoundAt gen network.top top' place place')
    {itf : ItfName} {ir : Option InterfaceReference} (hreturns : Returns place itf ir) :
    ∃ route t t' passed ir', Route (.client place itf) route t ∧ t.next = none ∧
      Passage (.client place' itf) passed t' ∧ t'.bindAt = none ∧ t'.last = .returned ir' ∧
      SameReference (Kept network.top top') ir ir' ∧
      (∀ r server, ir' = some r → r.server = some server →
        server.component.kind = .instantiated) ∧
      passed.map (fun c => c.kind.hop) = (route.flatMap fun r => hops r.1 r.2).map some := by
  have hunder : Under ⟨network.top, []⟩ (End.client place itf).place := hbound.under
  obtain ⟨t, hleads, ht⟩ := leads_last h hunder
  have hlast : t.last = .returned ir := (yields_of_leads hleads ht).unique hreturns
  obtain ⟨route, hroute⟩ := route_of_leads hleads
  obtain ⟨t', passed, hmade, hpassage, hhops⟩ :=
    (EndMade.client hbound itf).route h hfresh honce hroute
  obtain ⟨hbind, ir', hlast', hsame⟩ := hmade.last h hfresh honce ht hlast
  refine ⟨route, t, t', passed, ir', hroute, ht, hpassage, hbind, hlast', hsame, ?_, hhops⟩
  intro r server hr hserver
  rw [hr] at hlast'
  obtain ⟨itf', rfl⟩ := last_server hlast' hserver
  cases hmade with
  | server hserved => exact hserved.instantiated hbound.under hleads

theorem Passage.resolves {passed : List Component} {ir : Option InterfaceReference}
    (hpassage : Passage e passed t) (ht : t.bindAt = none) (hlast : t.last = .returned ir)
    (hserver : ∀ r server, ir = some r → r.server = some server →
      server.component.kind = .instantiated) : Reaches e passed ir := by
  refine hpassage.reaches ?_ hlast hserver
  rw [End.next, ht]
  rfl

theorem SameReference.comp {R S T : Place → Place → Prop} {ir ir' ir'' : Option InterfaceReference}
    (hcomp : ∀ a b c, R a b → S b c → T a c) (h : SameReference R ir ir')
    (h' : SameReference S ir' ir'') : SameReference T ir ir'' := by
  cases h with
  | unbound =>
    cases h'
    exact .unbound
  | outside =>
    cases h'
    exact .outside _ _
  | served hR =>
    cases h' with
    | served hS => exact .served (hcomp _ _ _ hR hS) _ _

theorem Atop.under (h : Atop top' top'' place place') (hwide : Widened top' top'') :
    Under ⟨top'', []⟩ place' := by
  induction h with
  | top => exact .refl _
  | sub hq hc ih =>
    obtain ⟨ncs, hncs⟩ := (hq.widened hwide).contents
    refine ih.content ?_
    rw [hncs]
    exact List.mem_append_left _ hc

theorem Atop.path (h : Atop top' top'' place place') (hwide : Widened top' top'') :
    place'.path = place.path := by
  induction h with
  | top => simp only [Place.path, List.map_cons, hwide.nameinowner]
  | @sub q q' c _ _ ih =>
    have hpath : (q'.sub c).path = c.nameinowner :: q'.path := rfl
    rw [hpath, ih]
    rfl

theorem Kept.atop {top : Component} (h : Kept top top' place place')
    (hatop : Atop top' top'' place' place'') (hwide : Widened top' top'') :
    Kept top top'' place place'' := by
  have hplace := hatop.widened hwide
  obtain ⟨requires, hdecl⟩ := hplace.decl
  refine ⟨h.under, hatop.under hwide, (hatop.path hwide).trans h.path, ?_,
    hplace.isComposite.trans h.isComposite, hplace.kind.trans h.kind,
    hplace.getProvides.trans h.provides⟩
  rw [hdecl]
  exact h.fullyname

theorem Unshadowed.atop (h : Unshadowed place place' 0) (hatop : Atop top' top'' place' place'')
    (hbounded : Bounded top' top'')
    (hthis : ∀ sc ∈ place'.component.contents, sc.nameinowner ≠ "this")
    (howners : place.owners = [] ↔ place'.owners = []) : Unshadowed place place''
      (if place.owners = [] then (boundaryNames top').length else 0) := by
  cases hatop with
  | top =>
    rw [if_pos (howners.mpr rfl)]
    refine ⟨hbounded.names, fun c hc => ?_, ?_⟩
    · unfold Place.getFcSubComponent
      rw [if_neg (hbounded.this hthis c hc), find_of_mem hbounded.names hc]
      rfl
    · have hlength := h.length
      rw [hbounded.length, hlength]
      rfl
  | @sub q q' c hq hc =>
    have hne : place.owners ≠ [] := fun hnil => nomatch howners.mp hnil
    rw [if_neg hne]
    refine ⟨h.names, fun c' hc' => ?_, h.length⟩
    unfold Place.getFcSubComponent
    rw [if_neg (hthis c' hc')]
    exact congrArg (Option.map (q'.sub c).sub) (find_of_mem h.names hc')

theorem BoundAt.owners (h : BoundAt gen network.top top' place place') :
    place.owners = [] ↔ place'.owners = [] := by
  cases h with
  | top => exact Iff.rfl
  | sub => exact iff_of_false (fun h => nomatch h) (fun h => nomatch h)

end Preservation

/-- For an accepted network in which no client interface is bound twice and the names of what is
inserted are not those of contents, the binder and the binder of the boundaries keep what every
interface is bound to. -/
theorem architecture_preserved {conf : Configuration} {gen : Generators} {network : Network}
    {counts counts' : Counts} {top' : Component} (h : Accepted conf network)
    (hrun : bindComponent gen [] counts network.top = .ok (top', counts'))
    (hfresh : Fresh network.top top') (honce : BoundOnce network.top) :
    Preserved network.top top' 0 ∧ ∀ (bgen : BoundaryGenerators) (fuel : Nat) (top'' : Component)
      (clients : List Subclient), boundaries bgen fuel top' = .ok (top'', clients) →
        Apart top' (boundaryNames top') →
          Preserved network.top top'' (boundaryNames top').length := by
  have hstart : BoundAt gen network.top top' ⟨network.top, []⟩ ⟨top', []⟩ :=
    .top ⟨counts, counts', hrun⟩
  constructor
  · intro place hplace
    obtain ⟨place', hbound⟩ := bound_below h hfresh honce hplace hstart
    obtain ⟨made, rebounds, hrewired⟩ := rewired h hfresh honce hbound
    refine ⟨place', hbound.kept, ?_, fun itf ir hreturns => ?_⟩
    · rw [ite_self]
      exact hrewired.unshadowed
    · obtain ⟨route, t, t', passed, ir', hroute, ht, hpassage, ht', hlast', hsame, hserver, hhops⟩ :=
        hbound.resolves h hfresh honce hreturns
      exact ⟨route, t, passed, ir', hroute, ht, hpassage.resolves ht' hlast' hserver, hsame, hhops⟩
  · intro bgen fuel top'' clients hboundaries hapart place hplace
    have hbounded := boundaries_bounded hboundaries hapart
    have hwide := hbounded.toWidened
    obtain ⟨place', hbound⟩ := bound_below h hfresh honce hplace hstart
    obtain ⟨made, rebounds, hrewired⟩ := rewired h hfresh honce hbound
    obtain ⟨place'', hatop⟩ := atop_below hbound.under' (.top : Atop top' top'' ⟨top', []⟩ ⟨top'', []⟩)
    refine ⟨place'', hbound.kept.atop hatop hwide,
      hrewired.unshadowed.atop hatop hbounded hrewired.this hbound.owners, fun itf ir hreturns => ?_⟩
    obtain ⟨route, t, t', passed, ir', hroute, ht, hpassage, ht', hlast', hsame, hserver, hhops⟩ :=
      hbound.resolves h hfresh honce hreturns
    obtain ⟨t'', hpassage', hlast⟩ := EndAtop.passage hwide hbounded.isTop hpassage
      (.client hatop itf)
    obtain ⟨ht'', ir'', hlast'', hsame'⟩ := hlast.last hwide ht' hlast'
    refine ⟨route, t, passed, ir'', hroute, ht, hpassage'.reaches ht'' hlast'' ?_, ?_, hhops⟩
    · intro r server hr hserver'
      cases hsame' with
      | unbound => cases hr
      | outside =>
        cases hr
        cases hserver'
      | served hserved itfname collectionIndex =>
        cases hr
        cases hserver'
        exact (hserved.widened hwide).kind.trans (hserver _ _ rfl rfl)
    · exact SameReference.comp (fun a b c hab hbc => hab.atop hbc hwide) hsame hsame'

section Samples
variable {top top' : Component} {place : Place}

/-- A component on top whose contents are primitives has no others below it. -/
theorem under_flat (hflat : ∀ sc ∈ top.contents, sc.isComposite = false)
    (h : Under ⟨top, []⟩ place) : place = ⟨top, []⟩ ∨ place.component.isComposite = false := by
  cases h with
  | refl => exact .inl rfl
  | sub hsc h =>
    right
    have hraw := hflat _ hsc
    cases h with
    | refl => exact hraw
    | sub hsc' _ => exact nomatch hraw.symm.trans (isComposite_of_content hsc')

theorem fresh_flat (hflat : ∀ sc ∈ top.contents, sc.isComposite = false)
    (hflat' : ∀ sc ∈ top'.contents, sc.isComposite = false)
    (h : ∀ c ∈ top'.contents, c.kind ≠ .instantiated → ∀ sc ∈ top.contents,
      sc.nameinowner ≠ c.nameinowner) : Fresh top top' := by
  intro place place' hplace hplace' _ c hc hkind sc hsc
  rcases under_flat hflat hplace with rfl | hraw
  · rcases under_flat hflat' hplace' with rfl | hraw
    · exact h c hc hkind sc hsc
    · exact nomatch hraw.symm.trans (isComposite_of_content hc)
  · exact nomatch hraw.symm.trans (isComposite_of_content hsc)

theorem boundOnce_flat (hflat : ∀ sc ∈ top.contents, sc.isComposite = false)
    (h : (top.getBinds.map Bind.client).Nodup) : BoundOnce top := by
  intro place hplace
  rcases under_flat hflat hplace with rfl | hraw
  · exact h
  · obtain ⟨component, owners⟩ := place
    cases component with
    | raw decl isFirstInstance kind => exact .nil
    | composite decl binds subcomponents controllercomponents => cases hraw

end Samples

def hostee : Configuration := ⟨.cpp, .hostEE, fun _ => true⟩

def sampleGenerators : Generators := ⟨some ([], []), some ([], []), fun _ => true⟩

def sampleBoundaries : BoundaryGenerators := ⟨fun _ => some true, ([], []), ([], [])⟩

def asynchronousBind (from_ fromitf to_ toitf : String) : Bind :=
  { astbind from_ (fromitf, none) to_ (toitf, none) with asynchronous := true }

def sampleProvider : Component :=
  .raw ⟨"server", "Server", false, none, "1", [],
    [⟨"test.api", "p", false, 1, "", false, 0⟩]⟩ true .instantiated

/-- A composite that provides what its server does, with a client of the same server. -/
def sampleProviding : Component :=
  .composite ⟨"", "Top", false, none, "1", [], [⟨"test.api", "run", false, 1, "", false, 0⟩]⟩
    [asynchronousBind "client" "r" "server" "p", asynchronousBind "this" "run" "server" "p"]
    [sampleClient, sampleProvider] []

/-- What the binder makes of a component. -/
def made (c : Component) : Component :=
  match bindComponent sampleGenerators [] ⟨0, 0⟩ c with
  | .ok (c', _) => c'
  | .error _ => c

def madeAtop (c : Component) : Component :=
  match boundaries sampleBoundaries 3 (made c) with
  | .ok (c', _) => c'
  | .error _ => c

theorem architecture_preserved_sample : Preserved sampleProviding (made sampleProviding) 0 ∧
    Preserved sampleProviding (madeAtop sampleProviding) 1 := by
  have haccepted : Accepted hostee ⟨sampleProviding, rfl⟩ := ⟨rfl, 3, rfl⟩
  have hrun : bindComponent sampleGenerators [] ⟨0, 0⟩ sampleProviding =
      .ok (made sampleProviding, ⟨2, 0⟩) := rfl
  have hfresh : Fresh sampleProviding (made sampleProviding) :=
    fresh_flat (by decide) (by decide) (by decide)
  have honce : BoundOnce sampleProviding := boundOnce_flat (by decide) (by decide)
  have hapart : Apart (made sampleProviding) (boundaryNames (made sampleProviding)) :=
    ⟨by decide, by decide⟩
  obtain ⟨hbinder, hboundaries⟩ := architecture_preserved haccepted hrun hfresh honce
  exact ⟨hbinder, hboundaries sampleBoundaries 3 (madeAtop sampleProviding) [] rfl hapart⟩

def sampleRemote : Component :=
  .raw ⟨"client", "Client", false, some "mpc", "1",
    [⟨"test.api", "r", false, 1, false, false, false, false⟩], []⟩ true .instantiated

/-- A client on an MPC that is bound to a server on the host. -/
def sampleDistributed : Component :=
  .composite ⟨"", "Top", false, none, "1", [], []⟩ [asynchronousBind "client" "r" "server" "p"]
    [sampleRemote, sampleProvider] []

/-- What one distributed bind leads through may be two components, a skeleton and an event. -/
theorem skeleton_and_event : ∃ (conf : Configuration) (network : Network) (gen : Generators)
    (top' : Component) (counts : Counts) (place place' : Place) (bind : Bind)
    (passed : List Component) (ir ir' : Option InterfaceReference),
    Accepted conf network ∧ bindComponent gen [] ⟨0, 0⟩ network.top = .ok (top', counts) ∧
      Kept network.top top' place place' ∧ Returns place ⟨"r", none⟩ ir ∧
      Reaches (.client place' ⟨"r", none⟩) passed ir' ∧
      SameReference (Kept network.top top') ir ir' ∧
      (∃ t, Route (.client place ⟨"r", none⟩) [(⟨network.top, []⟩, bind)] t ∧ t.next = none) ∧
      passed.length = 2 := by
  have haccepted : Accepted hostee ⟨sampleDistributed, rfl⟩ := ⟨rfl, 3, rfl⟩
  have hrun : bindComponent sampleGenerators [] ⟨0, 0⟩ sampleDistributed =
      .ok (made sampleDistributed, ⟨1, 1⟩) := rfl
  have hfresh : Fresh sampleDistributed (made sampleDistributed) :=
    fresh_flat (by decide) (by decide) (by decide)
  have honce : BoundOnce sampleDistributed := boundOnce_flat (by decide) (by decide)
  have hcontent : sampleRemote ∈ sampleDistributed.contents := List.mem_cons_self
  have hcontent' : sampleRemote ∈ (made sampleDistributed).contents := List.mem_cons_self
  have hbound : BoundAt sampleGenerators sampleDistributed (made sampleDistributed)
      ⟨sampleRemote, [sampleDistributed]⟩ ⟨sampleRemote, [made sampleDistributed]⟩ :=
    .sub (.top ⟨_, _, hrun⟩) hcontent hcontent' ⟨⟨0, 0⟩, ⟨0, 0⟩, rfl⟩
  have hroute : Route (.client ⟨sampleRemote, [sampleDistributed]⟩ ⟨"r", none⟩)
      [(⟨sampleDistributed, []⟩, asynchronousBind "client" "r" "server" "p")]
      (.server ⟨sampleProvider, [sampleDistributed]⟩ ⟨"p", none⟩) := .next rfl rfl (.refl _)
  obtain ⟨t', passed, hmade, hpassage, hhops⟩ :=
    (EndMade.client hbound ⟨"r", none⟩).route haccepted hfresh honce hroute
  obtain ⟨ht', ir', hlast', hsame⟩ := hmade.last haccepted hfresh honce rfl rfl
  have hlength := congrArg List.length hhops
  rw [List.length_map] at hlength
  refine ⟨hostee, ⟨sampleDistributed, rfl⟩, sampleGenerators, made sampleDistributed, ⟨1, 1⟩, _, _,
    _, passed, _, ir', haccepted, hrun, hbound.kept, ⟨2, fun fuel hfuel => ?_⟩,
    hpassage.resolves ht' hlast' ?_, hsame, ⟨_, hroute, rfl⟩, hlength⟩
  · obtain ⟨fuel, rfl⟩ := Nat.exists_eq_add_of_le' hfuel
    rfl
  · intro r server hr hserver
    cases hsame with
    | served hserved =>
      cases hr
      cases hserver
      exact hserved.kind

end Codinalte.Graph
