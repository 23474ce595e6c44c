import Codinalte.Graph.Accepted

/-! Every required interface of an accepted network is followed to its end, and what it is bound to
has the type that is required. -/

namespace Codinalte.Graph
open Codinalte.Checks

/-- The end is one of an interface of this type, with an index that fits. -/
def Typed (network : Network) (type : String) : End → Prop
  | .client place itf => Under ⟨network.top, []⟩ place ∧ Requires place.component itf type
  | .server place itf => Under ⟨network.top, []⟩ place ∧ Provides place.component itf type

section Steps
variable {conf : Configuration} {network : Network} {e e' t : End} {type : String}

theorem bindOf_cases {binds : List Bind} {from_ : String} {fromitf : ItfName} {sb : Bind}
    (h : bindOf binds from_ fromitf = some sb) :
    sb ∈ binds ∧ sb.from_ = from_ ∧ sb.fromitf = fromitf := by
  have hfound := List.find?_some h
  exact ⟨List.mem_of_find?_eq_some h, of_decide_eq_true hfound⟩

/-- A bind that is followed has another end, of the same type. -/
theorem bindAt_leads (h : Accepted conf network) (he : Under ⟨network.top, []⟩ e.place)
    {composite : Place} {sb : Bind} (hbind : e.bindAt = some (composite, sb)) :
    ∃ e' type, e.next = some e' ∧ Typed network type e' ∧
      ∀ type', Typed network type' e → type' = type := by
  have hnext : e.next = e.across composite sb := by
    rw [End.next, hbind]
    rfl
  cases e with
  | client place itf =>
    obtain ⟨component, owners⟩ := place
    cases owners with
    | nil => cases hbind
    | cons owner owners =>
      obtain ⟨sb', hsb, heq⟩ := Option.map_eq_some_iff.mp hbind
      cases heq
      obtain ⟨hmem, hfrom, rfl⟩ := bindOf_cases hsb
      obtain ⟨howner, hcontent⟩ := he.up
      obtain ⟨client, server, type, hfits⟩ := h.bindFits howner hmem
      have hclient := hfits.isClient
      rw [hfrom, network.getFcSubComponent_self howner hcontent] at hclient
      cases hclient
      have hthis : sb.from_ ≠ "this" := hfrom ▸ ((network.names howner).2 _ hcontent).1
      have hfromtype := hfits.fromtype
      rw [if_neg hthis] at hfromtype
      have htype : ∀ type', Typed network type' (.client ⟨component, owner :: owners⟩ sb.fromitf) →
          type' = type := fun type' htyped => htyped.2.unique hfromtype
      have hserver := hfits.isServer
      have htotype := hfits.totype
      simp only [End.across] at hnext
      by_cases hto : sb.to_ = "this"
      · rw [if_pos hto] at htotype hnext
        rw [hto] at hserver
        cases hserver
        exact ⟨_, type, hnext, ⟨howner, htotype⟩, htype⟩
      · rw [if_neg hto] at htotype hnext
        rw [hserver] at hnext
        exact ⟨_, type, hnext, ⟨howner.getFcSubComponent hserver, htotype⟩, htype⟩
  | server place itf =>
    simp only [End.bindAt] at hbind
    split at hbind
    · obtain ⟨sb', hsb, heq⟩ := Option.map_eq_some_iff.mp hbind
      cases heq
      obtain ⟨hmem, hfrom, rfl⟩ := bindOf_cases hsb
      obtain ⟨client, server, type, hfits⟩ := h.bindFits he hmem
      have hclient := hfits.isClient
      rw [hfrom] at hclient
      cases hclient
      have hfromtype := hfits.fromtype
      rw [if_pos hfrom] at hfromtype
      have htotype := hfits.totype
      rw [if_neg (hfits.apart hfrom)] at htotype
      have hserver : composite.getFcSubComponent sb.to_ = some server := hfits.isServer
      simp only [End.across, hserver] at hnext
      exact ⟨_, type, hnext, ⟨Under.getFcSubComponent he hserver, htotype⟩,
        fun type' htyped => htyped.2.unique hfromtype⟩
    · cases hbind

theorem Typed.under (ht : Typed network type e) : Under ⟨network.top, []⟩ e.place := by
  cases e <;> exact ht.1

/-- A step from any end leads to an end with a type, and keeps the type that there was. -/
theorem next_typed (h : Accepted conf network) (he : Under ⟨network.top, []⟩ e.place)
    (hnext : e.next = some e') :
    ∃ type, Typed network type e' ∧ ∀ type', Typed network type' e → type' = type := by
  obtain ⟨⟨composite, sb⟩, hbind, -⟩ := Option.bind_eq_some_iff.mp hnext
  obtain ⟨e'', type, hnext', htyped, huniq⟩ := bindAt_leads h he hbind
  cases hnext.symm.trans hnext'
  exact ⟨type, htyped, huniq⟩

theorem Typed.leads (h : Accepted conf network) (ht : Typed network type e) (hleads : Leads e t) :
    Typed network type t := by
  induction hleads with
  | refl => exact ht
  | tail _ hnext ih =>
    obtain ⟨type', htyped, huniq⟩ := next_typed h ih.under hnext
    exact huniq type ih ▸ htyped

/-- An end that is not typed leads to one that is, or nowhere. -/
theorem leads_typed (h : Accepted conf network) (he : Under ⟨network.top, []⟩ e.place)
    (hleads : Leads e t) : t = e ∨ ∃ type, Typed network type t := by
  rcases Relation.ReflTransGen.cases_head hleads with rfl | ⟨e', hnext, hleads⟩
  · exact .inl rfl
  · obtain ⟨type, htyped, -⟩ := next_typed h he hnext
    exact .inr ⟨type, htyped.leads h hleads⟩

end Steps

section Termination
variable {conf : Configuration} {network : Network} {e t : End}

theorem sizeOf_content {sc component : Component} (h : sc ∈ component.contents) :
    sizeOf sc < sizeOf component := by
  cases component with
  | raw decl isFirstInstance kind => cases h
  | composite decl binds subcomponents controllercomponents =>
    rw [Component.composite.sizeOf_spec]
    rcases List.mem_append.mp h with h | h
    · have hlt := List.sizeOf_lt_of_mem h
      omega
    · have hlt := List.sizeOf_lt_of_mem h
      omega

/-- A lookup goes inwards as far as there are components. -/
theorem server_ends (h : Accepted conf network) (n : Nat) {place : Place} {itf : ItfName}
    (hn : sizeOf place.component ≤ n) (he : Under ⟨network.top, []⟩ place) :
    ∃ t, Leads (.server place itf) t ∧ t.next = none := by
  induction n generalizing place itf with
  | zero =>
    obtain ⟨component, owners⟩ := place
    cases component <;> simp at hn
  | succ n ih =>
    cases hnext : (End.server place itf).next with
    | none => exact ⟨_, .refl, hnext⟩
    | some e' =>
      obtain ⟨⟨composite, sb⟩, hbind, hacross⟩ := Option.bind_eq_some_iff.mp hnext
      simp only [End.bindAt] at hbind
      split at hbind
      · obtain ⟨sb', hsb, heq⟩ := Option.map_eq_some_iff.mp hbind
        cases heq
        obtain ⟨hmem, hfrom, -⟩ := bindOf_cases hsb
        obtain ⟨sc, hsc, rfl⟩ := Option.map_eq_some_iff.mp hacross
        obtain ⟨client, server, type, hfits⟩ := h.bindFits he hmem
        rcases getFcSubComponent_cases hsc with ⟨hto, -⟩ | ⟨-, sc, hcontent, -, rfl⟩
        · exact absurd hto (hfits.apart hfrom)
        · have hlt := sizeOf_content hcontent
          have hsmall := Nat.le_of_lt_succ (Nat.lt_of_lt_of_le hlt hn)
          obtain ⟨t, hleads, ht⟩ := ih hsmall (he.content hcontent)
          exact ⟨t, .head hnext hleads, ht⟩
      · cases hbind

/-- Every interface is followed to an end that leads nowhere. -/
theorem leads_last (h : Accepted conf network) (he : Under ⟨network.top, []⟩ e.place) :
    ∃ t, Leads e t ∧ t.next = none := by
  cases e with
  | server place itf => exact server_ends h _ (Nat.le_refl _) he
  | client place itf =>
    obtain ⟨component, owners⟩ := place
    induction owners generalizing component itf with
    | nil => exact ⟨_, .refl, rfl⟩
    | cons owner owners ih =>
      cases hnext : (End.client ⟨component, owner :: owners⟩ itf).next with
      | none => exact ⟨_, .refl, hnext⟩
      | some e' =>
        obtain ⟨⟨composite, sb⟩, hbind, hacross⟩ := Option.bind_eq_some_iff.mp hnext
        obtain ⟨sb', hsb, heq⟩ := Option.map_eq_some_iff.mp hbind
        cases heq
        obtain ⟨howner, -⟩ := he.up
        simp only [End.across] at hacross
        split at hacross
        · cases hacross
          obtain ⟨t, hleads, ht⟩ := ih sb.toitf owner howner
          exact ⟨t, .head hnext hleads, ht⟩
        · obtain ⟨sc, hsc, rfl⟩ := Option.map_eq_some_iff.mp hacross
          obtain ⟨t, hleads, ht⟩ := server_ends h _ (Nat.le_refl _) (howner.getFcSubComponent hsc)
          exact ⟨t, .head hnext hleads, ht⟩

end Termination

/-- What a required interface of the type has to be bound to: an interface of the component on top,
or one of a primitive, with an index where that one is a collection. -/
def Resolved (network : Network) (type : String) (ir : InterfaceReference) : Prop :=
  match ir.server with
  | none => ∃ require, network.top.getRequire ir.itfname = some require ∧ require.type = type
  | some server =>
    Under ⟨network.top, []⟩ server ∧ server.component.isComposite = false ∧
      ∃ provide, server.component.getProvide ir.itfname = some provide ∧ provide.type = type ∧
        if provide.collection then
          0 ≤ ir.collectionIndex ∧ ir.collectionIndex < provide.numberOfElement
        else ir.collectionIndex = -1

/-- `lookupFc` returns, from some fuel on. -/
def Returns (place : Place) (itf : ItfName) (ir : Option InterfaceReference) : Prop :=
  ∃ n, ∀ fuel ≥ n, lookupFc fuel place.component place.owners itf = .returned ir

/-- Of the binds that are followed from the interface, none that ends at a primitive has a negative
index there. -/
def IndexKept (place : Place) (itf : ItfName) : Prop :=
  ∀ composite sb server, Followed (.client place itf) composite sb →
    composite.getFcSubComponent sb.to_ = some server → server.component.isComposite = false →
      ∀ i, sb.toitf.index = some i → 0 ≤ i

section Results
variable {conf : Configuration} {network : Network} {e t : End} {type : String}

theorem bindAt_last (h : Accepted conf network) (he : Under ⟨network.top, []⟩ e.place)
    (hlast : e.next = none) : e.bindAt = none := by
  cases hbind : e.bindAt with
  | none => rfl
  | some p =>
    obtain ⟨e', -, hnext, -⟩ := bindAt_leads h he hbind
    exact nomatch hlast.symm.trans hnext

/-- What is read off the end of a lookup. -/
theorem last_cases (h : Accepted conf network) (ht : Typed network type t) (hlast : t.next = none) :
    t.last = .returned none ∨
      (∃ itf require, t = .client ⟨network.top, []⟩ itf ∧
        network.top.getRequire require.name = some require ∧ require.type = type ∧
        t.last = .returned (some ⟨none, require.name, itf.getIndexOfInterfaceCollection⟩)) ∨
      ∃ server itf provide, t = .server server itf ∧ server.component.isComposite = false ∧
        server.component.getProvide provide.name = some provide ∧ provide.type = type ∧
        IndexFits provide.collection provide.numberOfElement itf ∧
        t.last = .returned (some ⟨some server, provide.name, itf.getIndexOfInterfaceCollection⟩) := by
  have hbind := bindAt_last h ht.under hlast
  cases t with
  | client place itf =>
    obtain ⟨component, owners⟩ := place
    cases owners with
    | nil =>
      obtain ⟨hunder, require, hrequire, htype, -⟩ := ht
      cases hunder.top_of_nil
      have hname : require.name = itf.getNameOfInterfaceCollection := by
        have hfound := List.find?_some hrequire
        exact of_decide_eq_true hfound
      refine .inr (.inl ⟨itf, require, rfl, hname ▸ hrequire, htype, ?_⟩)
      simp only [End.last, hrequire]
    | cons owner owners =>
      have hsb : bindOf owner.getBinds component.nameinowner itf = none :=
        Option.map_eq_none_iff.mp hbind
      left
      simp only [End.last, hsb]
  | server place itf =>
    obtain ⟨hunder, provide, hprovide, htype, hindex⟩ := ht
    obtain ⟨component, owners⟩ := place
    have hprovided : component.getProvide itf.getNameOfInterfaceCollection = some provide := hprovide
    cases component with
    | raw decl isFirstInstance kind =>
      have hname : provide.name = itf.getNameOfInterfaceCollection := by
        have hfound := List.find?_some hprovide
        exact of_decide_eq_true hfound
      refine .inr (.inr ⟨_, itf, provide, rfl, rfl, hname ▸ hprovide, htype, hindex, ?_⟩)
      simp only [End.last, hprovided]
    | composite decl binds subcomponents controllercomponents =>
      simp only [End.bindAt, hprovided, Option.isSome_some, if_true] at hbind
      have hsb : bindOf binds "this" itf = none := Option.map_eq_none_iff.mp hbind
      left
      simp only [End.last, hprovided, hsb]

theorem elements_name {require : Require} {itf : ItfName} (hitf : itf ∈ require.elements) :
    itf.getNameOfInterfaceCollection = require.name := by
  unfold Require.elements at hitf
  split at hitf
  · obtain ⟨i, -, rfl⟩ := List.mem_map.mp hitf
    rfl
  · rw [List.mem_singleton.mp hitf]
    rfl

theorem elements_fit {require : Require} {itf : ItfName} (hitf : itf ∈ require.elements) :
    IndexFits require.collection require.numberOfElement itf := by
  unfold Require.elements at hitf
  unfold IndexFits
  split at hitf
  · next hcollection =>
    rw [if_pos hcollection]
    obtain ⟨i, hi, rfl⟩ := List.mem_map.mp hitf
    have hlt := List.mem_range.mp hi
    refine ⟨(fun h => nomatch h), ?_⟩
    simp only [ItfName.getIndexOfInterfaceCollection, Option.getD_some]
    omega
  · next hcollection =>
    rw [if_neg hcollection, List.mem_singleton.mp hitf]

/-- The lookup of a required interface returns. -/
theorem lookupFc_returns (h : Accepted conf network) {place : Place}
    (hplace : Under ⟨network.top, []⟩ place) {require : Require}
    (hrequire : require ∈ place.component.getRequires) {itf : ItfName}
    (hitf : itf ∈ require.elements) : ∃ ir, Returns place itf ir := by
  have hunder : Under ⟨network.top, []⟩ (End.client place itf).place := hplace
  obtain ⟨t, hleads, hlast⟩ := leads_last h hunder
  have hyields := yields_of_leads hleads hlast
  suffices hreturned : ∃ ir, t.last = .returned ir by
    obtain ⟨ir, hir⟩ := hreturned
    rw [hir] at hyields
    exact ⟨ir, hyields⟩
  rcases leads_typed h hunder hleads with rfl | ⟨type, htyped⟩
  · have hbind := bindAt_last h hunder hlast
    obtain ⟨component, owners⟩ := place
    cases owners with
    | nil =>
      have hsome : (component.getRequire itf.getNameOfInterfaceCollection).isSome = true := by
        rw [elements_name hitf]
        exact List.find?_isSome.mpr ⟨require, hrequire, decide_eq_true rfl⟩
      obtain ⟨found, hfound⟩ := Option.isSome_iff_exists.mp hsome
      simp only [End.last, hfound]
      exact ⟨_, rfl⟩
    | cons owner owners =>
      have hsb : bindOf owner.getBinds component.nameinowner itf = none :=
        Option.map_eq_none_iff.mp hbind
      simp only [End.last, hsb]
      exact ⟨_, rfl⟩
  · rcases last_cases h htyped hlast with hir | ⟨itf', require', -, -, -, hir⟩ |
      ⟨server, itf', provide, -, -, -, -, -, hir⟩
    · exact ⟨_, hir⟩
    · exact ⟨_, hir⟩
    · exact ⟨_, hir⟩

/-- A required interface that is mandatory is bound. -/
theorem mandatory_bound (h : Accepted conf network) {place : Place}
    (hplace : Under ⟨network.top, []⟩ place) (hfirst : place.component.isFirstInstance = true)
    {require : Require} (hrequire : require ∈ place.component.getRequires)
    (hoptional : require.optional = false) (hintrinsec : require.isIntrinsec = false)
    {itf : ItfName} (hitf : itf ∈ require.elements) (hleads : Leads (.client place itf) t)
    (hlast : t.next = none) : t.last ≠ .returned none := by
  obtain ⟨fuel, hfuel⟩ := h.checkbinding
  have hcommon := (passed_of_browse hfuel hplace).travelCommon hfirst
  have hchecked := checkEach_ok.mp (checkEach_ok.mp hcommon require hrequire) itf hitf
  unfold checkbinding.checkRequire at hchecked
  obtain ⟨itfref, hitfref, hchecked⟩ := bind_ok.mp hchecked
  have hlook : (End.client place itf).look fuel = .returned itfref := by
    unfold checkbinding.result at hitfref
    split at hitfref
    · cases hitfref
    · cases hitfref
    · next ir hir =>
      cases hitfref
      exact hir
  rcases look_of_leads hleads hlast fuel with hunfinished | hlooked
  · exact nomatch hlook.symm.trans hunfinished
  · intro hnone
    cases hlook.symm.trans (hlooked.trans hnone)
    exact reject_ok.mp hchecked ⟨hoptional, hintrinsec⟩

theorem leads_unique {u : End} (h : Leads e t) (ht : t.next = none) (h' : Leads e u)
    (hu : u.next = none) : t = u := by
  have hunique : Relator.RightUnique fun e e' : End => e.next = some e' :=
    fun _ _ _ hb hc => Option.some.inj (hb.symm.trans hc)
  have hstop : ∀ {t u : End}, t.next = none → Leads t u → t = u := by
    intro t u ht hleads
    rcases Relation.ReflTransGen.cases_head hleads with rfl | ⟨e', hnext, -⟩
    · rfl
    · exact nomatch ht.symm.trans hnext
  rcases Relation.ReflTransGen.total_of_right_unique hunique h h' with hleads | hleads
  · exact hstop ht hleads
  · exact (hstop hu hleads).symm

theorem raw_next {place : Place} {itf : ItfName} (h : place.component.isComposite = false) :
    (End.server place itf).next = none := by
  obtain ⟨component, owners⟩ := place
  cases component with
  | raw decl isFirstInstance kind =>
    simp only [End.next, End.bindAt]
    split <;> rfl
  | composite decl binds subcomponents controllercomponents => cases h

theorem bindAt_mem {composite : Place} {sb : Bind} (h : e.bindAt = some (composite, sb)) :
    sb ∈ composite.component.getBinds := by
  cases e with
  | client place itf =>
    obtain ⟨component, owners⟩ := place
    cases owners with
    | nil => cases h
    | cons owner owners =>
      obtain ⟨sb', hsb, heq⟩ := Option.map_eq_some_iff.mp h
      cases heq
      exact (bindOf_cases hsb).1
  | server place itf =>
    simp only [End.bindAt] at h
    split at h
    · obtain ⟨sb', hsb, heq⟩ := Option.map_eq_some_iff.mp h
      cases heq
      exact (bindOf_cases hsb).1
    · cases h

theorem isComposite_of_bind {component : Component} {sb : Bind} (h : sb ∈ component.getBinds) :
    component.isComposite = true := by
  cases component with
  | raw decl isFirstInstance kind => cases h
  | composite decl binds subcomponents controllercomponents => rfl

theorem isComposite_of_content {component sc : Component} (h : sc ∈ component.contents) :
    component.isComposite = true := by
  cases component with
  | raw decl isFirstInstance kind => cases h
  | composite decl binds subcomponents controllercomponents => rfl

theorem next_server {composite server : Place} {sb : Bind} (hbind : e.bindAt = some (composite, sb))
    (hserver : composite.getFcSubComponent sb.to_ = some server)
    (hraw : server.component.isComposite = false) : e.next = some (.server server sb.toitf) := by
  have hthis : sb.to_ ≠ "this" := by
    intro hto
    rw [hto] at hserver
    cases hserver
    exact nomatch hraw.symm.trans (isComposite_of_bind (bindAt_mem hbind))
  rw [End.next, hbind]
  cases e with
  | client place itf =>
    simp only [Option.bind_some, End.across, if_neg hthis, hserver, Option.map_some]
  | server place itf => simp only [Option.bind_some, End.across, hserver, Option.map_some]

/-- The bind that ends at a primitive is the last one. -/
theorem followed_last {composite server : Place} {sb : Bind} (hfollowed : Followed e composite sb)
    (hserver : composite.getFcSubComponent sb.to_ = some server)
    (hraw : server.component.isComposite = false) (hleads : Leads e t) (hlast : t.next = none) :
    t = .server server sb.toitf := by
  obtain ⟨e', hleads', hbind⟩ := hfollowed
  exact leads_unique hleads hlast (hleads'.tail (next_server hbind hserver hraw)) (raw_next hraw)

/-- A lookup that ends at a component that serves it has followed a bind to there. -/
theorem last_followed {place server : Place} {itf itf' : ItfName}
    (h : Leads (.client place itf) (.server server itf')) :
    ∃ composite sb, Followed (.client place itf) composite sb ∧
      composite.getFcSubComponent sb.to_ = some server ∧ sb.toitf = itf' := by
  rcases Relation.ReflTransGen.cases_tail h with heq | ⟨e', hleads, hnext⟩
  · cases heq
  · obtain ⟨⟨composite, sb⟩, hbind, hacross⟩ := Option.bind_eq_some_iff.mp hnext
    refine ⟨composite, sb, ⟨e', hleads, hbind⟩, ?_⟩
    cases e' with
    | client place' itf'' =>
      simp only [End.across] at hacross
      split at hacross
      · cases hacross
      · obtain ⟨sc, hsc, heq⟩ := Option.map_eq_some_iff.mp hacross
        cases heq
        exact ⟨hsc, rfl⟩
    | server place' itf'' =>
      obtain ⟨sc, hsc, heq⟩ := Option.map_eq_some_iff.mp hacross
      cases heq
      exact ⟨hsc, rfl⟩

end Results

/-- An index that fits is in the range of the collection unless it is negative. -/
theorem range_iff {collection : Bool} {numberOfElement : Int} {itf : ItfName}
    (h : IndexFits collection numberOfElement itf) :
    (if collection then 0 ≤ itf.getIndexOfInterfaceCollection ∧
        itf.getIndexOfInterfaceCollection < numberOfElement
      else itf.getIndexOfInterfaceCollection = -1) ↔ ∀ i, itf.index = some i → 0 ≤ i := by
  obtain ⟨name, index⟩ := itf
  unfold IndexFits at h
  cases collection with
  | true =>
    simp only [if_true] at h ⊢
    cases index with
    | none => exact absurd rfl h.1
    | some i =>
      constructor
      · rintro ⟨hnonneg, -⟩ j hj
        cases hj
        exact hnonneg
      · exact fun hnonneg => ⟨hnonneg i rfl, h.2⟩
  | false =>
    simp only [Bool.false_eq_true, if_false] at h ⊢
    cases h
    exact iff_of_true rfl (fun _ h => nomatch h)

/-- Every lookup in an accepted network returns, and a mandatory interface of a primitive is
resolved if and only if no negative index stands at the end of its binds. -/
theorem mandatory_resolved {conf : Configuration} {network : Network} (h : Accepted conf network) :
    (∀ place, Under ⟨network.top, []⟩ place → ∀ require ∈ place.component.getRequires,
      ∀ itf ∈ require.elements, ∃ ir, Returns place itf ir) ∧
    ∀ place, Under ⟨network.top, []⟩ place → place.component.isComposite = false →
      place.component.isFirstInstance = true → ∀ require ∈ place.component.getRequires,
        require.optional = false → require.isIntrinsec = false → ∀ itf ∈ require.elements,
          ((∃ ir, Returns place itf (some ir) ∧ Resolved network require.type ir) ↔
            IndexKept place itf) := by
  refine ⟨fun place hplace require hrequire itf hitf => lookupFc_returns h hplace hrequire hitf, ?_⟩
  intro place hplace hraw hfirst require hrequire hoptional hintrinsec itf hitf
  have hself : place.component.getRequire itf.getNameOfInterfaceCollection = some require := by
    rw [elements_name hitf]
    exact h.getRequire_self hplace hfirst hrequire
  have htyped : Typed network require.type (.client place itf) :=
    ⟨hplace, require, hself, rfl, elements_fit hitf⟩
  obtain ⟨t, hleads, hlast⟩ := leads_last h htyped.under
  have hyields := yields_of_leads hleads hlast
  have hbound := mandatory_bound h hplace hfirst hrequire hoptional hintrinsec hitf hleads hlast
  have hreturned : ∀ ir, t.last = .returned (some ir) →
      ((∃ ir', Returns place itf (some ir') ∧ Resolved network require.type ir') ↔
        Resolved network require.type ir) := by
    intro ir hir
    rw [hir] at hyields
    constructor
    · rintro ⟨ir', hir', hresolved⟩
      cases Yields.unique hyields hir'
      exact hresolved
    · exact fun hresolved => ⟨ir, hyields, hresolved⟩
  rcases last_cases h (htyped.leads h hleads) hlast with hnone |
    ⟨itf', require', rfl, hrequire', htype, hir⟩ |
    ⟨server, itf', provide, rfl, hserver, hprovide, htype, hindex, hir⟩
  · exact absurd hnone hbound
  · rw [hreturned _ hir]
    refine iff_of_true ⟨require', hrequire', htype⟩ ?_
    intro composite sb server hfollowed hsub hserver
    cases followed_last hfollowed hsub hserver hleads hlast
  · rw [hreturned _ hir]
    constructor
    · rintro ⟨-, -, provide', hprovide', -, hrange⟩ composite sb server' hfollowed hsub hserver' i hi
      cases followed_last hfollowed hsub hserver' hleads hlast
      cases hprovide.symm.trans hprovide'
      exact (range_iff hindex).mp hrange i hi
    · intro hkept
      obtain ⟨composite, sb, hfollowed, hsub, rfl⟩ := last_followed hleads
      refine ⟨(htyped.leads h hleads).under, hserver, provide, hprovide, htype, ?_⟩
      exact (range_iff hindex).mpr (hkept composite sb server hfollowed hsub hserver)

def sampleConfiguration : Configuration := ⟨.c, .embeddedC, fun _ => true⟩

def sampleClient : Component :=
  .raw ⟨"client", "Client", false, none, "1",
    [⟨"test.api", "r", false, 1, false, false, false, false⟩], []⟩ true .instantiated

def sampleServer : Component :=
  .raw ⟨"server", "Server", false, none, "1", [],
    [⟨"test.api", "p", true, 2, "", false, 0⟩]⟩ true .instantiated

/-- A client that is bound to one element of a collection. -/
def sampleComposite (index : Nat) : Component :=
  .composite ⟨"", "Top", false, none, "1", [], []⟩
    [astbind "client" ("r", none) "server" ("p", some index)] [sampleClient, sampleServer] []

def sampleNetwork (index : Nat) : Network := ⟨sampleComposite index, rfl⟩

def samplePlace (index : Nat) : Place := ⟨sampleClient, [sampleComposite index]⟩

theorem sample_under (index : Nat) :
    Under ⟨(sampleNetwork index).top, []⟩ (samplePlace index) := by
  have hcontent : sampleClient ∈ (sampleComposite index).contents := List.mem_cons_self
  exact .sub hcontent (.refl _)

theorem mandatory_resolved_sample : ∃ ir, Returns (samplePlace 1) ⟨"r", none⟩ (some ir) ∧
    Resolved (sampleNetwork 1) "test.api" ir := by
  have haccepted : Accepted sampleConfiguration (sampleNetwork 1) := ⟨rfl, 1, rfl⟩
  refine ((mandatory_resolved haccepted).2 (samplePlace 1) (sample_under 1) rfl rfl
    ⟨"test.api", "r", false, 1, false, false, false, false⟩ List.mem_cons_self rfl rfl ⟨"r", none⟩
    List.mem_cons_self).mpr ?_
  intro composite sb server hfollowed hserver hraw i hi
  have hleads : Leads (.client (samplePlace 1) ⟨"r", none⟩)
      (.server ⟨sampleServer, [sampleComposite 1]⟩ ⟨"p", some 1⟩) := .single rfl
  have hlast := followed_last hfollowed hserver hraw hleads rfl
  have hindex : sb.toitf.index = some 1 := by
    rw [← (End.server.inj hlast).2]
  have hi' : i = 1 := Option.some.inj (hi.symm.trans hindex)
  omega

/-- An index above the range of an int is accepted, and is negative in the binding. -/
theorem negative_index_accepted : ∃ (conf : Configuration) (network : Network) (place : Place)
    (require : Require) (itf : ItfName), Accepted conf network ∧ Under ⟨network.top, []⟩ place ∧
      place.component.isComposite = false ∧ place.component.isFirstInstance = true ∧
      require ∈ place.component.getRequires ∧ require.optional = false ∧
      require.isIntrinsec = false ∧ itf ∈ require.elements ∧
      ¬ ∃ ir, Returns place itf (some ir) ∧ Resolved network require.type ir := by
  refine ⟨sampleConfiguration, sampleNetwork 4294967294, samplePlace 4294967294,
    ⟨"test.api", "r", false, 1, false, false, false, false⟩, ⟨"r", none⟩, ⟨rfl, 1, rfl⟩,
    sample_under _, rfl, rfl, List.mem_cons_self, rfl, rfl, List.mem_cons_self, ?_⟩
  rintro ⟨ir, ⟨n, hn⟩, hresolved⟩
  have hreturned : Lookup.returned (some ⟨some ⟨sampleServer, [sampleComposite 4294967294]⟩, "p",
      -2⟩) = .returned (some ir) := hn (n + 1) (Nat.le_succ n)
  cases hreturned
  obtain ⟨-, -, provide, hprovide, -, hrange⟩ := hresolved
  cases hprovide
  exact absurd hrange (by decide)

end Codinalte.Graph
