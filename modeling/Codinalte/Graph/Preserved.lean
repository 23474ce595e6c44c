import Codinalte.Graph.Bound

/-! The pass keeps what every client interface is bound to. -/

namespace Codinalte.Graph
open Codinalte.Checks Codinalte.Keyed

/-- The binds of a network one after the other. -/
inductive Route : End → List (Place × Bind) → End → Prop where
  | refl (e : End) : Route e [] e
  | next {e e' t : End} {composite : Place} {sb : Bind} {route : List (Place × Bind)}
      (hbind : e.bindAt = some (composite, sb)) (hnext : e.next = some e') (h : Route e' route t) :
      Route e ((composite, sb) :: route) t

/-- From one end to another, through the `target` of the components that are passed. -/
inductive Passage : End → List Component → End → Prop where
  | refl (e : End) : Passage e [] e
  | next {e e' t : End} {passed : List Component} (hnext : e.next = some e')
      (h : Passage e' passed t) : Passage e passed t
  | through {place : Place} {hop : Hop} {t : End} {passed : List Component}
      (hhands : Hands place.component hop) (h : Passage (.client place target) passed t) :
      Passage (.server place target) (place.component :: passed) t

/-- What is reached by `lookupFc`, which is called again for the `target` of each component that is
passed. -/
inductive Reaches : End → List Component → Option InterfaceReference → Prop where
  | ends {e : End} {ir : Option InterfaceReference} (h : Yields e (.returned ir))
      (hserver : ∀ r server, ir = some r → r.server = some server →
        server.component.kind = .instantiated) : Reaches e [] ir
  | through {e : End} {r : InterfaceReference} {server : Place} {passed : List Component}
      {ir : Option InterfaceReference} (hyields : Yields e (.returned (some r)))
      (hserver : r.server = some server) (hname : r.itfname = "target")
      (hkind : server.component.kind ≠ .instantiated)
      (h : Reaches (.client server target) passed ir) : Reaches e (server.component :: passed) ir

section Passages
variable {e e' t : End} {passed passed' : List Component} {ir : Option InterfaceReference}

theorem Passage.trans (h : Passage e passed e') (h' : Passage e' passed' t) :
    Passage e (passed ++ passed') t := by
  induction h with
  | refl => exact h'
  | next hnext _ ih => exact .next hnext (ih h')
  | through hhands _ ih => exact .through hhands (ih h')

theorem Passage.single (h : e.next = some e') : Passage e [] e' := .next h (.refl _)

theorem Reaches.next (hnext : e.next = some e') (h : Reaches e' passed ir) :
    Reaches e passed ir := by
  cases h with
  | ends hyields hserver =>
    obtain ⟨n, hn⟩ := hyields
    exact .ends ((look_next hnext).yields hn) hserver
  | through hyields hserver hname hkind hrest =>
    obtain ⟨n, hn⟩ := hyields
    exact .through ((look_next hnext).yields hn) hserver hname hkind hrest

theorem Hands.yields {place : Place} {hop : Hop} (h : Hands place.component hop) :
    Yields (.server place target) (.returned (some ⟨some place, "target", -1⟩)) := by
  have hnext : (End.server place target).next = none := raw_next h.raw
  have hlast := yields_of_leads .refl hnext
  obtain ⟨component, owners⟩ := place
  obtain ⟨provide, hprovide, hname⟩ := h.provide
  cases component with
  | composite decl binds subcomponents controllercomponents => cases h.raw
  | raw decl isFirstInstance kind =>
    have hprovided : (Component.raw decl isFirstInstance kind).getProvide
        target.getNameOfInterfaceCollection = some provide := hprovide
    simp only [End.last, hprovided, hname] at hlast
    exact hlast

/-- A passage to an end that leads nowhere is what the lookups follow. -/
theorem Passage.reaches (h : Passage e passed t) (ht : t.next = none) (hlast : t.last = .returned ir)
    (hserver : ∀ r server, ir = some r → r.server = some server →
      server.component.kind = .instantiated) : Reaches e passed ir := by
  induction h with
  | refl =>
    have hyields := yields_of_leads .refl ht
    rw [hlast] at hyields
    exact .ends hyields hserver
  | next hnext _ ih => exact (ih ht hlast).next hnext
  | through hhands _ ih =>
    exact .through hhands.yields rfl rfl hhands.ne_instantiated (ih ht hlast)

end Passages

/-- The same end before and after the pass. -/
inductive EndMade (gen : Generators) (top top' : Component) : End → End → Prop where
  | client {place place' : Place} (h : BoundAt gen top top' place place') (itf : ItfName) :
      EndMade gen top top' (.client place itf) (.client place' itf)
  | server {place place' : Place} (h : BoundAt gen top top' place place') (itf : ItfName) :
      EndMade gen top top' (.server place itf) (.server place' itf)

section Rewiring
variable {gen : Generators} {top top' : Component} {place place' : Place} {made : List Component}
  {rebounds : List Rebound}

/-- A content is found again, as what is made of it. -/
theorem Rewired.getFcSubComponent (h : Rewired gen place place' made rebounds)
    (hbound : BoundAt gen top top' place place') {scname : String} {sc : Place}
    (hsc : place.getFcSubComponent scname = some sc) :
    ∃ sc', place'.getFcSubComponent scname = some sc' ∧ BoundAt gen top top' sc sc' := by
  unfold Place.getFcSubComponent at hsc
  split at hsc
  · next hthis =>
    cases hsc
    refine ⟨place', ?_, hbound⟩
    unfold Place.getFcSubComponent
    rw [if_pos hthis]
  · next hthis =>
    obtain ⟨c, hc, rfl⟩ := Option.map_eq_some_iff.mp hsc
    rcases find_makes h.makes scname with ⟨hnone, -⟩ | ⟨c₁, c', hc₁, hc', hmem, hmem', hmakes⟩
    · exact nomatch hnone.symm.trans hc
    · cases hc.symm.trans hc₁
      have hcontent : c' ∈ place'.component.contents := by
        rw [h.contents]
        exact List.mem_append_left _ hmem'
      refine ⟨place'.sub c', ?_, .sub hbound hmem hcontent hmakes⟩
      unfold Place.getFcSubComponent
      rw [if_neg hthis, h.contents, List.find?_append, hc']
      rfl

/-- A component that was inserted is found under its name. -/
theorem Rewired.getInserted (h : Rewired gen place place' made rebounds) {rebound : Rebound}
    (hrebound : rebound ∈ rebounds) {c : Component} (hc : c ∈ rebound.ncs) :
    place'.getFcSubComponent c.nameinowner = some (place'.sub c) := by
  have hcontent : c ∈ place'.component.contents := by
    rw [h.contents]
    exact List.mem_append_right _ (List.mem_flatMap.mpr ⟨rebound, hrebound, hc⟩)
  unfold Place.getFcSubComponent
  rw [if_neg (h.this c hcontent), find_of_mem h.names hcontent]
  rfl

theorem Rewired.inPlace (h : Rewired gen place place' made rebounds) {rebound : Rebound}
    (hrebound : rebound ∈ rebounds) :
    bindOf place'.component.getBinds rebound.bind.from_ rebound.bind.fromitf =
      some rebound.bind := by
  refine bindOf_of_mem h.clients ?_
  rw [h.binds]
  exact List.mem_append_left _ (List.mem_map_of_mem hrebound)

theorem Rewired.added (h : Rewired gen place place' made rebounds) {rebound : Rebound}
    (hrebound : rebound ∈ rebounds) {bind : Bind} (hbind : bind ∈ rebound.newb) :
    bindOf place'.component.getBinds bind.from_ bind.fromitf = some bind := by
  refine bindOf_of_mem h.clients ?_
  rw [h.binds]
  exact List.mem_append_right _ (List.mem_flatMap.mpr ⟨rebound, hrebound, hbind⟩)

/-- The client interface of a component that was inserted. -/
theorem inserted_bindAt {c : Component} {bind : Bind}
    (hbind : bindOf place'.component.getBinds c.nameinowner target = some bind) :
    (End.client (place'.sub c) target).bindAt = some (place', bind) := by
  have hmap : (End.client (place'.sub c) target).bindAt =
      (bindOf place'.component.getBinds c.nameinowner target).map fun sb => (place', sb) := rfl
  rw [hmap, hbind]
  rfl

/-- The other end of a bind, seen from a client. -/
def far (composite : Place) (sb : Bind) : Option End :=
  if sb.to_ = "this" then some (.client composite sb.toitf)
  else (composite.getFcSubComponent sb.to_).map fun sc => .server sc sb.toitf

theorem next_far {e : End} {composite : Place} {sb : Bind} (hbind : e.bindAt = some (composite, sb))
    (hside : sb.to_ = "this" → ∃ place itf, e = .client place itf) : e.next = far composite sb := by
  rw [End.next, hbind]
  cases e with
  | client place itf => rfl
  | server place itf =>
    have hthis : sb.to_ ≠ "this" := by
      intro hto
      obtain ⟨_, _, heq⟩ := hside hto
      cases heq
    simp only [Option.bind_some, End.across, far, if_neg hthis]

/-- A bind to a component that was inserted, and what is bound there. -/
theorem Rewired.through (h : Rewired gen place place' made rebounds) {rebound : Rebound}
    (hrebound : rebound ∈ rebounds) {c : Component} (hc : c ∈ rebound.ncs) {hop : Hop}
    (hhands : Hands c hop) {e t : End} {sb : Bind} (hbind : e.bindAt = some (place', sb))
    (hto : sb.to_ = c.nameinowner) (htoitf : sb.toitf = target) {passed : List Component}
    (hrest : Passage (.client (place'.sub c) target) passed t) : Passage e (c :: passed) t := by
  have hcontent : c ∈ place'.component.contents := by
    rw [h.contents]
    exact List.mem_append_right _ (List.mem_flatMap.mpr ⟨rebound, hrebound, hc⟩)
  have hthis : sb.to_ ≠ "this" := hto ▸ h.this c hcontent
  have hnext : e.next = some (.server (place'.sub c) target) := by
    rw [next_far hbind fun hto => absurd hto hthis, far, if_neg hthis, hto,
      h.getInserted hrebound hc, htoitf]
    rfl
  have hpassage : Passage (.server (place'.sub c) target) (c :: passed) t := .through hhands hrest
  exact .next hnext hpassage

/-- The component that was put in front of the server is passed. -/
theorem Rewired.front (h : Rewired gen place place' made rebounds) {sb : Bind} {c : Component}
    (hrebound : inFront sb c ∈ rebounds) {hop : Hop} (hhands : Hands c hop) {e f : End}
    (he : e.bindAt = (bindOf place'.component.getBinds sb.from_ sb.fromitf).map fun b => (place', b))
    (hfar : far place' sb = some f) : Passage e [c] f := by
  have hadded := h.added hrebound List.mem_cons_self
  have hbind : e.bindAt = some (place', newBind sb.from_ sb.fromitf c.nameinowner target) := by
    rw [he]
    exact congrArg (Option.map fun b => (place', b)) hadded
  have hinPlace := inserted_bindAt (h.inPlace hrebound)
  have hlast : Passage (.client (place'.sub c) target) [] f :=
    .single ((next_far hinPlace fun _ => ⟨_, _, rfl⟩).trans hfar)
  exact h.through hrebound List.mem_cons_self hhands hbind rfl rfl hlast

/-- Where a bind was followed, what was inserted in it is passed on the way to the same end. -/
theorem Rewired.passage (h : Rewired gen place place' made rebounds) {sb : Bind}
    (hsb : sb ∈ place.component.getBinds) {e f : End}
    (he : e.bindAt = (bindOf place'.component.getBinds sb.from_ sb.fromitf).map fun b => (place', b))
    (hside : sb.to_ = "this" → ∃ place itf, e = .client place itf) (hfar : far place' sb = some f) :
    ∃ passed, Passage e passed f ∧
      passed.map (fun c => c.kind.hop) = (hops place sb).map some := by
  obtain ⟨rebound, hrebound, counts, nbbc, counts', nbbc', hrebinds⟩ := exists_of_mem_left h.all hsb
  have hinPlace := h.inPlace hrebound
  have hadded : ∀ bind ∈ rebound.newb,
      bindOf place'.component.getBinds bind.from_ bind.fromitf = some bind :=
    fun bind hbind => h.added hrebound hbind
  cases hrebinds with
  | same hhops =>
    have hbind : e.bindAt = some (place', sb) := by
      rw [he, hinPlace]
      rfl
    refine ⟨[], .single ((next_far hbind hside).trans hfar), ?_⟩
    rw [hhops]
    rfl
  | beside hhops hinserted c hname hhop hkind =>
    have hbind : e.bindAt = some (place', sb) := by
      rw [he, hinPlace]
      rfl
    refine ⟨[], .single ((next_far hbind hside).trans hfar), ?_⟩
    rw [hhops]
    rfl
  | stub c hname hhops hhands =>
    refine ⟨[c], h.front hrebound hhands he hfar, ?_⟩
    rw [hhops, List.map_singleton, hhands.hop]
    rfl
  | front c hop hname hhops hhands =>
    refine ⟨[c], h.front hrebound hhands he hfar, ?_⟩
    rw [hhops, List.map_singleton, hhands.hop]
    rfl
  | skeleton event skel hevent hskel hhops hhandsevent hhandsskel =>
    have hbind : e.bindAt = some (place', (behindSkeleton sb event skel).bind) := by
      rw [he]
      exact congrArg (Option.map fun b => (place', b)) hinPlace
    have hskelbind := inserted_bindAt (hadded (newBind skel.nameinowner target event.nameinowner
      target) (List.mem_cons_of_mem _ List.mem_cons_self))
    have heventbind := inserted_bindAt (hadded (newBind event.nameinowner target sb.to_ sb.toitf)
      List.mem_cons_self)
    have hlast : Passage (.client (place'.sub event) target) [] f :=
      .single ((next_far heventbind fun _ => ⟨_, _, rfl⟩).trans hfar)
    have hmiddle := h.through hrebound List.mem_cons_self hhandsevent hskelbind rfl rfl hlast
    have hfirst := h.through hrebound (List.mem_cons_of_mem _ List.mem_cons_self) hhandsskel hbind rfl
      rfl hmiddle
    refine ⟨_, hfirst, ?_⟩
    rw [hhops, List.map_cons, List.map_cons, hhandsskel.hop, hhandsevent.hop]
    rfl

/-- The other end of a bind is found again. -/
theorem Rewired.far (h : Rewired gen place place' made rebounds)
    (hbound : BoundAt gen top top' place place') {sb : Bind} {f : End}
    (hfar : far place sb = some f) : ∃ f', Graph.far place' sb = some f' ∧ EndMade gen top top' f f' := by
  unfold Graph.far at hfar ⊢
  split at hfar
  · next hthis =>
    cases hfar
    rw [if_pos hthis]
    exact ⟨_, rfl, .client hbound _⟩
  · next hthis =>
    obtain ⟨sc, hsc, rfl⟩ := Option.map_eq_some_iff.mp hfar
    obtain ⟨sc', hsc', hsub⟩ := h.getFcSubComponent hbound hsc
    rw [if_neg hthis, hsc']
    exact ⟨_, rfl, .server hsub _⟩

/-- What was not bound before is not bound by what is added. -/
theorem Rewired.unbound (h : Rewired gen place place' made rebounds) {from_ : String}
    {fromitf : ItfName} (hbind : bindOf place.component.getBinds from_ fromitf = none)
    (hfrom : from_ = "this" ∨ ∃ sc ∈ place.component.contents, sc.nameinowner = from_) :
    bindOf place'.component.getBinds from_ fromitf = none := by
  refine bindOf_none fun hmem => ?_
  rw [h.binds] at hmem
  rcases List.mem_append.mp ((reboundBinds_clients h.all).mem_iff.mp hmem) with hmem | hmem
  · exact mem_of_bindOf_none hbind hmem
  · have hname := fresh_names hmem
    rw [← flatMap_names] at hname
    obtain ⟨c, hc, heq⟩ := List.mem_map.mp hname
    rcases hfrom with rfl | ⟨sc, hsc, rfl⟩
    · refine h.this c ?_ heq
      rw [h.contents]
      exact List.mem_append_right _ hc
    · obtain ⟨rebound, hrebound, hc⟩ := List.mem_flatMap.mp hc
      exact h.unissued rebound hrebound c hc sc hsc heq.symm

end Rewiring

section Runs
variable {conf : Configuration} {gen : Generators} {network : Network} {top' : Component}
  {e e' f t : End}

theorem EndMade.under (h : EndMade gen network.top top' e e') :
    Under ⟨network.top, []⟩ e.place := by
  cases h with
  | client hbound => exact hbound.under
  | server hbound => exact hbound.under

/-- Where a client interface stands, its owner has been made as well. -/
theorem BoundAt.owner {component owner : Component} {owners : List Component} {place' : Place}
    (h : BoundAt gen network.top top' ⟨component, owner :: owners⟩ place') :
    ∃ q' component', BoundAt gen network.top top' ⟨owner, owners⟩ q' ∧ place' = q'.sub component' ∧
      component ∈ owner.contents ∧ component'.nameinowner = component.nameinowner := by
  cases h with
  | @sub q q' _ c' hq hc _ hmakes =>
    exact ⟨q', c', hq, rfl, hc, congrArg Declaration.nameinowner hmakes.alike.decl⟩

/-- A bind that is followed is followed again, through what was inserted in it. -/
theorem EndMade.step (h : Accepted conf network) (hfresh : Fresh network.top top')
    (honce : BoundOnce network.top) (hmade : EndMade gen network.top top' e e') {composite : Place}
    {sb : Bind} (hbind : e.bindAt = some (composite, sb)) (hnext : e.next = some f) :
    ∃ f' passed, EndMade gen network.top top' f f' ∧ Passage e' passed f' ∧
      passed.map (fun c => c.kind.hop) = (hops composite sb).map some := by
  cases hmade with
  | @client place place' hbound itf =>
    obtain ⟨component, owners⟩ := place
    cases owners with
    | nil => cases hbind
    | cons owner owners =>
      obtain ⟨sb', hsb, heq⟩ := Option.map_eq_some_iff.mp hbind
      cases heq
      obtain ⟨hmem, hfrom, rfl⟩ := bindOf_cases hsb
      obtain ⟨q', component', hq, rfl, -, hname⟩ := hbound.owner
      obtain ⟨made, rebounds, hrewired⟩ := rewired h hfresh honce hq
      have hfar := (next_far hbind fun _ => ⟨_, _, rfl⟩).symm.trans hnext
      obtain ⟨f', hfar', hf⟩ := hrewired.far hq hfar
      have he : (End.client (q'.sub component') sb.fromitf).bindAt =
          (bindOf q'.component.getBinds sb.from_ sb.fromitf).map fun b => (q', b) := by
        rw [hfrom, ← hname]
        rfl
      obtain ⟨passed, hpassage, hhops⟩ := hrewired.passage hmem he (fun _ => ⟨_, _, rfl⟩) hfar'
      exact ⟨f', passed, hf, hpassage, hhops⟩
  | @server place place' hbound itf =>
    simp only [End.bindAt] at hbind
    split at hbind
    · next hprovide =>
      obtain ⟨sb', hsb, heq⟩ := Option.map_eq_some_iff.mp hbind
      cases heq
      obtain ⟨hmem, hfrom, rfl⟩ := bindOf_cases hsb
      obtain ⟨client, server, type, hfits⟩ := h.bindFits hbound.under hmem
      have hside : ∀ {e : End}, sb.to_ = "this" → ∃ place itf, e = .client place itf :=
        fun hto => absurd hto (hfits.apart hfrom)
      obtain ⟨made, rebounds, hrewired⟩ := rewired h hfresh honce hbound
      have hbind' : (End.server composite sb.fromitf).bindAt = some (composite, sb) := by
        simp only [End.bindAt, if_pos hprovide, hsb, Option.map_some]
      have hfar := (next_far hbind' hside).symm.trans hnext
      obtain ⟨f', hfar', hf⟩ := hrewired.far hbound hfar
      have hprovide' : (place'.component.getProvide
          sb.fromitf.getNameOfInterfaceCollection).isSome = true := by
        unfold Component.getProvide Component.getProvides
        rw [hbound.makes.alike.decl]
        exact hprovide
      have he : (End.server place' sb.fromitf).bindAt =
          (bindOf place'.component.getBinds sb.from_ sb.fromitf).map fun b => (place', b) := by
        simp only [End.bindAt, if_pos hprovide', hfrom]
      obtain ⟨passed, hpassage, hhops⟩ := hrewired.passage hmem he hside hfar'
      exact ⟨f', passed, hf, hpassage, hhops⟩
    · cases hbind

/-- A whole route is followed again. -/
theorem EndMade.route (h : Accepted conf network) (hfresh : Fresh network.top top')
    (honce : BoundOnce network.top) {route : List (Place × Bind)} (hroute : Route e route t)
    (hmade : EndMade gen network.top top' e e') :
    ∃ t' passed, EndMade gen network.top top' t t' ∧ Passage e' passed t' ∧
      passed.map (fun c => c.kind.hop) = (route.flatMap fun r => hops r.1 r.2).map some := by
  induction hroute generalizing e' with
  | refl => exact ⟨e', [], hmade, .refl _, rfl⟩
  | next hbind hnext _ ih =>
    obtain ⟨f', passed, hf, hpassage, hhops⟩ := hmade.step h hfresh honce hbind hnext
    obtain ⟨t', passed', ht, hpassage', hhops'⟩ := ih hf
    refine ⟨t', passed ++ passed', ht, hpassage.trans hpassage', ?_⟩
    rw [List.map_append, hhops, hhops', List.flatMap_cons, List.map_append]

end Runs

end Codinalte.Graph
