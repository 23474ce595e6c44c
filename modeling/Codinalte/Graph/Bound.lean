import Codinalte.Graph.Insertion

/-! A network beside what the pass has made of it. -/

namespace Codinalte.Graph
open Codinalte.Checks Codinalte.Keyed

/-- The names from a component up to the top. -/
def Place.path (place : Place) : List String :=
  (place.component :: place.owners).map Component.nameinowner

/-- What a component is apart from its contents and binds. -/
structure Alike (c c' : Component) : Prop where
  decl : c'.decl = c.decl
  isFirstInstance : c'.isFirstInstance = c.isFirstInstance
  kind : c'.kind = c.kind
  isComposite : c'.isComposite = c.isComposite

/-- The pass makes the one of the other. -/
def Makes (gen : Generators) (owners : List Component) (c c' : Component) : Prop :=
  ∃ counts counts', bindComponent gen owners counts c = .ok (c', counts')

/-- A place of the network, and the same place after the pass. -/
inductive BoundAt (gen : Generators) (top top' : Component) : Place → Place → Prop where
  | top (h : Makes gen [] top top') : BoundAt gen top top' ⟨top, []⟩ ⟨top', []⟩
  | sub {place place' : Place} {c c' : Component} (h : BoundAt gen top top' place place')
      (hc : c ∈ place.component.contents) (hc' : c' ∈ place'.component.contents)
      (hmakes : Makes gen (place.component :: place.owners) c c') :
      BoundAt gen top top' (place.sub c) (place'.sub c')

section Makes
variable {gen : Generators} {owners : List Component} {c c' : Component}

theorem Makes.alike (h : Makes gen owners c c') : Alike c c' := by
  obtain ⟨counts, counts', h⟩ := h
  cases c with
  | raw decl isFirstInstance kind =>
    unfold bindComponent at h
    cases h
    exact ⟨rfl, rfl, rfl, rfl⟩
  | composite decl binds subcomponents controllercomponents =>
    unfold bindComponent at h
    obtain ⟨⟨subs, counts₁⟩, -, h⟩ := bind_ok.mp h
    obtain ⟨⟨controllers, counts₂⟩, -, h⟩ := bind_ok.mp h
    obtain ⟨⟨rebounds, counts₃⟩, -, h⟩ := bind_ok.mp h
    cases h
    exact ⟨rfl, rfl, rfl, rfl⟩

theorem bindEach_makes {counts counts' : Counts} {l l' : List Component}
    (h : bindEach gen owners counts l = .ok (l', counts')) :
    List.Forall₂ (Makes gen owners) l l' := by
  induction l generalizing counts l' with
  | nil =>
    unfold bindEach at h
    cases h
    exact .nil
  | cons sc rest ih =>
    unfold bindEach at h
    obtain ⟨⟨sc', counts₁⟩, hsc, h⟩ := bind_ok.mp h
    obtain ⟨⟨rest', counts₂⟩, hrest, h⟩ := bind_ok.mp h
    cases h
    exact .cons ⟨_, _, hsc⟩ (ih hrest)

/-- What is made of a composite. -/
theorem Makes.composite {decl : Declaration} {binds : List Bind}
    {subcomponents controllercomponents : List Component}
    (h : Makes gen owners (.composite decl binds subcomponents controllercomponents) c') :
    ∃ subs controllers rebounds,
      List.Forall₂ (Makes gen (.composite decl binds subcomponents controllercomponents :: owners))
        (subcomponents ++ controllercomponents) (subs ++ controllers) ∧
      List.Forall₂ (fun bind rebound => ∃ counts nbbc counts' nbbc',
        Rebinds ⟨.composite decl binds subs controllers, owners⟩ bind counts nbbc rebound counts'
          nbbc') binds rebounds ∧
      (rebounds.flatMap Rebound.names).Nodup ∧
      (∀ name ∈ rebounds.flatMap Rebound.names, Unissued ⟨0, 0⟩ 0 name) ∧
      c' = .composite decl (reboundBinds rebounds) subs
        (addFcControllerComponents (rebounds.flatMap Rebound.ncs) controllers) := by
  obtain ⟨counts, counts', h⟩ := h
  unfold bindComponent at h
  obtain ⟨⟨subs, counts₁⟩, hsubs, h⟩ := bind_ok.mp h
  obtain ⟨⟨controllers, counts₂⟩, hcontrollers, h⟩ := bind_ok.mp h
  obtain ⟨⟨rebounds, counts₃⟩, hrebounds, h⟩ := bind_ok.mp h
  cases h
  obtain ⟨hall, hnodup, hunissued⟩ := rebindAll_ok hrebounds
  refine ⟨subs, controllers, rebounds, ?_, hall, hnodup, ?_, rfl⟩
  · exact List.rel_append (bindEach_makes hsubs) (bindEach_makes hcontrollers)
  · exact fun name hname =>
      (hunissued name hname).mono (Nat.zero_le _) (Nat.zero_le _) (Nat.zero_le _)

/-- The content that is found under a name, before and after. -/
theorem find_makes {l l' : List Component} (h : List.Forall₂ (Makes gen owners) l l')
    (scname : String) :
    (l.find? (fun sc => sc.nameinowner = scname) = none ∧
        l'.find? (fun sc => sc.nameinowner = scname) = none) ∨
      ∃ c c', l.find? (fun sc => sc.nameinowner = scname) = some c ∧
        l'.find? (fun sc => sc.nameinowner = scname) = some c' ∧ c ∈ l ∧ c' ∈ l' ∧
        Makes gen owners c c' := by
  induction h with
  | nil => exact .inl ⟨rfl, rfl⟩
  | @cons a a' l l' hmakes _ ih =>
    have hname : a'.nameinowner = a.nameinowner := congrArg Declaration.nameinowner hmakes.alike.decl
    rw [List.find?_cons, List.find?_cons, hname]
    by_cases heq : a.nameinowner = scname
    · rw [decide_eq_true heq]
      exact .inr ⟨a, a', rfl, rfl, List.mem_cons_self, List.mem_cons_self, hmakes⟩
    · rw [decide_eq_false heq]
      rcases ih with hnone | ⟨c, c', hc, hc', hmem, hmem', hmakes'⟩
      · exact .inl hnone
      · exact .inr ⟨c, c', hc, hc', List.mem_cons_of_mem _ hmem, List.mem_cons_of_mem _ hmem',
          hmakes'⟩

end Makes

section Places
variable {gen : Generators} {top top' : Component} {place place' : Place}

theorem BoundAt.makes (h : BoundAt gen top top' place place') :
    Makes gen place.owners place.component place'.component := by
  cases h with
  | top h => exact h
  | sub _ _ _ hmakes => exact hmakes

theorem BoundAt.under (h : BoundAt gen top top' place place') : Under ⟨top, []⟩ place := by
  induction h with
  | top => exact .refl _
  | sub _ hc _ _ ih => exact ih.content hc

theorem BoundAt.under' (h : BoundAt gen top top' place place') : Under ⟨top', []⟩ place' := by
  induction h with
  | top => exact .refl _
  | sub _ _ hc' _ ih => exact ih.content hc'

theorem BoundAt.path (h : BoundAt gen top top' place place') : place'.path = place.path := by
  induction h with
  | top h =>
    have hname : top'.nameinowner = top.nameinowner := congrArg Declaration.nameinowner h.alike.decl
    simp only [Place.path, List.map_cons, hname]
  | @sub place place' c c' _ _ _ hmakes ih =>
    have hname : c'.nameinowner = c.nameinowner := congrArg Declaration.nameinowner hmakes.alike.decl
    have hpath : (place'.sub c').path = c'.nameinowner :: place'.path := rfl
    rw [hpath, hname, ih]
    rfl

/-- Contents that are made of one another are found on the same MPC. -/
theorem mpc_makes {owners : List Component} {q q' : Place}
    (hdecl : q'.component.decl = q.component.decl) (howners : q'.owners = q.owners)
    (hcontents : List.Forall₂ (Makes gen owners) q.component.contents q'.component.contents)
    (scname : String) :
    (q'.getFcSubComponent scname).bind Place.getMPC =
      (q.getFcSubComponent scname).bind Place.getMPC := by
  unfold Place.getFcSubComponent
  split
  · simp only [Option.bind_some, Place.getMPC, List.findSome?_cons, hdecl, howners]
  · rcases find_makes hcontents scname with ⟨hnone, hnone'⟩ | ⟨c, c', hc, hc', -, -, hmakes⟩
    · rw [hnone, hnone']
      rfl
    · rw [hc, hc']
      simp only [Option.map_some, Option.bind_some, Place.getMPC, Place.sub, List.findSome?_cons,
        hmakes.alike.decl, hdecl, howners]

theorem Rebinds.congr {q q' : Place} {bind : Bind} {rebound : Rebound} {counts counts' : Counts}
    {nbbc nbbc' : Nat} (h : Rebinds q bind counts nbbc rebound counts' nbbc')
    (hhops : hops q' bind = hops q bind) (hinserted : inserted q' bind = inserted q bind) :
    Rebinds q' bind counts nbbc rebound counts' nbbc' := by
  cases h with
  | same h hsame => exact .same (hhops.trans h) (hinserted.trans hsame)
  | beside h hbeside c hname hhop hkind =>
    exact .beside (hhops.trans h) (hinserted.trans hbeside) c hname hhop hkind
  | stub c hname h hhands => exact .stub c hname (hhops.trans h) hhands
  | front c hop hname h hhands => exact .front c hop hname (hhops.trans h) hhands
  | skeleton event skel hevent hskel h hhandsevent hhandsskel =>
    exact .skeleton event skel hevent hskel (hhops.trans h) hhandsevent hhandsskel

end Places

/-- No component that is inserted in a composite has the name of one of its contents. -/
def Fresh (top top' : Component) : Prop :=
  ∀ place place', Under ⟨top, []⟩ place → Under ⟨top', []⟩ place' → place'.path = place.path →
    ∀ c ∈ place'.component.contents, c.kind ≠ .instantiated →
      ∀ sc ∈ place.component.contents, sc.nameinowner ≠ c.nameinowner

/-- No composite binds a client interface twice. -/
def BoundOnce (top : Component) : Prop :=
  ∀ place, Under ⟨top, []⟩ place → (place.component.getBinds.map Bind.client).Nodup

/-- What the pass has done with a composite. -/
structure Rewired (gen : Generators) (place place' : Place) (made : List Component)
    (rebounds : List Rebound) : Prop where
  all : List.Forall₂ (fun bind rebound => ∃ counts nbbc counts' nbbc',
    Rebinds place bind counts nbbc rebound counts' nbbc') place.component.getBinds rebounds
  binds : place'.component.getBinds = reboundBinds rebounds
  makes : List.Forall₂ (Makes gen (place.component :: place.owners)) place.component.contents made
  contents : place'.component.contents = made ++ rebounds.flatMap Rebound.ncs
  names : (place'.component.contents.map Component.nameinowner).Nodup
  this : ∀ sc ∈ place'.component.contents, sc.nameinowner ≠ "this"
  clients : (place'.component.getBinds.map Bind.client).Nodup
  unissued : ∀ rebound ∈ rebounds, ∀ c ∈ rebound.ncs, ∀ sc ∈ place.component.contents,
    sc.nameinowner ≠ c.nameinowner

section Rewire
variable {conf : Configuration} {gen : Generators} {network : Network} {top' : Component}
  {place place' : Place}

theorem unissued_ne_this {counts : Counts} {nbbc : Nat} {name : String}
    (h : Unissued counts nbbc name) : name ≠ "this" := by
  have hlabel : ∀ {c : Char} {word : List Char} (n : Nat), c ≠ 't' →
      label (String.ofList (c :: word)) n ≠ "this" := by
    intro c word n hc heq
    have hlist := congrArg String.toList heq
    simp only [label, String.toList_append, String.toList_ofList, List.cons_append] at hlist
    exact hc (List.cons.inj hlist).1
  rcases h with ⟨n, -, rfl⟩ | ⟨n, -, rfl⟩ | ⟨n, -, rfl⟩
  · exact @hlabel 'b' ['c'] n (by decide)
  · exact @hlabel 'p' [] n (by decide)
  · exact @hlabel 'v' [] n (by decide)

theorem map_nameinowner {owners l l' : List Component}
    (h : List.Forall₂ (Makes gen owners) l l') :
    l'.map Component.nameinowner = l.map Component.nameinowner := by
  induction h with
  | nil => rfl
  | cons hmakes _ ih =>
    rw [List.map_cons, List.map_cons, ih]
    exact congrArg (· :: _) (congrArg Declaration.nameinowner hmakes.alike.decl)

theorem flatMap_names (rebounds : List Rebound) :
    (rebounds.flatMap Rebound.ncs).map Component.nameinowner = rebounds.flatMap Rebound.names := by
  rw [List.map_flatMap]
  rfl

/-- The binds of a composite name its contents, or the composite itself. -/
theorem bind_from (h : Accepted conf network) (hplace : Under ⟨network.top, []⟩ place) {bind : Bind}
    (hbind : bind ∈ place.component.getBinds) :
    bind.from_ = "this" ∨ ∃ sc ∈ place.component.contents, sc.nameinowner = bind.from_ := by
  obtain ⟨client, server, type, hfits⟩ := h.bindFits hplace hbind
  rcases getFcSubComponent_cases hfits.isClient with ⟨hthis, -⟩ | ⟨-, sc, hsc, hname, -⟩
  · exact .inl hthis
  · exact .inr ⟨sc, hsc, hname⟩

theorem rewired (h : Accepted conf network) (hfresh : Fresh network.top top')
    (honce : BoundOnce network.top) (hbound : BoundAt gen network.top top' place place') :
    ∃ made rebounds, Rewired gen place place' made rebounds := by
  have hmakes := hbound.makes
  have hunder := hbound.under
  have hnamed := network.names hunder
  obtain ⟨component, owners⟩ := place
  cases component with
  | raw decl isFirstInstance kind =>
    obtain ⟨counts, counts', hrun⟩ := hmakes
    unfold bindComponent at hrun
    obtain ⟨component', owners'⟩ := place'
    cases hrun
    exact ⟨[], [], .nil, rfl, .nil, rfl, .nil, (fun _ h => nomatch h), .nil, fun _ h => nomatch h⟩
  | composite decl binds subcomponents controllercomponents =>
    obtain ⟨subs, controllers, rebounds, hmade, hall, hnodup, hunissued, hcomponent⟩ :=
      hmakes.composite
    have hncs : ∀ c ∈ rebounds.flatMap Rebound.ncs, c ∈ place'.component.contents := by
      intro c hc
      rw [hcomponent]
      refine List.mem_append_right _ (mem_putAll ?_ hc)
      rw [flatMap_names]
      exact hnodup
    have hother : ∀ c ∈ rebounds.flatMap Rebound.ncs,
        ∀ sc ∈ subcomponents ++ controllercomponents, sc.nameinowner ≠ c.nameinowner := by
      intro c hc sc hsc
      refine hfresh _ place' hunder hbound.under' hbound.path c (hncs c hc) ?_ sc hsc
      obtain ⟨rebound, hrebound, hmem⟩ := List.mem_flatMap.mp hc
      obtain ⟨bind, -, counts, nbbc, counts', nbbc', hrebinds⟩ := exists_of_mem_right hall hrebound
      exact hrebinds.ne_instantiated hmem
    have hmpc := @mpc_makes gen _
      ⟨.composite decl binds subcomponents controllercomponents, owners⟩
      ⟨.composite decl binds subs controllers, owners⟩ rfl rfl hmade
    have hall' : List.Forall₂ (fun bind rebound => ∃ counts nbbc counts' nbbc',
        Rebinds ⟨.composite decl binds subcomponents controllercomponents, owners⟩ bind counts nbbc
          rebound counts' nbbc') binds rebounds := by
      refine hall.imp fun bind rebound ⟨counts, nbbc, counts', nbbc', hrebinds⟩ =>
        ⟨counts, nbbc, counts', nbbc', hrebinds.congr ?_ ?_⟩
      · simp only [hops, hmpc]
      · simp only [inserted, hmpc]
    have hnames : (((subs ++ controllers) ++ rebounds.flatMap Rebound.ncs).map
        Component.nameinowner).Nodup := by
      rw [List.map_append, map_nameinowner hmade, flatMap_names]
      refine List.Nodup.append hnamed.1 hnodup fun name hname hname' => ?_
      obtain ⟨sc, hsc, rfl⟩ := List.mem_map.mp hname
      rw [← flatMap_names] at hname'
      obtain ⟨c, hc, heq⟩ := List.mem_map.mp hname'
      exact hother c hc sc hsc heq.symm
    have hput : addFcControllerComponents (rebounds.flatMap Rebound.ncs) controllers =
        controllers ++ rebounds.flatMap Rebound.ncs := by
      refine putAll_new ?_
      rw [List.append_assoc, List.map_append] at hnames
      exact hnames.of_append_right
    have hcontents : place'.component.contents =
        (subs ++ controllers) ++ rebounds.flatMap Rebound.ncs := by
      rw [hcomponent, hput, List.append_assoc]
      rfl
    have hbinds : place'.component.getBinds = reboundBinds rebounds := by
      rw [hcomponent]
      rfl
    refine ⟨subs ++ controllers, rebounds, hall', hbinds, hmade, hcontents, ?_, ?_, ?_, ?_⟩
    · rw [hcontents]
      exact hnames
    · intro sc hsc
      rw [hcontents] at hsc
      rcases List.mem_append.mp hsc with hsc | hsc
      · obtain ⟨sc', hsc', hmakes'⟩ := exists_of_mem_right hmade hsc
        have hname : sc.nameinowner = sc'.nameinowner :=
          congrArg Declaration.nameinowner hmakes'.alike.decl
        rw [hname]
        exact (hnamed.2 sc' hsc').1
      · have hmem : sc.nameinowner ∈ rebounds.flatMap Rebound.names := by
          rw [← flatMap_names]
          exact List.mem_map_of_mem hsc
        exact unissued_ne_this (hunissued _ hmem)
    · rw [hbinds]
      refine (reboundBinds_clients hall').nodup_iff.mpr ?_
      refine List.Nodup.append (honce _ hunder) (fresh_nodup hnodup) fun client hclient hclient' => ?_
      obtain ⟨bind, hbind, rfl⟩ := List.mem_map.mp hclient
      have hmem := fresh_names hclient'
      rcases bind_from h hunder hbind with hthis | ⟨sc, hsc, hname⟩
      · exact unissued_ne_this (hunissued _ hmem) hthis
      · rw [← flatMap_names] at hmem
        obtain ⟨c, hc, heq⟩ := List.mem_map.mp hmem
        exact hother c hc sc hsc (hname.trans heq.symm)
    · intro rebound hrebound c hc
      exact hother c (List.mem_flatMap.mpr ⟨rebound, hrebound, hc⟩)

end Rewire

end Codinalte.Graph
