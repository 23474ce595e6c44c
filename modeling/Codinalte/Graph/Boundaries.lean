import Codinalte.Graph.Preserved

/-! The pass that puts a component at each interface of the component on top. -/

namespace Codinalte.Graph
open Codinalte.Checks Codinalte.Keyed

inductive BoundaryError where
  | unfinished
  | nullPointer
  | classCast
  | INTERFACE_NOT_FOUND (type : String)
deriving DecidableEq

/-- What is known of the interface descriptions that can be compiled, and what the generators give
their components beside `target`. -/
structure BoundaryGenerators where
  isAsynchronous : String → Option Bool
  call : List Require × List Provide
  callback : List Require × List Provide

/-- How a primitive is bound to the outside: at once, or when its composite is. -/
inductive BindTo where
  | subclient
  | smptoout
  | mpctoout
deriving DecidableEq

/-- A client of one of the components at the boundaries. -/
structure Subclient where
  callback : String
  client : List String
  clientitfname : ItfName
  bindto : BindTo
deriving DecidableEq

def ItfName.text (itfname : ItfName) : String :=
  match itfname.index with
  | none => itfname.name
  | some i => itfname.name ++ "[" ++ toString i ++ "]"

def InterfaceReference.getInterfaceName (ir : InterfaceReference) : String :=
  if ir.collectionIndex ≥ 0 then ir.itfname ++ "[" ++ toString ir.collectionIndex ++ "]"
  else ir.itfname

namespace Component

def addBind : Component → Bind → Component
  | .raw decl isFirstInstance kind, _ => .raw decl isFirstInstance kind
  | .composite decl binds subcomponents controllercomponents, bind =>
    .composite decl (binds ++ [bind]) subcomponents controllercomponents

def addFcControllerComponent : Component → Component → Component
  | .raw decl isFirstInstance kind, _ => .raw decl isFirstInstance kind
  | .composite decl binds subcomponents controllercomponents, c =>
    .composite decl binds subcomponents (put nameinowner c controllercomponents)

def addRequire : Component → Require → Component
  | .raw decl isFirstInstance kind, require =>
    .raw { decl with requires := decl.requires ++ [require] } isFirstInstance kind
  | .composite decl binds subcomponents controllercomponents, require =>
    .composite { decl with requires := decl.requires ++ [require] } binds subcomponents
      controllercomponents

end Component

def lookedUp : Lookup → Except BoundaryError (Option InterfaceReference)
  | .unfinished => .error .unfinished
  | .nullPointer => .error .nullPointer
  | .returned ir => .ok ir

def compileItf (gen : BoundaryGenerators) (type : String) : Except BoundaryError Bool :=
  match gen.isAsynchronous type with
  | none => .error (.INTERFACE_NOT_FOUND type)
  | some asynchronous => .ok asynchronous

def callasynchronous (gen : BoundaryGenerators) (itfname : ItfName) (type : String) (onMPC : Bool) :
    Component :=
  bc itfname.text ("_evl." ++ type) type "not setted" gen.call (.call type true onMPC)

def callsynchronous (itfname : ItfName) (type : String) : Component :=
  .raw ⟨itfname.text, "cs." ++ name_ type, false, none, "normal", [], []⟩ true
    (.call type false false)

def callbackasynchronous (gen : BoundaryGenerators) (itfname : ItfName) (type : String)
    (optional : Bool) : Component :=
  .raw ⟨itfname.text, "_cbl." ++ type, false, none, "not setted",
    { targetRequire type with virtualInterface := true } :: gen.callback.1,
    targetProvide type :: gen.callback.2⟩ true (.callback type true optional)

def callbacksynchronous (itfname : ItfName) (type : String) (optional : Bool) : Component :=
  .raw ⟨itfname.text, "cbs." ++ type, false, none, "not setted", [], []⟩ true
    (.callback type false optional)

/-- A call is bound to what the interface of the composite is bound to first. -/
def bindCall (top : Component) (itfname : ItfName) : Component :=
  match bindOf top.getBinds "this" itfname with
  | none => top
  | some sb => top.addBind (newBind itfname.text target sb.to_ sb.toitf)

def bindProvide (gen : BoundaryGenerators) (fuel : Nat) (type : String) (asynchronous : Bool)
    (top : Component) (itfname : ItfName) : Except BoundaryError Component := do
  let ir ← lookedUp (getFcInterface fuel ⟨top, []⟩ itfname)
  if asynchronous then
    match ir.bind InterfaceReference.server with
    | none => .error .nullPointer
    | some server =>
      let bc := callasynchronous gen itfname type server.getMPC.isSome
      .ok ((bindCall top itfname).addFcControllerComponent bc)
  else return top.addFcControllerComponent (callsynchronous itfname type)

def bindProvides (gen : BoundaryGenerators) (fuel : Nat) (top : Component) (provide : Provide) :
    Except BoundaryError Component := do
  let asynchronous ← compileItf gen provide.type
  provide.elements.foldlM (bindProvide gen fuel provide.type asynchronous) top

def bindRequire (gen : BoundaryGenerators) (require : Require) (asynchronous : Bool)
    (top : Component) (itfname : ItfName) : Except BoundaryError Component :=
  return top.addFcControllerComponent
    (if asynchronous then callbackasynchronous gen itfname require.type require.optional
      else callbacksynchronous itfname require.type require.optional)

def bindRequires (gen : BoundaryGenerators) (top : Component) (require : Require) :
    Except BoundaryError Component := do
  let asynchronous ← compileItf gen require.type
  require.elements.foldlM (bindRequire gen require asynchronous) top

/-- The clients of what is found at the boundary under the name of the interface. -/
def clientsOf (gen : BoundaryGenerators) (topcomposite primitive : Place) (require : Require)
    (itfname : ItfName) (ir : InterfaceReference) : Except BoundaryError (List Subclient) :=
  match topcomposite.getFcSubComponent ir.getInterfaceName with
  | none => .error .nullPointer
  | some cb =>
    match cb.component.kind, primitive.getMPC with
    | .callback _ true _, some _ => do
      let _ ← compileItf gen require.type
      return [⟨ir.getInterfaceName, primitive.path, itfname, .mpctoout⟩]
    | .callback _ true _, none =>
      return [⟨ir.getInterfaceName, primitive.path, itfname, .smptoout⟩,
        ⟨ir.getInterfaceName, primitive.path, itfname, .subclient⟩]
    | .callback _ false _, none =>
      return [⟨ir.getInterfaceName, primitive.path, itfname, .subclient⟩]
    | _, _ => .error .classCast

def travelElement (gen : BoundaryGenerators) (fuel : Nat) (topcomposite primitive : Place)
    (require : Require) (clients : List Subclient) (itfname : ItfName) :
    Except BoundaryError (List Subclient) := do
  let ir ← lookedUp (lookupFc fuel primitive.component primitive.owners itfname)
  match ir with
  | none => return clients
  | some ir =>
    match ir.server with
    | some _ => return clients
    | none => do
      let found ← clientsOf gen topcomposite primitive require itfname ir
      return clients ++ found

def travelRequire (gen : BoundaryGenerators) (fuel : Nat) (topcomposite primitive : Place)
    (clients : List Subclient) (require : Require) : Except BoundaryError (List Subclient) :=
  if require.isStatic || require.virtualInterface then .ok clients
  else require.elements.foldlM (travelElement gen fuel topcomposite primitive require) clients

mutual

/-- The primitives one after the other, with the clients so far. -/
def travelClients (gen : BoundaryGenerators) (fuel : Nat) (topcomposite : Place)
    (owners : List Component) (clients : List Subclient) :
    Component → Except BoundaryError (List Subclient)
  | .raw decl isFirstInstance kind =>
    if isFirstInstance then
      decl.requires.foldlM
        (travelRequire gen fuel topcomposite ⟨.raw decl isFirstInstance kind, owners⟩) clients
    else .ok clients
  | .composite decl binds subcomponents controllercomponents => do
    let owners' := Component.composite decl binds subcomponents controllercomponents :: owners
    let clients ← travelClientsEach gen fuel topcomposite owners' clients subcomponents
    travelClientsEach gen fuel topcomposite owners' clients controllercomponents

def travelClientsEach (gen : BoundaryGenerators) (fuel : Nat) (topcomposite : Place)
    (owners : List Component) (clients : List Subclient) :
    List Component → Except BoundaryError (List Subclient)
  | [] => .ok clients
  | sc :: rest => do
    let clients ← travelClients gen fuel topcomposite owners clients sc
    travelClientsEach gen fuel topcomposite owners clients rest

end

def reqsched : Require := ⟨"ee.api.trace", "trace", false, 1, false, true, false, false⟩

/-- The pass over the component on top, with the clients that it finds. -/
def boundaries (gen : BoundaryGenerators) (fuel : Nat) (top : Component) :
    Except BoundaryError (Component × List Subclient) := do
  reject (top.isComposite = false) .classCast
  let called ← top.getProvides.foldlM (bindProvides gen fuel) top
  let topcomposite ← called.getRequires.foldlM (bindRequires gen) called
  let _ ← compileItf gen "ee.api.trace"
  let topcomposite := topcomposite.addRequire reqsched
  let clients ← travelClients gen fuel ⟨topcomposite, []⟩ [] [] topcomposite
  return (topcomposite, clients)

/-- The names that the components at the boundaries are given. -/
def boundaryNames (top : Component) : List String :=
  ((top.getProvides.flatMap Provide.elements) ++ (top.getRequires.flatMap Require.elements)).map
    ItfName.text

/-- These names are told apart from each other and from those of the contents. -/
structure Apart (top : Component) (names : List String) : Prop where
  nodup : (top.contents.map Component.nameinowner ++ names).Nodup
  this : "this" ∉ names

/-- The component on top with what was put at its boundaries so far. -/
structure Grown (top : Component) (names : List String) (top' : Component) : Prop where
  isComposite : top'.isComposite = true
  decl : top'.decl = top.decl
  binds : ∃ newb, top'.getBinds = top.getBinds ++ newb ∧ ∀ bind ∈ newb, bind.from_ ∈ names
  contents : ∃ ncs, top'.contents = top.contents ++ ncs ∧ ncs.map Component.nameinowner = names

section Growth
variable {top top' : Component} {names : List String} {gen : BoundaryGenerators}

theorem Apart.of_append {more : List String} (h : Apart top (names ++ more)) : Apart top names := by
  refine ⟨?_, fun hmem => h.this (List.mem_append_left _ hmem)⟩
  have hnodup := h.nodup
  rw [← List.append_assoc] at hnodup
  exact hnodup.of_append_left

theorem foldl_addBind (decl : Declaration) (binds newb : List Bind)
    (subcomponents controllercomponents : List Component) :
    newb.foldl Component.addBind (.composite decl binds subcomponents controllercomponents) =
      .composite decl (binds ++ newb) subcomponents controllercomponents := by
  induction newb generalizing binds with
  | nil =>
    rw [List.append_nil]
    rfl
  | cons bind newb ih =>
    rw [List.foldl_cons, Component.addBind, ih, List.append_assoc]
    rfl

/-- One component is put at the boundary, with the binds of its client interface. -/
theorem Grown.put (h : Grown top names top') (c : Component)
    (hapart : Apart top (names ++ [c.nameinowner])) {newb : List Bind}
    (hnewb : ∀ bind ∈ newb, bind.from_ = c.nameinowner) :
    Grown top (names ++ [c.nameinowner])
      ((newb.foldl Component.addBind top').addFcControllerComponent c) := by
  obtain ⟨hcomposite, hdecl, ⟨added, hadded, hfrom⟩, ⟨ncs, hncs, hnames⟩⟩ := h
  cases top' with
  | raw decl isFirstInstance kind => cases hcomposite
  | composite decl binds subcomponents controllercomponents =>
    have hnew : c.nameinowner ∉ controllercomponents.map Component.nameinowner := by
      have hcontents : subcomponents ++ controllercomponents = top.contents ++ ncs := hncs
      have hnodup := hapart.nodup
      rw [← hnames, ← List.append_assoc, ← List.map_append, ← hcontents, List.map_append,
        List.append_assoc] at hnodup
      have hdisjoint := (List.nodup_append.mp hnodup.of_append_right).2.2
      exact fun hmem => hdisjoint _ hmem _ List.mem_cons_self rfl
    rw [foldl_addBind]
    refine ⟨rfl, hdecl, ⟨added ++ newb, ?_, ?_⟩, ⟨ncs ++ [c], ?_, ?_⟩⟩
    · have hbinds' : binds = top.getBinds ++ added := hadded
      change binds ++ newb = _
      rw [hbinds', List.append_assoc]
    · intro bind hbind
      rcases List.mem_append.mp hbind with hbind | hbind
      · exact List.mem_append_left _ (hfrom bind hbind)
      · rw [hnewb bind hbind]
        exact List.mem_append_right _ List.mem_cons_self
    · have hcontents : subcomponents ++ controllercomponents = top.contents ++ ncs := hncs
      change subcomponents ++ Keyed.put Component.nameinowner c controllercomponents = _
      rw [put_new hnew, ← List.append_assoc, hcontents, List.append_assoc]
    · rw [List.map_append, hnames]
      rfl

theorem bindCall_eq (itfname : ItfName) : ∃ newb : List Bind, bindCall top itfname =
    newb.foldl Component.addBind top ∧ ∀ bind ∈ newb, bind.from_ = itfname.text := by
  unfold bindCall
  split
  · exact ⟨[], rfl, List.forall_mem_nil _⟩
  · next sb hsb =>
    refine ⟨[newBind itfname.text target sb.to_ sb.toitf], rfl, fun bind hbind => ?_⟩
    rw [List.mem_singleton.mp hbind]
    rfl

/-- While the names are told apart, the component on top grows by what is put at its boundaries. -/
def Grows (top : Component) (names : List String) (top' : Component) : Prop :=
  Apart top names → Grown top names top'

theorem bindProvide_grows {fuel : Nat} {type : String} {asynchronous : Bool} {itfname : ItfName}
    {top₁ : Component} (h : Grows top names top')
    (hrun : bindProvide gen fuel type asynchronous top' itfname = .ok top₁) :
    Grows top (names ++ [itfname.text]) top₁ := by
  intro hapart
  have hgrown := h hapart.of_append
  unfold bindProvide at hrun
  obtain ⟨ir, -, hrun⟩ := bind_ok.mp hrun
  cases asynchronous with
  | true =>
    simp only [if_true] at hrun
    split at hrun
    · cases hrun
    · next server hserver =>
      cases hrun
      obtain ⟨newb, hnewb, hfrom⟩ := @bindCall_eq top' itfname
      rw [hnewb]
      exact hgrown.put (callasynchronous gen itfname type server.getMPC.isSome) hapart hfrom
  | false =>
    cases hrun
    exact hgrown.put (callsynchronous itfname type) hapart (List.forall_mem_nil _)

theorem bindRequire_grows {require : Require} {asynchronous : Bool} {itfname : ItfName}
    {top₁ : Component} (h : Grows top names top')
    (hrun : bindRequire gen require asynchronous top' itfname = .ok top₁) :
    Grows top (names ++ [itfname.text]) top₁ := by
  intro hapart
  have hgrown := h hapart.of_append
  unfold bindRequire at hrun
  cases hrun
  cases asynchronous with
  | true =>
    exact hgrown.put (callbackasynchronous gen itfname require.type require.optional) hapart
      (List.forall_mem_nil _)
  | false =>
    exact hgrown.put (callbacksynchronous itfname require.type require.optional) hapart
      (List.forall_mem_nil _)

/-- What grows with each value grows with all of them. -/
theorem foldlM_grows {α : Type} {f : Component → α → Except BoundaryError Component}
    {text : α → List String} (hstep : ∀ names b a b', Grows top names b → f b a = .ok b' →
      Grows top (names ++ text a) b') {l : List α} {top₁ : Component} (h : Grows top names top')
    (hrun : l.foldlM f top' = .ok top₁) : Grows top (names ++ l.flatMap text) top₁ := by
  have hstart : Grows top (names ++ ([] : List α).flatMap text) top' := by
    rw [List.flatMap_nil, List.append_nil]
    exact h
  refine @foldlM_ok _ _ _ _ (fun before => Grows top (names ++ before.flatMap text)) ?_ _ [] _ _
    hstart hrun
  intro before b a b' hb hb'
  rw [List.flatMap_append, List.flatMap_singleton, ← List.append_assoc]
  exact hstep _ b a b' hb hb'

theorem flatMap_text (l : List ItfName) :
    (l.flatMap fun itfname => [itfname.text]) = l.map ItfName.text := List.map_eq_flatMap.symm

theorem bindProvides_grows {fuel : Nat} {provide : Provide} {top₁ : Component}
    (h : Grows top names top') (hrun : bindProvides gen fuel top' provide = .ok top₁) :
    Grows top (names ++ provide.elements.map ItfName.text) top₁ := by
  unfold bindProvides at hrun
  obtain ⟨asynchronous, -, hrun⟩ := bind_ok.mp hrun
  rw [← flatMap_text]
  exact foldlM_grows (fun _ _ _ _ hb hb' => bindProvide_grows hb hb') h hrun

theorem bindRequires_grows {require : Require} {top₁ : Component}
    (h : Grows top names top') (hrun : bindRequires gen top' require = .ok top₁) :
    Grows top (names ++ require.elements.map ItfName.text) top₁ := by
  unfold bindRequires at hrun
  obtain ⟨asynchronous, -, hrun⟩ := bind_ok.mp hrun
  rw [← flatMap_text]
  exact foldlM_grows (fun _ _ _ _ hb hb' => bindRequire_grows hb hb') h hrun

end Growth

/-- A component beside what is made of it: nothing of it is changed, only added to. -/
structure Widened (c c' : Component) : Prop where
  isComposite : c'.isComposite = c.isComposite
  kind : c'.kind = c.kind
  decl : ∃ requires, c'.decl = { c.decl with requires := c.decl.requires ++ requires }
  binds : ∃ newb, c'.getBinds = c.getBinds ++ newb ∧
    ∀ bind ∈ newb, bind.from_ ≠ "this" ∧ ∀ sc ∈ c.contents, sc.nameinowner ≠ bind.from_
  contents : ∃ ncs, c'.contents = c.contents ++ ncs

/-- What is put at the boundaries: one component for each name, and no two of one name. -/
structure Bounded (top top' : Component) : Prop extends Widened top top' where
  isTop : top.isComposite = true
  length : top'.contents.length = top.contents.length + (boundaryNames top).length
  names : (top'.contents.map Component.nameinowner).Nodup
  this : (∀ sc ∈ top.contents, sc.nameinowner ≠ "this") →
    ∀ sc ∈ top'.contents, sc.nameinowner ≠ "this"

theorem Widened.refl (c : Component) : Widened c c where
  isComposite := rfl
  kind := rfl
  decl := ⟨[], by rw [List.append_nil]⟩
  binds := ⟨[], (List.append_nil _).symm, List.forall_mem_nil _⟩
  contents := ⟨[], (List.append_nil _).symm⟩

theorem boundaries_bounded {top top' : Component} {gen : BoundaryGenerators} {fuel : Nat}
    {clients : List Subclient} (h : boundaries gen fuel top = .ok (top', clients))
    (hapart : Apart top (boundaryNames top)) : Bounded top top' := by
  unfold boundaries at h
  obtain ⟨hcomposite, h⟩ := seq_ok.mp h
  obtain ⟨called, hcalled, h⟩ := bind_ok.mp h
  obtain ⟨topcomposite, htopcomposite, h⟩ := bind_ok.mp h
  obtain ⟨-, -, h⟩ := bind_ok.mp h
  obtain ⟨clients', -, h⟩ := bind_ok.mp h
  cases h
  have hcomposite' : top.isComposite = true := eq_true_of_ne_false (reject_ok.mp hcomposite)
  have hstart : Grows top [] top :=
    fun _ => ⟨hcomposite', rfl, ⟨[], (List.append_nil _).symm, fun _ h => nomatch h⟩,
      ⟨[], (List.append_nil _).symm, rfl⟩⟩
  have hprovided : Grows top (top.getProvides.flatMap fun p => p.elements.map ItfName.text) called :=
    foldlM_grows (fun _ _ _ _ hb hb' => bindProvides_grows hb hb') hstart hcalled
  have hboundary : boundaryNames top = (top.getProvides.flatMap fun p => p.elements.map ItfName.text) ++
      top.getRequires.flatMap fun r => r.elements.map ItfName.text := by
    unfold boundaryNames
    rw [List.map_append, List.map_flatMap, List.map_flatMap]
  rw [hboundary] at hapart
  have hrequires : called.getRequires = top.getRequires := by
    unfold Component.getRequires
    rw [(hprovided hapart.of_append).decl]
  rw [hrequires] at htopcomposite
  have hgrown : Grown top (boundaryNames top) topcomposite := by
    rw [hboundary]
    exact foldlM_grows (fun _ _ _ _ hb hb' => bindRequires_grows hb hb') hprovided htopcomposite
      hapart
  rw [← hboundary] at hapart
  obtain ⟨htopcomposite, hdecl, ⟨newb, hnewb, hfrom⟩, ⟨ncs, hncs, hnames⟩⟩ := hgrown
  cases topcomposite with
  | raw decl isFirstInstance kind => cases htopcomposite
  | composite decl binds subcomponents controllercomponents =>
    have hcontents : (Component.addRequire (.composite decl binds subcomponents
        controllercomponents) reqsched).contents = top.contents ++ ncs := hncs
    have hkind : Kind.instantiated = top.kind := by
      cases top with
      | raw decl isFirstInstance kind => cases hcomposite'
      | composite decl binds subcomponents controllercomponents => rfl
    refine ⟨⟨hcomposite'.symm, hkind, ⟨[reqsched], ?_⟩, ⟨newb, hnewb, fun bind hbind => ⟨?_, ?_⟩⟩,
      ⟨ncs, hcontents⟩⟩, hcomposite', ?_, ?_, fun hthis sc hsc => ?_⟩
    · have hdecl' : decl = top.decl := hdecl
      rw [← hdecl']
      rfl
    · exact fun hthis => hapart.this (hthis ▸ hfrom bind hbind)
    · intro sc hsc heq
      have hdisjoint := (List.nodup_append.mp hapart.nodup).2.2
      exact hdisjoint _ (List.mem_map_of_mem hsc) _ (hfrom bind hbind) heq
    · rw [hcontents, List.length_append, ← hnames, List.length_map]
    · rw [hcontents, List.map_append, hnames]
      exact hapart.nodup
    · rw [hcontents] at hsc
      rcases List.mem_append.mp hsc with hsc | hsc
      · exact hthis sc hsc
      · intro heq
        refine hapart.this ?_
        rw [← hnames, ← heq]
        exact List.mem_map_of_mem hsc

end Codinalte.Graph
