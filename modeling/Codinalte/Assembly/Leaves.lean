import Codinalte.Composite.Construction
import Codinalte.Graph.Boundaries

/-! The class that is generated for a network: the components that its visitor travels, in their
order, and what is looked up for them. -/

namespace Codinalte.Assembly
open Codinalte.Checks Codinalte.Graph Codinalte.Numbering
open Codinalte.Composite (Path Leaf Statement constructLeaf)

/-- The name of a component's variable. The contents of the component on top have their own names. -/
def getPathName (place : Place) : Path :=
  ((place.component :: place.owners).dropLast.map Component.nameinowner).reverse

mutual

/-- The components without contents, in the order in which the visitor travels them. -/
def travelled (owners : List Component) : Component → List Place
  | .raw decl isFirstInstance kind =>
    if isFirstInstance then [⟨.raw decl isFirstInstance kind, owners⟩] else []
  | .composite decl binds subcomponents controllercomponents =>
    let owners' := Component.composite decl binds subcomponents controllercomponents :: owners
    travelledEach owners' subcomponents ++ travelledEach owners' controllercomponents

def travelledEach (owners : List Component) : List Component → List Place
  | [] => []
  | sc :: rest => travelled owners sc ++ travelledEach owners rest

end

def getValue (priority : String) : String :=
  if priority = "background" then "0"
  else if priority = "normal" then "1"
  else if priority = "urgent" then "2"
  else if priority = "io" then "6"
  else priority

def hasProvide (c : Component) (itfname : String) : Bool := (c.getProvide itfname).isSome

/-- What a proxy was given when it was made: a content of its composite. -/
def beside (place : Place) (name : String) : Except BoundaryError Place :=
  match place.owners with
  | [] => .error .nullPointer
  | owner :: owners =>
    match (Place.mk owner owners).getFcSubComponent name with
    | none => .error .nullPointer
    | some c => .ok c

/-- What the variable of an event is connected to. -/
def connect (fuel : Nat) (place : Place) : Except BoundaryError (Option Place) := do
  let ir ← lookedUp (lookupFc fuel place.component place.owners target)
  return ir.bind InterfaceReference.server

def leafKind (fuel : Nat) (place : Place) : Except BoundaryError Composite.Kind :=
  match place.component.kind with
  | .instantiated =>
    match place.component.decl.localmpc with
    | some _ => .ok .proxycomp
    | none => .ok (.primitive (getValue place.component.decl.priority)
        (hasProvide place.component "constructor") (hasProvide place.component "destructor")
        (hasProvide place.component "starter") (hasProvide place.component "stopper"))
  | .event .. => do
    let server ← connect fuel place
    return .event (server.map getPathName)
  | .trace _ => .ok .trace
  | .proxystub .. => .ok .proxystub
  | .proxyskel _ _ _ server _ _ => do
    let server ← beside place server
    return .proxyskel (getValue server.component.decl.priority)
  | .proxybind client _ _ _ _ _ => do
    let client ← beside place client
    return .proxybind (getPathName client)
  | .call .. | .callback .. => .ok .automanaged

def leafOf (fuel : Nat) (place : Place) : Except BoundaryError Leaf := do
  let kind ← leafKind fuel place
  return ⟨getPathName place, kind⟩

def assemble (fuel : Nat) (top : Component) : Except BoundaryError (List Leaf) :=
  (travelled [] top).mapM (leafOf fuel)

/-- The body of the generated `construct`. -/
def constructBody (leaves : List Leaf) : List (Nat × List Statement) :=
  numberUp (leaves.flatMap constructLeaf) 0

/-- The components with a variable of their own class. -/
def declares (place : Place) : Bool :=
  match place.component.kind with
  | .instantiated | .event .. | .trace _ => true
  | _ => false

/-- The class that is generated for the component on top, in which the C++ compiler finds no two
variables of one name. -/
structure Assembled (fuel : Nat) (top : Component) (leaves : List Leaf) : Prop where
  assembled : assemble fuel top = .ok leaves
  declared : (((travelled [] top).filter declares).map getPathName).Nodup

section Travelled
variable {place below : Place}

theorem travelledEach_append (owners components components' : List Component) :
    travelledEach owners (components ++ components') =
      travelledEach owners components ++ travelledEach owners components' := by
  induction components with
  | nil => rfl
  | cons sc rest ih =>
    rw [List.cons_append, travelledEach, travelledEach, ih, List.append_assoc]

theorem travelled_contents (h : place.component.isComposite = true) :
    travelled place.owners place.component =
      travelledEach (place.component :: place.owners) place.component.contents := by
  obtain ⟨component, owners⟩ := place
  cases component with
  | raw => cases h
  | composite decl binds subcomponents controllercomponents =>
    exact (travelledEach_append _ subcomponents controllercomponents).symm

/-- A component without contents that is not a later instance of a singleton. -/
structure IsLeaf (component : Component) : Prop where
  raw : component.isComposite = false
  isFirstInstance : component.isFirstInstance = true

mutual

theorem under_of_travelled (owners : List Component) : ∀ c : Component,
    below ∈ travelled owners c → Under ⟨c, owners⟩ below ∧ IsLeaf below.component
  | .raw decl isFirstInstance kind, h => by
    unfold travelled at h
    split at h
    · next hfirst =>
      rw [List.mem_singleton.mp h]
      exact ⟨.refl _, rfl, hfirst⟩
    · cases h
  | .composite decl binds subcomponents controllercomponents, h => by
    unfold travelled at h
    rcases List.mem_append.mp h with h | h
    · obtain ⟨sc, hsc, hunder, hleaf⟩ := under_of_travelledEach _ subcomponents h
      exact ⟨.sub (List.mem_append_left _ hsc) hunder, hleaf⟩
    · obtain ⟨sc, hsc, hunder, hleaf⟩ := under_of_travelledEach _ controllercomponents h
      exact ⟨.sub (List.mem_append_right _ hsc) hunder, hleaf⟩

theorem under_of_travelledEach (owners : List Component) : ∀ components : List Component,
    below ∈ travelledEach owners components →
      ∃ sc ∈ components, Under ⟨sc, owners⟩ below ∧ IsLeaf below.component
  | [], h => nomatch h
  | sc :: rest, h => by
    unfold travelledEach at h
    rcases List.mem_append.mp h with h | h
    · obtain ⟨hunder, hleaf⟩ := under_of_travelled owners sc h
      exact ⟨sc, List.mem_cons_self, hunder, hleaf⟩
    · obtain ⟨sc', hsc', hunder, hleaf⟩ := under_of_travelledEach owners rest h
      exact ⟨sc', List.mem_cons_of_mem _ hsc', hunder, hleaf⟩

end

theorem travelled_sublist {sc : Component} {components : List Component} (owners : List Component)
    (h : sc ∈ components) : (travelled owners sc).Sublist (travelledEach owners components) := by
  obtain ⟨front, back, rfl⟩ := List.append_of_mem h
  rw [travelledEach_append, travelledEach]
  exact (List.sublist_append_left _ _).trans (List.sublist_append_right _ _)

theorem travelledEach_sublist {components components' : List Component} (owners : List Component)
    (h : components.Sublist components') :
    (travelledEach owners components).Sublist (travelledEach owners components') := by
  induction h with
  | slnil => exact List.Sublist.refl _
  | cons sc _ ih => exact ih.trans (List.sublist_append_right _ _)
  | cons_cons sc _ ih => exact ih.append_left _

theorem under_sublist (h : Under place below) :
    (travelled below.owners below.component).Sublist (travelled place.owners place.component) := by
  induction h with
  | refl => exact List.Sublist.refl _
  | sub hsc _ ih =>
    rw [travelled_contents (isComposite_of_content hsc)]
    exact ih.trans (travelled_sublist _ hsc)

theorem mem_travelled (h : Under place below) (hleaf : IsLeaf below.component) :
    below ∈ travelled place.owners place.component := by
  apply (under_sublist h).subset
  obtain ⟨component, owners⟩ := below
  cases component with
  | raw decl isFirstInstance kind =>
    have hfirst : isFirstInstance = true := hleaf.isFirstInstance
    unfold travelled
    rw [if_pos hfirst]
    exact List.mem_singleton_self _
  | composite => cases hleaf.raw

end Travelled

end Codinalte.Assembly
