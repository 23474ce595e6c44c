import Codinalte.Conf.Canonical

/-! The network of components below a definition: each composite instantiates its contents. -/

namespace Codinalte.Conf
open Codinalte.Graph (CodingStyle)

inductive Component where
  | mk (nameinowner : Option String) (type : Asttype) (componentClass : ComponentClass)
    (isFirstInstance : Bool) (order : Int) (canonical : Canonical)
    (subcomponents controllercomponents : List Component)

namespace Component

def nameinowner : Component → Option String
  | mk name _ _ _ _ _ _ _ => name

def order : Component → Int
  | mk _ _ _ _ order _ _ _ => order

end Component

/-- What a composite contains so far. -/
structure Inside where
  subcomponents : List Component
  controllercomponents : List Component

def Inside.hasFcSubComponent (inside : Inside) (scname : String) : Bool :=
  scname = "this" || inside.subcomponents.any (·.nameinowner = some scname) ||
    inside.controllercomponents.any (·.nameinowner = some scname)

def insertSubComponent (component : Component) : List Component → List Component
  | [] => [component]
  | subcomponent :: subcomponents =>
    if component.order < subcomponent.order then component :: subcomponent :: subcomponents
    else subcomponent :: insertSubComponent component subcomponents

def Inside.addFcSubComponent (inside : Inside) (component : Component) : Inside :=
  { inside with subcomponents := insertSubComponent component inside.subcomponents }

def Inside.addFcControllerComponent (inside : Inside) (component : Component) : Inside :=
  { inside with controllercomponents := inside.controllercomponents ++ [component] }

/-- What is kept between the components of a run: the primitives that were instantiated, how often
each was cloned, and the values of the properties. -/
structure Run where
  instantiated : List String
  clones : String → Nat
  cvalues : Nat → String

def maxOrder : Int := 2147483647

/-- A definition of its own for one more instance of a primitive. -/
def clone (type : Asttype) (cloneNumber : Nat) : Asttype :=
  { type with
    fullyname := type.fullyname ++ "_" ++ toString cloneNumber
    attributeparameters := [] }

def createInstance (target : Target) (content : Option Content) (type : Asttype) (run : Run) :
    Except Failure (Asttype × Bool × Run) :=
  let mpc := match content with
    | some content => content.mpc.getD "null"
    | none => ""
  let key := mpc ++ ":" ++ type.fullyname
  if key ∈ run.instantiated then
    if type.singleton then .ok (type, false, run)
    else
      match target.style with
      | .c => do
        let cloneNumber := run.clones type.fullyname + 1
        raise (target.copySources type cloneNumber)
        return (clone type cloneNumber, true,
          { run with clones := Function.update run.clones type.fullyname cloneNumber })
      | .cpp => do
        throwIf (type.sourceType = .cSource) .cInstantiateTwiceInCpp
        return (type, true, run)
  else .ok (type, true, { run with instantiated := run.instantiated ++ [key] })

section Instanciate
variable (target : Target) (components : Components) (depth : Nat)

/-- The call by which the contents of a composite are instantiated, below the open composites. -/
abbrev InstanciateComposite :=
  Asttype → List String → List Content → Run → Except Failure (Inside × Run)

/-- What a generator makes for a content that is a stub or a skeleton. -/
def generated (typename : String) : Option (Except Error Asttype) :=
  if startsWith typename "_st." then target.stubGenerator.map fun generate => generate typename
  else if startsWith typename "_sk." then
    target.skeletonGenerator.map fun generate => generate typename
  else none

def maxpriority : Int := if target.domain = .hostEE then 31 else 2

/-- A generated component, which belongs to the controller of the composite. -/
def instanciateGenerated (content : Content) (type : Except Error Asttype)
    (s : Inside × Run) : Except Failure (Inside × Run) := do
  let type ← raise type
  let b ← createCanonical target components depth .primitive type none none s.2.cvalues
  return (s.1.addFcControllerComponent
    (.mk (some content.name) type .primitive true maxOrder b.component [] []),
    { s.2 with cvalues := b.cvalues })

/-- A component on an MPC, of which nothing inside is instantiated. -/
def instanciateProxy (content : Content) (s : Inside × Run) : Except Failure (Inside × Run) := do
  throwIf (target.domain ≠ .hostEE) .mpcSpecifiedInC
  throwIf (getOrdinal content.priority > 2) (.priorityNotSupported content.priority 2)
  let sc ← Compile components content.typedefinition.type
  throwIf (sc.kind = .type) .instantiateType
  let b ← createCanonical target components depth .primitiveraw sc none none s.2.cvalues
  return (s.1.addFcSubComponent
    (.mk (some content.name) sc .primitiveraw true content.order b.component [] []),
    { s.2 with cvalues := b.cvalues })

def instanciateComponent (instanciateComposite : InstanciateComposite) (callstack : List String)
    (content : Option Content) (sc : Asttype) (run : Run) : Except Failure (Component × Run) :=
  let name := content.map (·.name)
  let order := (content.map (·.order)).getD maxOrder
  let templates := content.map (·.typedefinition.templates)
  let attributes := content.map (·.typedefinition.attributes)
  match sc.kind with
  | .composite => do
    let b ← createCanonical target components depth .composite sc templates attributes run.cvalues
    let (inside, run) ← instanciateComposite sc callstack b.component.contents
      { run with cvalues := b.cvalues }
    return (.mk name sc .composite true order b.component inside.subcomponents
      inside.controllercomponents, run)
  | .primitive => do
    let (type, isFirstInstance, run) ← createInstance target content sc run
    let b ← createCanonical target components depth .primitive type none attributes run.cvalues
    return (.mk name type .primitive isFirstInstance order b.component [] [],
      { run with cvalues := b.cvalues })
  | .type => .error (.compilerexception .instantiateType)

/-- One content of a composite, which is the last of the open composites. -/
def instanciateContent (instanciateComposite : InstanciateComposite) (type : Asttype)
    (callstack : List String) (s : Inside × Run) (content : Content) :
    Except Failure (Inside × Run) := do
  throwIf (s.1.hasFcSubComponent content.name)
    (.subcomponentInstantiateTwice content.name type.fullyname)
  throwIf (content.typedefinition.type ∈ callstack) (.loopInNetwork callstack)
  throwIf (getOrdinal content.priority > maxpriority target)
    (.priorityNotSupported content.priority (maxpriority target))
  match content.mpc with
  | none =>
    match generated target content.typedefinition.type with
    | some type => instanciateGenerated target components depth content type s
    | none => do
      let sctype ← Compile components content.typedefinition.type
      let (component, run) ← instanciateComponent target components depth instanciateComposite
        callstack (some content) sctype s.2
      return (s.1.addFcSubComponent component, run)
  | some _ => instanciateProxy target components depth content s

/-- All contents of a composite, which is open while they are instantiated; the first argument
bounds the composites that are open at a time. -/
def instanciateComposite : Nat → InstanciateComposite
  | 0, _, _, _, _ => .error .unfinished
  | calls + 1, type, callstack, contents, run =>
    contents.foldlM (instanciateContent target components depth (instanciateComposite calls) type
      (callstack ++ [type.fullyname])) (⟨[], []⟩, run)

end Instanciate

/-- A definition with nothing above it. -/
def instanciate (target : Target) (components : Components) (calls : Nat) (sc : Asttype)
    (run : Run) : Except Failure (Component × Run) :=
  instanciateComponent target components calls (instanciateComposite target components calls calls)
    [] none sc run

end Codinalte.Conf
