import Codinalte.Graph.Check
import Codinalte.Lib.Keyed

/-! The pass that inserts binding components in the binds of a network. -/

namespace Codinalte.Graph
open Codinalte.Checks Codinalte.Keyed

/-- The next numbers for the names of what is inserted. -/
structure Counts where
  bcNumber : Nat
  nbproxy : Nat
deriving DecidableEq

inductive BindError where
  | nullPointer
  | INTERFACE_NOT_FOUND (type : String)
  | INVALID_ENVIRONMENT (generator : String)
deriving DecidableEq

/-- What the generators of a target give their components beside `target`; a target may be without a
generator. -/
structure Generators where
  event : Option (List Require × List Provide)
  trace : Option (List Require × List Provide)
  compiles : String → Bool

def target : ItfName := ⟨"target", none⟩

def targetRequire (itf : String) : Require := ⟨itf, "target", false, 1, false, false, false, false⟩

def targetProvide (itf : String) : Provide := ⟨itf, "target", false, 1, "", false, 0⟩

/-- A component of the generators for events and traces. -/
def bc (name fullyname itf priority : String) (others : List Require × List Provide) (kind : Kind) :
    Component :=
  .raw ⟨name, fullyname, false, none, priority, targetRequire itf :: others.1,
    targetProvide itf :: others.2⟩ true kind

def proxyhelper (name fullyname itf : String) (kind : Kind) : Component :=
  .raw ⟨name, fullyname, false, none, "normal",
    [{ targetRequire itf with virtualInterface := true }], [targetProvide itf]⟩ true kind

def proxybind (name : String) (kind : Kind) : Component :=
  .raw ⟨name, "_virtual", false, none, "normal", [], []⟩ true kind

/-- A bind without options; a name that is serialized already stays as it is. -/
def newBind (from_ : String) (fromitf : ItfName) (to_ : String) (toitf : ItfName) : Bind :=
  ⟨from_, fromitf, to_, toitf, false, 4, 0, false⟩

/-- What becomes of a bind: the bind in its place, the binds that are added, and the components. -/
structure Rebound where
  bind : Bind
  newb : List Bind
  ncs : List Component

def itftype (server : Place) (bind : Bind) : Except BindError String :=
  if bind.to_ = "this" then
    match server.component.getRequire bind.toitf.getNameOfInterfaceCollection with
    | none => .error .nullPointer
    | some require => .ok require.type
  else
    match server.component.getProvide bind.toitf.getNameOfInterfaceCollection with
    | none => .error .nullPointer
    | some provide => .ok provide.type

def compile (gen : Generators) (type : String) : Except BindError Unit :=
  reject (gen.compiles type = false) (.INTERFACE_NOT_FOUND type)

def generator (name : String) (found : Option (List Require × List Provide)) :
    Except BindError (List Require × List Provide) :=
  match found with
  | none => .error (.INVALID_ENVIRONMENT name)
  | some others => .ok others

/-- The component is put in front of the server. -/
def inFront (bind : Bind) (bc : Component) : Rebound where
  bind := { bind with from_ := bc.nameinowner, fromitf := target }
  newb := [newBind bind.from_ bind.fromitf bc.nameinowner target]
  ncs := [bc]

def behindSkeleton (bind : Bind) (event skel : Component) : Rebound where
  bind := { bind with to_ := skel.nameinowner, toitf := target }
  newb := [newBind event.nameinowner target bind.to_ bind.toitf,
    newBind skel.nameinowner target event.nameinowner target]
  ncs := [event, skel]

def component (place : Place) (name : String) : Except BindError Place :=
  match place.getFcSubComponent name with
  | none => .error .nullPointer
  | some c => .ok c

/-- The name of an interface with `_` for each dot. -/
def name_ (itf : String) : String :=
  String.ofList (itf.toList.map fun c => if c = '.' then '_' else c)

/-- One bind of the composite, with the numbers that it leaves; `nbbc` is counted for each composite
anew. -/
def rebind (gen : Generators) (composite : Place) (counts : Counts) (nbbc : Nat) (bind : Bind) :
    Except BindError (Rebound × Counts × Nat) := do
  let client ← component composite bind.from_
  let server ← component composite bind.to_
  let type ← itftype server bind
  match client.getMPC, server.getMPC with
  | none, some _ =>
    compile gen type
    if bind.from_ = "this" then return (⟨bind, [], []⟩, counts, nbbc)
    else
      let stub := proxyhelper (label "p" counts.nbproxy) ("_stl." ++ name_ type) type
        (.proxystub type bind.from_ bind.fromitf bind.to_ bind.toitf bind.size)
      return (inFront bind stub, { counts with nbproxy := counts.nbproxy + 1 }, nbbc)
  | some _, none =>
    compile gen type
    if bind.to_ = "this" then return (⟨bind, [], []⟩, counts, nbbc)
    else do
      let others ← generator "Event" gen.event
      let event := bc (label "bc" counts.bcNumber) ("_evl." ++ type) type
        server.component.decl.priority others (.event type bind.size bind.subpriority)
      let skel := proxyhelper (label "p" counts.nbproxy) ("_skl." ++ name_ type) type
        (.proxyskel type bind.from_ bind.fromitf event.nameinowner target bind.size)
      return (behindSkeleton bind event skel, ⟨counts.bcNumber + 1, counts.nbproxy + 1⟩, nbbc)
  | some _, some _ =>
    let virtual := proxybind (label "v" nbbc)
      (.proxybind bind.from_ bind.fromitf bind.to_ bind.toitf bind.size bind.asynchronous)
    return (⟨bind, [], [virtual]⟩, counts, nbbc + 1)
  | none, none =>
    if bind.asynchronous then do
      compile gen type
      let others ← generator "Event" gen.event
      let event := bc (label "bc" counts.bcNumber) ("_evl." ++ type) type
        server.component.decl.priority others (.event type bind.size bind.subpriority)
      return (inFront bind event, { counts with bcNumber := counts.bcNumber + 1 }, nbbc)
    else if bind.trace then do
      compile gen type
      let others ← generator "Trace" gen.trace
      let trace := bc (label "bc" counts.bcNumber) ("_trl." ++ type) type "normal" others
        (.trace type)
      return (inFront bind trace, { counts with bcNumber := counts.bcNumber + 1 }, nbbc)
    else return (⟨bind, [], []⟩, counts, nbbc)

def rebindAll (gen : Generators) (composite : Place) :
    Counts → Nat → List Bind → Except BindError (List Rebound × Counts)
  | counts, _, [] => .ok ([], counts)
  | counts, nbbc, bind :: binds => do
    let (rebound, counts, nbbc) ← rebind gen composite counts nbbc bind
    let (rest, counts) ← rebindAll gen composite counts nbbc binds
    return (rebound :: rest, counts)

/-- The binds in their places, and those that are added behind them. -/
def reboundBinds (rebounds : List Rebound) : List Bind :=
  rebounds.map Rebound.bind ++ rebounds.flatMap Rebound.newb

def addFcControllerComponents (ncs controllercomponents : List Component) : List Component :=
  putAll Component.nameinowner ncs controllercomponents

mutual

/-- The contents are bound before the composite itself. -/
def bindComponent (gen : Generators) (owners : List Component) (counts : Counts) :
    Component → Except BindError (Component × Counts)
  | .raw decl isFirstInstance kind => .ok (.raw decl isFirstInstance kind, counts)
  | .composite decl binds subcomponents controllercomponents => do
    let owners' := Component.composite decl binds subcomponents controllercomponents :: owners
    let (subs, counts) ← bindEach gen owners' counts subcomponents
    let (controllers, counts) ← bindEach gen owners' counts controllercomponents
    let (rebounds, counts) ← rebindAll gen ⟨.composite decl binds subs controllers, owners⟩ counts 0
      binds
    return (.composite decl (reboundBinds rebounds) subs
      (addFcControllerComponents (rebounds.flatMap Rebound.ncs) controllers), counts)

def bindEach (gen : Generators) (owners : List Component) (counts : Counts) :
    List Component → Except BindError (List Component × Counts)
  | [] => .ok ([], counts)
  | sc :: rest => do
    let (sc, counts) ← bindComponent gen owners counts sc
    let (rest, counts) ← bindEach gen owners counts rest
    return (sc :: rest, counts)

end

end Codinalte.Graph
