import Codinalte.Composite.Tree
import Codinalte.Lib.Numbering
import Mathlib.Logic.Function.Basic

/-! The life cycle methods that are generated for a composite, and what they do to an instance. -/

namespace Codinalte.Composite
open Codinalte.Numbering

/-- What a step of the construction leaves until it is undone: a mutex, the creation of a component
that the execution engine was told of (for a primitive, or for the server of a skeleton), a
component that was constructed, the events of a binding component, an instance on the MPC, a binding
of the component manager, and the registration of the composite. -/
inductive Effect where
  | mutex (c : Path)
  | component (c : Path) (priority : String)
  | skeleton (c : Path) (priority : String)
  | constructed (c : Path)
  | fifo (c : Path)
  | instance (c : Path)
  | binding (c : Path)
  | registered
deriving DecidableEq

/-- The statements of `construct`. Those that are `checked` go to `out_on_error` where they fail. A
primitive without a constructor is constructed by no statement. -/
inductive Statement where
  | eeMutexCreate (c : Path)
  | signalComponentCreation (c : Path) (priority : String) (checked : Bool)
  | construct (c : Path) (provided : Bool)
  | createFifo (c target : Path)
  | instantiateComponent (c : Path)
  | bindComponent (c : Path) (client : Option Path)
deriving DecidableEq

/-- The statements of `destroy`. -/
inductive Undo where
  | eeMutexDestroy (c : Path)
  | signalComponentDestruction (effect : Effect)
  | destroy (c : Path) (provided : Bool)
  | destroyFifo (c : Path)
  | destroyComponent (c : Path)
  | unbindComponent (c : Path) (client : Option Path)

/-- The statements of a leaf in `construct`, up to each `levelOfConstruction = n;`. -/
def constructLeaf (leaf : Leaf) : List (List Statement) :=
  let c := leaf.path
  match leaf.kind with
  | .primitive priority constructor _ _ _ =>
    [[.eeMutexCreate c], [.signalComponentCreation c priority true], [.construct c constructor]]
  | .event target =>
    match target with
    | some target => [[.eeMutexCreate c, .createFifo c target]]
    | none => [[.eeMutexCreate c]]
  | .trace => [[.eeMutexCreate c]]
  | .proxycomp => [[.instantiateComponent c]]
  | .proxystub => [[.bindComponent c none]]
  | .proxyskel priority => [[.signalComponentCreation c priority false, .bindComponent c none]]
  | .proxybind client => [[.bindComponent c (some client)]]
  | .automanaged => [[]]

/-- The statements of a leaf in `destroy`, under each `if(levelOfConstruction >= n)`. -/
def destroyLeaf (leaf : Leaf) : List (List Undo) :=
  let c := leaf.path
  match leaf.kind with
  | .primitive priority _ destructor _ _ =>
    [[.destroy c destructor], [.signalComponentDestruction (.component c priority)],
      [.eeMutexDestroy c]]
  | .event _ => [[.destroyFifo c, .eeMutexDestroy c]]
  | .trace => [[.eeMutexDestroy c]]
  | .proxycomp => [[.destroyComponent c]]
  | .proxystub => [[.unbindComponent c none]]
  | .proxyskel priority =>
    [[.unbindComponent c none, .signalComponentDestruction (.skeleton c priority)]]
  | .proxybind client => [[.unbindComponent c (some client)]]
  | .automanaged => [[]]

/-- The pass that emits `construct` counts `levelOfConstruction` upwards. -/
def constructPass (top : Top) : List (Nat × List Statement) :=
  numberUp ((browseComponent false top).flatMap constructLeaf) 0

def levels (top : Top) : Nat := ((browseComponent false top).flatMap constructLeaf).length

/-- The pass that emits `destroy` begins below the level of the registration, and counts
downwards. -/
def destroyPass (top : Top) : List (Nat × List Undo) :=
  numberDown ((browseComponent true top).flatMap destroyLeaf) (levels top)

inductive NmfState where
  | default
  | stoppedWaitFlush
deriving DecidableEq

inductive Event where
  | did (e : Effect)
  | undid (e : Effect)
  | started (c : Path)
  | stopped (c : Path)
deriving DecidableEq

inductive NmfError where
  | ok
  | invalidComponentStateTransition
  | componentNotStopped
  | failed (statement : Statement)
deriving DecidableEq

/-- An instance. `fifo` holds the mutex that is in the events of a binding component, `components`
tells whether the handle of an instance on the MPC is set, and `trace` what was done so far. -/
structure Instance where
  levelOfConstruction : Int
  startNumber : Int
  constructedNumber : Int
  mutexHandle : Path → Nat
  fifo : Path → Option Nat
  components : Path → Bool
  nmfState : Path → NmfState
  trace : List Event

/-- The generated constructor. -/
def create : Instance :=
  ⟨0, 0, 0, fun _ => 0, fun _ => none, fun _ => false, fun _ => .default, []⟩

/-- What the calls of a construction answer: the handle of a mutex, or 0, and whether another
statement succeeds. -/
structure World where
  mutex : Path → Nat
  succeeds : Statement → Bool

def Instance.record (s : Instance) (event : Event) : Instance :=
  { s with trace := s.trace ++ [event] }

/-- A statement of `construct`, and whether the construction goes on. -/
def execStatement (world : World) (s : Instance) : Statement → Instance × Bool
  | .eeMutexCreate c =>
    let s := { s with mutexHandle := Function.update s.mutexHandle c (world.mutex c) }
    if world.mutex c = 0 then (s, false) else (s.record (.did (.mutex c)), true)
  | .signalComponentCreation c priority checked =>
    if world.succeeds (.signalComponentCreation c priority checked) then
      (s.record (.did (if checked then .component c priority else .skeleton c priority)), true)
    else (s, !checked)
  | .construct c provided =>
    if provided && !world.succeeds (.construct c provided) then (s, false)
    else (s.record (.did (.constructed c)), true)
  | .createFifo c target =>
    -- the result is not looked at; a fifo that could not be filled is destroyed again
    if world.succeeds (.createFifo c target) then
      ({ s with fifo := Function.update s.fifo c (some (s.mutexHandle target)) }.record
        (.did (.fifo c)), true)
    else ({ s with fifo := Function.update s.fifo c none }, true)
  | .instantiateComponent c =>
    if world.succeeds (.instantiateComponent c) then
      ({ s with components := Function.update s.components c true }.record (.did (.instance c)),
        true)
    else (s, false)
  | .bindComponent c client =>
    -- the component manager refuses a client without a handle
    if world.succeeds (.bindComponent c client) && client.all s.components then
      (s.record (.did (.binding c)), true)
    else (s, false)

/-- The statements of a level; the statement that failed, if one did. -/
def execLevel (world : World) : List Statement → Instance → Instance × Option Statement
  | [], s => (s, none)
  | statement :: statements, s =>
    let r := execStatement world s statement
    if r.2 then execLevel world statements r.1 else (r.1, some statement)

def sint8 (x : Int) : Int := x.bmod 256

def sint16 (x : Int) : Int := x.bmod 65536

/-- The body of `construct`, level after level. -/
def execConstruct (world : World) :
    List (Nat × List Statement) → Instance → Instance × Option Statement
  | [], s => (s, none)
  | (n, statements) :: rest, s =>
    match execLevel world statements s with
    | (s, some statement) => (s, some statement)
    | (s, none) => execConstruct world rest { s with levelOfConstruction := sint16 n }

def execUndo (s : Instance) : Undo → Instance
  | .eeMutexDestroy c => s.record (.undid (.mutex c))
  | .signalComponentDestruction effect => s.record (.undid effect)
  | .destroy c _ => s.record (.undid (.constructed c))
  | .destroyFifo c =>
    if (s.fifo c).isSome then
      { s with fifo := Function.update s.fifo c none }.record (.undid (.fifo c))
    else s
  | .destroyComponent c => s.record (.undid (.instance c))
  | .unbindComponent c client =>
    if client.all s.components then s.record (.undid (.binding c)) else s

/-- The body of `destroy`. -/
def execDestroy (pass : List (Nat × List Undo)) (s : Instance) : Instance :=
  pass.foldl (fun s (n, undos) =>
    if s.levelOfConstruction ≥ n then undos.foldl execUndo s else s) s

def destroy (top : Top) (s : Instance) : Instance × NmfError :=
  let s := { s with constructedNumber := sint8 (s.constructedNumber - 1) }
  if s.constructedNumber > 0 then (s, .ok)
  else if s.startNumber > 0 then (s, .componentNotStopped)
  else if s.levelOfConstruction = 0 then (s, .invalidComponentStateTransition)
  else
    let s := if s.levelOfConstruction ≥ (levels top + 1 : Nat) then s.record (.undid .registered)
      else s
    ({ execDestroy (destroyPass top) s with levelOfConstruction := 0 }, .ok)

def construct (top : Top) (world : World) (s : Instance) : Instance × NmfError :=
  let constructedNumber := s.constructedNumber
  let s := { s with constructedNumber := sint8 (constructedNumber + 1) }
  if constructedNumber > 0 then
    (s, if top.singleton then .ok else .invalidComponentStateTransition)
  else if s.levelOfConstruction ≠ 0 then (s, .invalidComponentStateTransition)
  else
    match execConstruct world (constructPass top) s with
    | (s, some statement) => ((destroy top s).1, .failed statement)
    | (s, none) =>
      ({ s.record (.did .registered) with levelOfConstruction := sint16 (levels top + 1 : Nat) }, .ok)

/-- The leaves with a method of their own in `start` and in `stop`. -/
def startLeaf (s : Instance) (leaf : Leaf) : Instance :=
  match leaf.kind with
  | .primitive _ _ _ starter _ => if starter then s.record (.started leaf.path) else s
  | .proxycomp => s.record (.started leaf.path)
  | _ => s

def stopLeaf (s : Instance) (leaf : Leaf) : Instance :=
  match leaf.kind with
  | .primitive _ _ _ _ stopper => if stopper then s.record (.stopped leaf.path) else s
  | .proxycomp => s.record (.stopped leaf.path)
  | _ => s

def stopFlushLeaf (s : Instance) (leaf : Leaf) : Instance :=
  match leaf.kind with
  | .primitive .. => { s with nmfState := Function.update s.nmfState leaf.path .stoppedWaitFlush }
  | _ => s

def start (top : Top) (s : Instance) : Instance :=
  if s.constructedNumber = 0 then s
  else
    let startNumber := s.startNumber
    let s := { s with startNumber := sint8 (startNumber + 1) }
    if startNumber > 0 then s else (browseComponent false top).foldl startLeaf s

def stop (top : Top) (s : Instance) : Instance :=
  if s.constructedNumber = 0 then s
  else
    let s := { s with startNumber := sint8 (s.startNumber - 1) }
    if s.startNumber > 0 then s else (browseComponent true top).foldl stopLeaf s

def stop_flush (top : Top) (s : Instance) : Instance :=
  (browseComponent true top).foldl stopFlushLeaf (stop top s)

/-- Whether an event that is posted to the primitive is scheduled, and whether the reaction hands it
on. -/
def posted (s : Instance) (target : Path) : Bool := s.nmfState target ≠ .stoppedWaitFlush

def reacted (s : Instance) (target : Path) : Bool := s.nmfState target ≠ .stoppedWaitFlush

end Codinalte.Composite
