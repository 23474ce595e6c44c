import Codinalte.Build.Dependencies
import Codinalte.Lib.Machine

/-! The objects, libraries and the ELF of a component, and the runs of the tool that bring them up
to date. A run asks for each object whether it has to be compiled, and archives and links where it
has started a command before. -/

namespace Codinalte.Build.Maker
open Codinalte.Machine

inductive CodingStyle where
  | C
  | CPP
deriving DecidableEq

/-- Files under the binary and the final directory. The full name of a component is the list of its
parts. -/
inductive Path where
  | component (fullyname : List String) (filename : String)
  | unique (filename : String)
  | final (fullyname : List String) (extension : String)
deriving DecidableEq

/-- The name of a source has an extension. -/
structure Astsource (F : Type) where
  file : F
  name : String
  dotted : '.' ∈ name.toList

structure Astprimitive (F : Type) where
  fullyname : List String
  sources : List (Astsource F)

inductive Component (F : Type) where
  | primitive (type : Astprimitive F) (isFirstInstance : Bool)
  | primitiveraw
  | proxy
  | composite (fullyname : List String) (isFirstInstance : Bool) (subComponents : List (Component F))

/-- `header` is there for the domains that link a header description. -/
structure Target (F : Type) where
  style : CodingStyle
  header : Bool
  SourceExtension : String
  OBJ : String
  LIB : String
  S : String
  elfExtension : String
  temporary : List String → String → F
  directories : Directories F

/-- A source with its object file, and its dependency file where it has one. -/
structure Compilation (F : Type) where
  src : F
  obj : Path
  dep : Option Path

structure Library (F : Type) where
  outlibfile : Path
  compilations : List (Compilation F)

/-- What is built for a component: a library for each primitive, the header description, the common
part, and the ELF. -/
structure Project (F : Type) where
  libraries : List (Library F)
  header : Option (Compilation F)
  common : Compilation F
  outelf : Path

variable {F : Type}

def smallname (fullyname : List String) : String := fullyname.getLastD ""

/-- The name up to its last dot. -/
def smallsource (name : String) : String :=
  String.ofList ((name.toList.reverse.dropWhile (· ≠ '.')).drop 1).reverse

def getComponentBinaryFile (fullyname : List String) (filename : String) : Path :=
  .component fullyname filename

def getComponentTemporaryUniqueFile (fullyname : List String) (extension : String) : Path :=
  .unique ("_".intercalate fullyname ++ "." ++ extension)

def getComponentFinalExt (fullyname : List String) (extension : String) : Path :=
  .final fullyname extension

namespace Target

def compilation (target : Target F) (fullyname : List String) (src : F) (name : String) :
    Compilation F where
  src := src
  obj := getComponentBinaryFile fullyname (name ++ "." ++ target.OBJ)
  dep := some (getComponentBinaryFile fullyname (name ++ ".d"))

def wrapper (target : Target F) (fullyname : List String) : List (Compilation F) :=
  match target.style with
  | .C => [target.compilation fullyname
      (target.temporary fullyname (smallname fullyname ++ "-wrp.c")) (smallname fullyname ++ "-wrp")]
  | .CPP => []

def library (target : Target F) (component : Astprimitive F) : Library F where
  outlibfile := getComponentTemporaryUniqueFile component.fullyname target.LIB
  compilations := target.wrapper component.fullyname ++ component.sources.map fun source =>
    target.compilation component.fullyname source.file (smallsource source.name)

/-- The header description has no dependency file. -/
def headerCompilation (target : Target F) (fullyname : List String) : Compilation F where
  src := target.temporary fullyname (smallname fullyname ++ "-hdr." ++ target.S)
  obj := getComponentBinaryFile fullyname (smallname fullyname ++ "-hdr." ++ target.OBJ)
  dep := none

def common (target : Target F) (fullyname : List String) : Compilation F :=
  target.compilation fullyname
    (target.temporary fullyname (smallname fullyname ++ "-nmf." ++ target.SourceExtension))
    (smallname fullyname ++ "-nmf")

end Target

mutual

/-- The primitives whose sources are compiled, each once. -/
def travelComponent : Component F → List (Astprimitive F) → List (Astprimitive F)
  | .primitive type isFirstInstance, found =>
    if isFirstInstance ∧ type.fullyname ∉ found.map Astprimitive.fullyname then found ++ [type]
    else found
  | .composite _ isFirstInstance subComponents, found =>
    if isFirstInstance then travelComposite subComponents found else found
  | _, found => found

def travelComposite : List (Component F) → List (Astprimitive F) → List (Astprimitive F)
  | [], found => found
  | sc :: rest, found => travelComposite rest (travelComponent sc found)

end

def Component.fullyname : Component F → List String
  | .primitive type _ => type.fullyname
  | .composite fullyname _ _ => fullyname
  | _ => []

/-- `browseComponent`; the header description is compiled where it was generated. -/
def browseComponent [DecidableEq F] (target : Target F) (files : Finset F) (component : Component F) :
    Project F where
  libraries := (travelComponent component []).map target.library
  header :=
    let header := target.headerCompilation component.fullyname
    if target.header ∧ header.src ∈ files then some header else none
  common := target.common component.fullyname
  outelf := getComponentFinalExt component.fullyname target.elfExtension

/-- A set that keeps the order in which the files were added. -/
def linked (files : List Path) : List Path :=
  files.foldl (fun files file => if file ∈ files then files else files ++ [file]) []

def Library.files (library : Library F) : List Path := linked (library.compilations.map Compilation.obj)

namespace Project

def compilations (project : Project F) : List (Compilation F) :=
  project.libraries.flatMap Library.compilations ++ project.header.toList ++ [project.common]

/-- What is linked. -/
def files (project : Project F) : List Path :=
  linked (project.libraries.map Library.outlibfile ++ project.header.toList.map Compilation.obj ++
    [project.common.obj])

end Project

/-- What a file was produced from: a source, with the dates of all sources and headers at that time,
or files. -/
inductive Content (F : Type) where
  | object (src : F) (modified : F → Nat)
  | archive (members : List (Path × Option (Content F)))

inductive Command (F : Type) where
  | compile (src : F) (obj : Path)
  | archive (out : Path) (files : List Path)

/-- The sources and headers with the dates of their contents, and the files that were built. -/
structure Disk (F : Type) where
  clock : Nat
  fs : FileSystem F
  modified : F → Nat
  product : Path → Option (Nat × Content F)
  dep : Path → Option (List F)

variable [DecidableEq F]

namespace Disk

def date (d : Disk F) (path : Path) : Option Nat := (d.product path).map Prod.fst

def content (d : Disk F) (path : Path) : Option (Content F) := (d.product path).map Prod.snd

/-- A command that succeeds. -/
def execute (d : Disk F) (command : Command F) : Disk F :=
  let (out, content) := match command with
    | .compile src obj => (obj, Content.object src d.modified)
    | .archive out files => (out, Content.archive (files.map fun file => (file, d.content file)))
  { d with
    clock := d.clock + 1
    product := Function.update d.product out (some (d.clock + 1, content)) }

def modify (d : Disk F) (file : F) (text : Except ParseError (List String × List String)) : Disk F :=
  { d with
    clock := d.clock + 1
    fs := { d.fs with parse := Function.update d.fs.parse file text }
    modified := Function.update d.modified file (d.clock + 1) }

/-- Whether a source is compiled: the header description is compared with its object alone. -/
def needCompile (d : Disk F) (c : Compilation F) : Bool :=
  match c.dep with
  | some dep => needRecompile d.modified (d.date c.obj) (d.dep dep)
  | none => decide ((d.date c.obj).getD 0 < d.modified c.src)

end Disk

/-- What the thread of the tool does next. `top` goes with what is linked in the end. -/
inductive Item (F : Type) where
  | compile (top : Bool) (c : Compilation F)
  | createDependenciesFile (src : F) (dep : Path)
  | library (out : Path) (files : List Path)
  | link (out : Path) (files : List Path)

structure Task (F : Type) where
  command : Command F
  predecessors : List Nat
  finished : Bool

/-- A run of the tool. The commands it has started have numbers; `predecessors` are those for the
library at hand, `top` those for the ELF. -/
structure Run (F : Type) where
  disk : Disk F
  table : CFiles F
  items : List (Item F)
  predecessors : List Nat
  top : List Nat
  tasks : List (Task F)
  stopped : Bool

inductive Action where
  | tool
  | finish (task : Nat)
  | fail (task : Nat)
deriving DecidableEq

def Library.items (library : Library F) : List (Item F) :=
  library.compilations.map (.compile false) ++ [.library library.outlibfile library.files]

def Project.items (project : Project F) : List (Item F) :=
  project.libraries.flatMap Library.items ++ project.header.toList.map (.compile true) ++
    [.compile true project.common, .link project.outelf project.files]

def begin (project : Project F) (d : Disk F) : Run F where
  disk := d
  table := CFiles.empty
  items := project.items
  predecessors := []
  top := []
  tasks := []
  stopped := false

namespace Run

def start (s : Run F) (command : Command F) (predecessors : List Nat) : Run F :=
  { s with tasks := s.tasks ++ [⟨command, predecessors, false⟩] }

def finished (s : Run F) (t : Nat) : Prop := ∃ task, s.tasks[t]? = some task ∧ task.finished = true

instance (s : Run F) (t : Nat) : Decidable (s.finished t) :=
  decidable_of_iff ((s.tasks[t]?.map Task.finished) = some true) (by
    unfold finished
    rw [Option.map_eq_some_iff])

/-- The next step of the thread of the tool. -/
def tool (directories : Directories F) (s : Run F) : Option (Run F) :=
  match s.items with
  | [] => none
  | .compile top c :: rest =>
    if s.disk.needCompile c then
      let t := s.tasks.length
      some { s.start (.compile c.src c.obj) [] with
        items := (c.dep.toList.map (.createDependenciesFile c.src)) ++ rest
        predecessors := if top then s.predecessors else s.predecessors ++ [t]
        top := if top then s.top ++ [t] else s.top }
    else some { s with items := rest }
  | .createDependenciesFile src dep :: rest =>
    match createDependencies s.disk.fs s.table directories src with
    | .error _ => some { s with stopped := true }
    | .ok (table, known) =>
      some { s with
        disk := { s.disk with
          dep := Function.update s.disk.dep dep (some (createDependenciesFile src known)) }
        table := table
        items := rest }
  | .library out files :: rest =>
    if s.predecessors ≠ [] ∨ s.disk.product out = none then
      some { s.start (.archive out files) s.predecessors with
        items := rest
        predecessors := []
        top := s.top ++ [s.tasks.length] }
    else some { s with items := rest }
  | .link out files :: rest =>
    if s.top ≠ [] ∨ s.disk.product out = none then
      some { s.start (.archive out files) s.top with items := rest }
    else some { s with items := rest }

/-- A command is started when those before it have finished. -/
def ready (s : Run F) (t : Nat) : Option (Task F) :=
  (s.tasks[t]?).filter fun task =>
    task.finished = false ∧ ∀ p ∈ task.predecessors, s.finished p

/-- A command that fails leaves its output as it was, and ends the run. -/
def step (directories : Directories F) (s : Run F) (action : Action) : Option (Run F) :=
  if s.stopped then none
  else match action with
    | .tool => s.tool directories
    | .finish t => (s.ready t).map fun task =>
      { s with
        disk := s.disk.execute task.command
        tasks := s.tasks.set t { task with finished := true } }
    | .fail t => (s.ready t).map fun _ => { s with stopped := true }

def Success (s : Run F) : Prop :=
  s.stopped = false ∧ s.items = [] ∧ ∀ task ∈ s.tasks, task.finished = true

instance (s : Run F) : Decidable s.Success := by
  unfold Success
  have : Decidable (s.items = []) := decidable_of_iff (s.items.isEmpty = true) List.isEmpty_iff
  infer_instance

end Run

inductive Event (F : Type) where
  | modify (file : F) (text : Except ParseError (List String × List String))
  | toolRun (actions : List Action)

/-- Between runs that end, with success or not, sources and headers are modified. -/
def happens (project : Project F) (directories : Directories F) (d : Disk F) :
    Event F → Option (Disk F)
  | .modify file text => if file ∈ d.fs.files then some (d.modify file text) else none
  | .toolRun actions =>
    (Machine.run (Run.step directories) (begin project d) actions).bind fun s =>
      if s.stopped ∨ s.Success then some s.disk else none

/-- Nothing was built yet, and what is there has a date. -/
structure Disk.Initial (d : Disk F) : Prop where
  files : ∀ f ∈ d.fs.files, 0 < d.modified f
  modified : ∀ f, d.modified f ≤ d.clock
  product : ∀ path, d.product path = none
  dep : ∀ path, d.dep path = none

end Codinalte.Build.Maker
