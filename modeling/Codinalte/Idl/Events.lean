import Codinalte.Idl.Declarations
import Codinalte.Idl.Layout

/-! The copies of the arguments of an asynchronous event: what the posting code stores in the event,
and what the reaction code reads from there into its local variables. -/

namespace Codinalte.Idl
open Codinalte.Stores

/-- `loop` is `for(___i = 0; ___i < sizeInteger; ___i++) { body }`. -/
inductive Copies where
  | copy (leftname rightname : Name)
  | loop (arraylevel sizeInteger : Nat) (body : Copies)

namespace Event

/-- The loop variables that a parameter needs. -/
def checkData : IdlType → Nat
  | .named type => checkData type
  | .reference type => checkData type
  | .typedef type => checkData type
  | .array type _ => 1 + checkData type
  | .const type => checkData type
  | _ => 0

/-- From the field of the event to the local variable of the same name. -/
def readData : IdlType → Name → Nat → Copies
  | .named type, name, arraylevel => readData type name arraylevel
  | .reference type, name, arraylevel => readData type name arraylevel
  | .array type sizeInteger, name, arraylevel =>
    .loop arraylevel sizeInteger (readData type (.element name arraylevel) (arraylevel + 1))
  | .typedef type, name, arraylevel => readData type name arraylevel
  | .const type, name, arraylevel => readData type name arraylevel
  | _, name, _ => .copy name name

/-- From the parameter to the field of the event. -/
def writeData (style : Style) : IdlType → Name → Name → Nat → Copies
  | .named type, leftname, rightname, arraylevel =>
    writeData style type leftname rightname arraylevel
  | .reference type, leftname, rightname, arraylevel =>
    writeData style type leftname (readParameter style (.reference type) rightname) arraylevel
  | .array type sizeInteger, leftname, rightname, arraylevel =>
    .loop arraylevel sizeInteger (writeData style type (.element leftname arraylevel)
      (.element rightname arraylevel) (arraylevel + 1))
  | .typedef type, leftname, rightname, arraylevel =>
    writeData style type leftname rightname arraylevel
  | .const type, leftname, rightname, arraylevel =>
    writeData style type leftname rightname arraylevel
  | _, leftname, rightname, _ => .copy leftname rightname

/-- The reaction copies as the posting code does where a reference is read by its name. -/
theorem readData_eq : ∀ (type : IdlType) (name : Name) (arraylevel : Nat),
    readData type name arraylevel = writeData .cpp type name name arraylevel
  | .named type, name, arraylevel => readData_eq type name arraylevel
  | .reference type, name, arraylevel => readData_eq type name arraylevel
  | .typedef type, name, arraylevel => readData_eq type name arraylevel
  | .const type, name, arraylevel => readData_eq type name arraylevel
  | .array type n, _, arraylevel =>
    congrArg (Copies.loop arraylevel n) (readData_eq type _ (arraylevel + 1))
  | .primitive _, _, _ => rfl
  | .pointer, _, _ => rfl
  | .structure _, _, _ => rfl
  | .enumeration, _, _ => rfl
  | .other, _, _ => rfl

end Event

def Copies.levels : Copies → List Nat
  | .copy leftname rightname => leftname.levels ++ rightname.levels
  | .loop arraylevel _ body => arraylevel :: body.levels

/-- Every assignment is one that a compiler accepts. -/
def Copies.Typed (left right : Nat → Shape) : Copies → Prop
  | .copy leftname rightname => ∃ s, leftname.shape left = some s ∧ s.Stored ∧
      (rightname.shape right).map Shape.unqualified = some s
  | .loop _ _ body => body.Typed left right

/-- The loop variables by their levels, and the values on the left. -/
structure Frame (V : Type*) where
  i : Nat → Int
  left : Location → V

/-- The loop variable is counted up by the loop alone. -/
def Copies.exec {V : Type*} (right : Location → V) : Copies → Frame V → Frame V
  | .copy leftname rightname, f =>
    { f with
      left := Function.update f.left (leftname.location f.i) (right (rightname.location f.i)) }
  | .loop arraylevel sizeInteger body, f =>
    let f := (List.range sizeInteger).foldl (fun (f : Frame V) (n : Nat) =>
      body.exec right { f with i := Function.update f.i arraylevel n }) f
    { f with i := Function.update f.i arraylevel sizeInteger }

namespace Event
variable {V : Type*}

/-- The arguments as the caller holds them, the data of the event and the local variables of the
reaction. -/
structure Memory (V : Type*) where
  caller : Location → V
  data : Location → V
  locals : Location → V

/-- The parameters from the `k`-th on, each with the copies emitted for it. -/
def eachParameter (emitted : IdlType → Nat → Copies) (right : Location → V) :
    List IdlType → Nat → Frame V → Frame V
  | [], _, f => f
  | type :: types, k, f =>
    eachParameter emitted right types (k + 1) ((emitted type k).exec right f)

def writeParameter (style : Style) (type : IdlType) (k : Nat) : Copies :=
  writeData style type (.parameter k) (.parameter k) 0

def readParameter (type : IdlType) (k : Nat) : Copies := readData type (.parameter k) 0

/-- The posting code. -/
def post (style : Style) (types : List IdlType) (m : Memory V) : Memory V :=
  { m with
    data := (eachParameter (writeParameter style) m.caller types 0 ⟨fun _ => 0, m.data⟩).left }

/-- The reaction code, up to the call. -/
def react (types : List IdlType) (m : Memory V) : Memory V :=
  { m with locals := (eachParameter readParameter m.data types 0 ⟨fun _ => 0, m.locals⟩).left }

/-- The values that a parameter holds: each element that is no array is one. -/
def leaves : IdlType → List Location
  | .named type => leaves type
  | .reference type => leaves type
  | .typedef type => leaves type
  | .array type sizeInteger =>
    (List.range sizeInteger).flatMap fun i : Nat => (leaves type).map (Step.element i :: ·)
  | .const type => leaves type
  | _ => [[]]

/-- The values of the parameters from the `k`-th on. -/
def parameterLeaves : List IdlType → Nat → List Location
  | [], _ => []
  | type :: types, k => (leaves type).map (Step.parameter k :: ·) ++ parameterLeaves types (k + 1)

/-- What the generator prints for the parameter goes through the compiler: the declarations, the
copies from one to the other, and the call. -/
structure Compiles (style : Style) (type : IdlType) : Prop where
  parameter : (declareParameter style type []).referred.Plain
  variable_ : (declareLocalVariable style type []).Plain
  read : (readParameter type 0).Typed (fun _ => declareLocalVariable style type [])
    (fun _ => declareLocalVariable style type [])
  write : (writeParameter style type 0).Typed (fun _ => declareLocalVariable style type [])
    (fun _ => declareParameter style type [])
  passed : (declareParameter style type []).referred =
    passLocalVariableAsParameter style type (declareLocalVariable style type [])

end Event

end Codinalte.Idl
