import Codinalte.Idl.Emit

/-! How the types of an interface are printed: as the parameter of a method, as a local variable or
a field of an event, as a member of a structure, and what a C compiler makes of it. -/

namespace Codinalte.Idl

/-- The type that a declaration gives to a name. A `record` is a structure, and whether it can be
assigned. -/
inductive Shape where
  | value
  | record (assignable : Bool)
  | const (s : Shape)
  | pointer (s : Shape)
  | reference (s : Shape)
  | array (sizeInteger : Nat) (s : Shape)

/-- A constant cannot be assigned, nor can what holds one. -/
def Shape.assignable : Shape → Bool
  | .value => true
  | .record assignable => assignable
  | .const _ => false
  | .pointer _ => true
  | .reference _ => false
  | .array _ s => s.assignable

/-- What `printType` prints: the name of a type, the text of a pointer type, or another text with a
`*` or a `&` after it. -/
inductive TypeText where
  | name (s : Shape)
  | address
  | star (t : TypeText)
  | amp (t : TypeText)

/-- `"const " + t`: it qualifies the name that the text begins with. -/
def TypeText.const : TypeText → TypeText
  | .name s => .name (.const s)
  | .address => .address
  | .star t => .star t.const
  | .amp t => .amp t.const

def TypeText.shape : TypeText → Shape
  | .name s => s
  | .address => .value
  | .star t => .pointer t.shape
  | .amp t => .reference t.shape

/-- The type of a name that is followed by these dimensions. -/
def Shape.dimensions (dims : List Nat) (s : Shape) : Shape := dims.foldr .array s

/-- The text of `printType`, and the type of the name that `printAsStructField` declares. -/
structure Printed where
  type : TypeText
  field : List Nat → Shape

def Printed.ofType (type : TypeText) : Printed := ⟨type, fun dims => type.shape.dimensions dims⟩

mutual

def printed (style : Style) : IdlType → Printed
  | .primitive _ => .ofType (.name .value)
  | .pointer => .ofType .address
  | .reference type =>
    match style with
    | .c => .ofType (.star (printed .c type).type)
    | .cpp => .ofType (.amp (printed .cpp type).type)
  | .structure members => .ofType (.name (.record (assignableMembers style members)))
  | .enumeration => .ofType (.name .value)
  -- the name that `typedef` with a field of this type declares
  | .typedef type => .ofType (.name ((printed style type).field []))
  | .array type sizeInteger =>
    ⟨.star (printed style type).type,
      fun dims => (printed style type).field (dims ++ [sizeInteger])⟩
  | .const type => .ofType (printed style type).type.const
  | .named type => .ofType (printed style type).type
  | .other => .ofType (.name .value)

def assignableMembers (style : Style) : Members → Bool
  | .nil => true
  | .cons _ type rest => ((printed style type).field []).assignable && assignableMembers style rest

end

def printType (style : Style) (type : IdlType) : TypeText := (printed style type).type

def printAsStructField (style : Style) (type : IdlType) (dims : List Nat) : Shape :=
  (printed style type).field dims

/-- The name comes with the dimensions of the arrays around. -/
def declareParameter (style : Style) : IdlType → List Nat → Shape
  | .array type sizeInteger, dims => declareParameter style type (dims ++ [sizeInteger])
  | type, dims => (printType style type).shape.dimensions dims

def declareLocalVariable (style : Style) : IdlType → List Nat → Shape
  | .array type sizeInteger, dims => declareLocalVariable style type (dims ++ [sizeInteger])
  | .reference type, dims => (printType style type).shape.dimensions dims
  | type, dims => (printType style type).shape.dimensions dims

/-- How a parameter is read. -/
def readParameter (style : Style) (type : IdlType) (name : Name) : Name :=
  match style, type with
  | .c, .reference _ => .deref name
  | _, _ => name

/-- The type of what is passed for a local variable of this type. -/
def passLocalVariableAsParameter (style : Style) (type : IdlType) (s : Shape) : Shape :=
  match style, type with
  | .c, .reference _ => .pointer s
  | _, _ => s

/-- What a reference stands for. -/
def Shape.referred : Shape → Shape
  | .reference s => s
  | s => s

def Shape.unqualified : Shape → Shape
  | .const s => s
  | s => s

/-- No reference, so that it needs no initial value and may lie in an array. -/
def Shape.Plain : Shape → Prop
  | .value => True
  | .record _ => True
  | .const s => s.Plain
  | .pointer s => s.Plain
  | .reference _ => False
  | .array _ s => s.Plain

/-- What an assignment stores to. -/
def Shape.Stored : Shape → Prop
  | .array _ _ => False
  | s => s.assignable = true

/-- An element of anything but an array is not in the object that was declared. -/
def Shape.element : Shape → Option Shape
  | .array _ s => some s
  | _ => none

def Shape.pointee : Shape → Option Shape
  | .pointer s => some s
  | _ => none

/-- The type of an expression. -/
def Name.shape (declared : Nat → Shape) : Name → Option Shape
  | .parameter k => some (declared k).referred
  | .deref name => (name.shape declared).bind Shape.pointee
  | .element name _ => (name.shape declared).bind Shape.element
  | .member _ _ => none

end Codinalte.Idl
