import Mathlib.Data.Int.Basic

/-! The types of an interface, and how the stubs and skeletons of a distributed interface count the
16-bit words of its methods. -/

namespace Codinalte.Idl

inductive CompilerError where
  | comsTooBigType
  | comsUnknownType
  | comsReturnValueNotHandled
deriving DecidableEq

/-- The widths of `t_uintN` and `t_sintN`. -/
inductive Width where
  | w8
  | w16
  | w24
  | w32
  | w40
  | w48
  | w56
  | w64
deriving DecidableEq

def Width.bits : Width → Nat
  | .w8 => 8
  | .w16 => 16
  | .w24 => 24
  | .w32 => 32
  | .w40 => 40
  | .w48 => 48
  | .w56 => 56
  | .w64 => 64

inductive TypePrimitive where
  | bool
  | char
  | uint (width : Width)
  | sint (width : Width)
  | uword
  | sword
  | physicalAddress
deriving DecidableEq

def TypePrimitive.packedsize : TypePrimitive → Nat
  | .bool => 1
  | .char => 8
  | .uint width => width.bits
  | .sint width => width.bits
  | .uword => 32
  | .sword => 32
  | .physicalAddress => 32

def TypePrimitive.signed : TypePrimitive → Bool
  | .sint _ => true
  | .sword => true
  | _ => false

mutual

/-- `named` is a name with its `typedefinition`; `other` stands for the types without a word of
their own, such as an interface or `void`. -/
inductive IdlType where
  | primitive (p : TypePrimitive)
  | pointer
  | reference (type : IdlType)
  | structure (members : Members)
  | enumeration
  | typedef (type : IdlType)
  | array (type : IdlType) (sizeInteger : Nat)
  | const (type : IdlType)
  | named (typedefinition : IdlType)
  | other

inductive Members where
  | nil
  | cons (name : String) (type : IdlType) (rest : Members)

end

/-- What an `int` of the compiler holds. -/
def javaInt (x : Int) : Int := x.bmod 4294967296

mutual

/-- The words of a type and the loop variables that the method needs. -/
def checkData : IdlType → Nat → Nat → Except CompilerError (Int × Nat)
  | .named type, needi, arrayindex => checkData type needi arrayindex
  | .primitive p, needi, _ =>
    if p.packedsize ≤ 16 then .ok (1, needi)
    else if p.packedsize ≤ 32 then .ok (2, needi)
    else .error .comsTooBigType
  | .pointer, needi, _ => .ok (2, needi)
  | .reference type, needi, arrayindex => checkData type needi arrayindex
  | .structure members, needi, arrayindex => checkMembers members needi arrayindex 0
  | .enumeration, needi, _ => .ok (2, needi)
  | .typedef type, needi, arrayindex => checkData type needi arrayindex
  | .array type sizeInteger, needi, arrayindex => do
    let (nb16, needi) ← checkData type (max needi (arrayindex + 1)) (arrayindex + 1)
    return (javaInt (nb16 * sizeInteger), needi)
  | .const type, needi, arrayindex => checkData type needi arrayindex
  | .other, _, _ => .error .comsUnknownType

def checkMembers : Members → Nat → Nat → Int → Except CompilerError (Int × Nat)
  | .nil, needi, _, nb16 => .ok (nb16, needi)
  | .cons _ type rest, needi, arrayindex, nb16 => do
    let (n, needi) ← checkData type needi arrayindex
    checkMembers rest needi arrayindex (javaInt (nb16 + n))

end

/-- A method: whether it returns `void`, and the types of its parameters. -/
structure Method where
  isVoid : Bool
  parameters : List IdlType

structure MethodData where
  methnb16 : Int
  needi : Nat
deriving DecidableEq

structure StubBase where
  methods : List MethodData
  maxnb16 : Int
deriving DecidableEq

def checkParameters : List IdlType → MethodData → Except CompilerError MethodData
  | [], data => .ok data
  | type :: types, data => do
    let (n, needi) ← checkData type data.needi 0
    checkParameters types ⟨javaInt (data.methnb16 + n), needi⟩

def checkMethod (md : Method) : Except CompilerError MethodData :=
  if md.isVoid then checkParameters md.parameters ⟨0, 0⟩ else .error .comsReturnValueNotHandled

def setItf : List Method → StubBase → Except CompilerError StubBase
  | [], base => .ok base
  | md :: methods, base => do
    let data ← checkMethod md
    setItf methods ⟨base.methods ++ [data],
      if data.methnb16 > base.maxnb16 then data.methnb16 else base.maxnb16⟩

end Codinalte.Idl
