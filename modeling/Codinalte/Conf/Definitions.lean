import Codinalte.Graph.Component
import Mathlib.Algebra.Group.Int.Defs

/-! The definitions of components as they are parsed, and the values an attribute accepts. -/

namespace Codinalte.Conf
open Codinalte.Graph (Require Provide Bind)
open Codinalte.Idl (javaInt)

inductive Error where
  | adlSourceNotFound (compname : String)
  | wrongTemplateNumber (definitions : Nat) (fullyname : String) (declarations : Nat)
  | notCompatibleTemplate (position : Nat) (waitedType paramType : String) (extended : List String)
  | primitiveWithTemplate
  | wrongAttributeNumber (definitions : Nat) (fullyname : String) (declarations : Nat)
  | typeWithAttribute
  | extendsTwice (type : String)
  | loopInExtends (stack : List String)
  | compositeExtendsPrimitive
  | primitiveExtendsComposite
  | subcomponentInstantiateTwice (name owner : String)
  | loopInNetwork (callstack : List String)
  | priorityNotSupported (priority : String) (maxpriority : Int)
  | mpcSpecifiedInC
  | instantiateType
  | cInstantiateTwiceInCpp
  | assignUntypedAttribute
  | castNotStringToString (value : String)
  | castStringToNotString
  | castNotCharToChar
  | castCharToNotChar
  | castNegativeToUnsigned
  | integerTooBig (bound : Int) (ctype : String)
  | badInteger (value : String)
  | other (message : String)
deriving DecidableEq

/-- What ends a build without an instance. `unfinished` stands for a call that is too deep for the
number of nested calls that is allowed here. -/
inductive Failure where
  | compilerexception (error : Error)
  | nullPointerException
  | classCastException
  | stringIndexOutOfBoundsException
  | unfinished
deriving DecidableEq

inductive Kind where
  | type
  | primitive
  | composite
deriving DecidableEq

structure Definition where
  type : String
  templates : List String
  attributes : List String
deriving DecidableEq

structure Parameter where
  type : String
  name : String
deriving DecidableEq

/-- A property is an object with a value that can be set; `object` is its identity. -/
structure Property where
  name : String
  object : Nat
deriving DecidableEq

structure AstOption where
  target : Option String
  name : String
  value : String
deriving DecidableEq

structure Attribute where
  name : String
  ctype : Option String
  initvalue : Option String
deriving DecidableEq

structure Content where
  name : String
  typedefinition : Definition
  mpc : Option String
  priority : String
  order : Int
deriving DecidableEq

inductive SourceType where
  | cSource
  | cppSource
deriving DecidableEq

structure Asttype where
  fullyname : String
  kind : Kind
  singleton : Bool
  sourceType : SourceType
  extended : List Definition
  requires : List Require
  provides : List Provide
  properties : List Property
  options : List AstOption
  attributeparameters : List Parameter
  templateparameters : List Parameter
  attributes : List Attribute
  contents : List Content
  binds : List Bind
deriving DecidableEq

/-- The definitions that can be found: each is parsed once, and kept under its name. -/
abbrev Components := List Asttype

def Compile (components : Components) (compname : String) : Except Failure Asttype :=
  match components.find? fun type => type.fullyname = compname with
  | some type => .ok type
  | none => .error (.compilerexception (.adlSourceNotFound compname))

def javaLong (x : Int) : Int := x.bmod 18446744073709551616

/-- The digit a character stands for in a base. -/
def digit (radix : Nat) (c : Char) : Option Nat :=
  let value :=
    if '0' ≤ c ∧ c ≤ '9' then some (c.toNat - '0'.toNat)
    else if 'a' ≤ c ∧ c ≤ 'z' then some (c.toNat - 'a'.toNat + 10)
    else if 'A' ≤ c ∧ c ≤ 'Z' then some (c.toNat - 'A'.toNat + 10)
    else none
  value.filter (· < radix)

def parseDigits (radix : Nat) (digits : List Char) : Option Nat :=
  digits.foldl (fun n c => do return (← n) * radix + (← digit radix c)) (some 0)

/-- A number with a sign in front or without one; `none` is an exception for its format. -/
def parseLong (radix : Nat) (value : List Char) : Option Int := do
  let (sign, digits) : Int × List Char :=
    match value with
    | '-' :: digits => (-1, digits)
    | '+' :: digits => (1, digits)
    | digits => (1, digits)
  if digits = [] then none
  else
    let n ← parseDigits radix digits
    if javaLong (sign * n) = sign * n then some (sign * n) else none

/-- The number behind a name of a priority, or -1. -/
def getOrdinal (priority : String) : Int :=
  if priority = "background" then 0
  else if priority = "normal" then 1
  else if priority = "urgent" then 2
  else if priority = "io" then 6
  else
    match parseLong 10 priority.toList with
    | some n => if javaInt n = n then n else -1
    | none => -1

def stringToUnsigned : List Char → Option Int
  | '0' :: 'x' :: digits => parseLong 16 digits
  | '0' :: 'X' :: digits => parseLong 16 digits
  | ['0'] => some 0
  | '0' :: digits => parseLong 8 digits
  | c :: digits => if c.isDigit then parseLong 10 (c :: digits) else none
  | [] => none

/-- An exception for the format of the number becomes an error; one for an index that is out of the
string does not. -/
def StringToDecimal (value : String) : Except Failure Int :=
  let read (sign : Int) : List Char → Except Failure Int
    | [] => .error .stringIndexOutOfBoundsException
    | ['+'] => .error .stringIndexOutOfBoundsException
    | '+' :: digits => unsigned sign digits
    | digits => unsigned sign digits
  match value.toList with
  | '-' :: digits => read (-1) digits
  | digits => read 1 digits
where
  unsigned (sign : Int) (digits : List Char) : Except Failure Int :=
    match stringToUnsigned digits with
    | some n => .ok (javaLong (sign * n))
    | none => .error (.compilerexception (.badInteger value))

def startsWith (text start : String) : Bool := start.toList.isPrefixOf text.toList

def endsWith (text last : String) : Bool := last.toList.isSuffixOf text.toList

/-- The bits that are written behind the six characters of `t_uint` and of `t_sint`. -/
def parseInt (ctype value : String) : Except Failure Int :=
  match parseLong 10 (ctype.toList.drop 6) with
  | some n =>
    if javaInt n = n then .ok n else .error (.compilerexception (.badInteger value))
  | none => .error (.compilerexception (.badInteger value))

def shiftOne (integersize : Int) : Int := javaLong (2 ^ (integersize % 64).toNat)

def raise {α : Type} (x : Except Error α) : Except Failure α := x.mapError .compilerexception

def throwIf (condition : Bool) (error : Error) : Except Failure Unit :=
  if condition then .error (.compilerexception error) else .ok ()

def checkUnsigned (integersize : Except Failure Int) (ctype value : String) :
    Except Failure Unit := do
  throwIf (startsWith value "-") .castNegativeToUnsigned
  let integersize ← integersize
  let intvalue ← StringToDecimal value
  let most := javaLong (shiftOne integersize - 1)
  throwIf (intvalue > most) (.integerTooBig most ctype)

def checkSigned (ctype value : String) : Except Failure Unit := do
  let integersize ← parseInt ctype value
  let intvalue ← StringToDecimal value
  let most := javaLong (shiftOne (integersize - 1) - 1)
  let least := javaLong (-shiftOne (integersize - 1))
  throwIf (intvalue > most) (.integerTooBig most ctype)
  throwIf (intvalue < least) (.integerTooBig least ctype)

/-- Whether a value can be assigned to the type of an attribute. -/
def checkValue (sizeOfWord : Int) (ctype : Option String) (value : String) :
    Except Failure Unit :=
  match ctype with
  | none => .error (.compilerexception .assignUntypedAttribute)
  | some ctype => do
    throwIf (ctype = "char*" && !startsWith value "\"") (.castNotStringToString value)
    throwIf (ctype ≠ "char*" && startsWith value "\"") .castStringToNotString
    throwIf (ctype = "char" && !startsWith value "'") .castNotCharToChar
    throwIf (ctype ≠ "char" && startsWith value "'") .castCharToNotChar
    if endsWith ctype "*" && (startsWith ctype "t_uint" || startsWith ctype "t_sint") then
      checkUnsigned (.ok sizeOfWord) ctype value
    else if startsWith ctype "t_uint" then checkUnsigned (parseInt ctype value) ctype value
    else if startsWith ctype "t_sint" then checkSigned ctype value
    else .ok ()

example : checkValue 24 (some "t_uint8") "255" = .ok () := by decide

example :
    checkValue 24 (some "t_sint16") "0x8000" =
      .error (.compilerexception (.integerTooBig 32767 "t_sint16")) := by decide

end Codinalte.Conf
