import Codinalte.Idl.Types

/-! The statements that a stub emits to marshal the parameters of a method, and those that a
skeleton emits to read them back. -/

namespace Codinalte.Idl

/-- How the text names a value: a parameter by its place in the method, on either side. -/
inductive Name where
  | parameter (k : Nat)
  | deref (name : Name)
  | member (name : Name) (field : String)
  | element (name : Name) (arraylevel : Nat)

/-- A summand of an index: a literal or `___j`. -/
inductive Term where
  | literal (n : Int)
  | step (arraylevel : Nat)
deriving DecidableEq

abbrev Index := List Term

/-- The types of the casts. -/
inductive CType where
  | primitive (p : TypePrimitive)
  | enumeration
  | pointer
deriving DecidableEq

def CType.uint16 : CType := .primitive (.uint .w16)

/-- What is stored in a word: `(t_uint16)name`, `(t_uint16)(name >> n)`, and the two halves of
`(unsigned int)name`. -/
inductive Stored where
  | low (name : Name)
  | shifted (name : Name) (n : Nat)
  | lowUnsigned (name : Name)
  | highUnsigned (name : Name)

/-- What a value is read from: as many words joined by `|`, one word, one word under a mask, two
words by `ext16to32`, or nothing at all. -/
inductive Loaded where
  | joined (typein typeout : CType) (words : Nat) (nb16 : Index)
  | plain (typeout : CType) (nb16 : Index)
  | masked (typeout : CType) (bits : Nat) (nb16 : Index)
  | ext16to32 (typein typeout : CType) (nb16 : Index)
  | empty

/-- `loop` is `for(___i = ___j = 0; ___i < sizeInteger; ___i++) { body ___j += elemcomputed; }`. -/
inductive Code where
  | skip
  | store (nb16 : Index) (value : Stored)
  | assign (name : Name) (value : Loaded)
  | seq (first second : Code)
  | loop (arraylevel sizeInteger : Nat) (body : Code) (elemcomputed : Int)

inductive Style where
  | c
  | cpp
deriving DecidableEq

/-- Which `create32` a skeleton has: that of `stubserver` or that of `MMDSPSkeletonGenerator`. -/
inductive Skeleton where
  | stubserver
  | mmdsp
deriving DecidableEq

def Index.plus (nb16 : Index) (n : Int) : Index := nb16 ++ [.literal n]

/-- The two words of an enumeration or a pointer. -/
def writeUnsigned (name : Name) (nb16 : Index) : Code :=
  .seq (.store nb16 (.lowUnsigned name)) (.store (nb16.plus 1) (.highUnsigned name))

def writePrimitive (p : TypePrimitive) (name : Name) (nb16 : Index) : Code × Int :=
  let one := (Code.store nb16 (.low name), (1 : Int))
  let two := if p.packedsize > 16 then
    (Code.seq one.1 (.store (nb16.plus 1) (.shifted name 16)), one.2 + 1) else one
  let three := if p.packedsize > 32 then
    (Code.seq two.1 (.store (nb16.plus 2) (.shifted name 32)), two.2 + 1) else two
  if p.packedsize > 48 then
    (Code.seq three.1 (.store (nb16.plus 3) (.shifted name 48)), three.2 + 1) else three

mutual

/-- The emitted text and the words it fills. -/
def writeData (style : Style) : IdlType → Name → Index → Nat → Code × Int
  | .named type, name, nb16, arraylevel => writeData style type name nb16 arraylevel
  | .primitive p, name, nb16, _ => writePrimitive p name nb16
  | .pointer, name, nb16, _ => (writeUnsigned name nb16, 2)
  | .reference type, name, nb16, arraylevel =>
    match style with
    | .c => writeData style type (.deref name) nb16 arraylevel
    | .cpp => writeData style type name nb16 arraylevel
  | .array type sizeInteger, name, nb16, arraylevel =>
    let r := writeData style type (.element name arraylevel) (nb16 ++ [.step arraylevel])
      (arraylevel + 1)
    (.loop arraylevel sizeInteger r.1 r.2, javaInt (r.2 * sizeInteger))
  | .typedef type, name, nb16, arraylevel => writeData style type name nb16 arraylevel
  | .structure members, name, nb16, arraylevel =>
    writeMembers style members name nb16 arraylevel 0
  | .enumeration, name, nb16, _ => (writeUnsigned name nb16, 2)
  | .const type, name, nb16, arraylevel => writeData style type name nb16 arraylevel
  | .other, _, _, _ => (.skip, 0)

def writeMembers (style : Style) : Members → Name → Index → Nat → Int → Code × Int
  | .nil, _, _, _, computed => (.skip, computed)
  | .cons field type rest, name, nb16, arraylevel, computed =>
    let r := writeData style type (.member name field) (nb16.plus computed) arraylevel
    let rs := writeMembers style rest name nb16 arraylevel (javaInt (computed + r.2))
    (.seq r.1 rs.1, rs.2)

end

/-- The text of `create32` and the words it reads. -/
def create32 (skeleton : Skeleton) (typein typeout : CType) (packedsize : Nat) (signed : Bool)
    (nb16 : Index) : Loaded × Int :=
  match skeleton with
  | .stubserver =>
    let computed := 1 + (if packedsize > 16 then 1 else 0) + (if packedsize > 32 then 1 else 0) +
      if packedsize > 48 then 1 else 0
    (.joined typein typeout computed nb16, computed)
  | .mmdsp =>
    if packedsize ≤ 8 then
      if signed then (.plain typeout nb16, 1) else (.masked typeout 8 nb16, 1)
    else if packedsize ≤ 16 then
      if signed then (.plain typeout nb16, 1) else (.masked typeout 16 nb16, 1)
    else if packedsize ≤ 32 then (.ext16to32 typein typeout nb16, 2)
    else (.empty, 0)

def readValue (skeleton : Skeleton) (typein typeout : CType) (packedsize : Nat) (signed : Bool)
    (name : Name) (nb16 : Index) : Code × Int :=
  let r := create32 skeleton typein typeout packedsize signed nb16
  (.assign name r.1, r.2)

mutual

def readData (skeleton : Skeleton) : IdlType → Name → Index → Nat → Code × Int
  | .named type, name, nb16, arraylevel => readData skeleton type name nb16 arraylevel
  | .primitive p, name, nb16, _ =>
    readValue skeleton (.primitive p) (.primitive p) p.packedsize p.signed name nb16
  | .pointer, name, nb16, _ => readValue skeleton .uint16 .pointer 32 false name nb16
  | .reference type, name, nb16, arraylevel => readData skeleton type name nb16 arraylevel
  | .array type sizeInteger, name, nb16, arraylevel =>
    let r := readData skeleton type (.element name arraylevel) (nb16 ++ [.step arraylevel])
      (arraylevel + 1)
    (.loop arraylevel sizeInteger r.1 r.2, javaInt (r.2 * sizeInteger))
  -- a typedef of an enumeration is read under the name of the typedef
  | .typedef .enumeration, name, nb16, _ =>
    readValue skeleton .uint16 .enumeration 32 false name nb16
  | .typedef type, name, nb16, arraylevel => readData skeleton type name nb16 arraylevel
  | .structure members, name, nb16, arraylevel =>
    readMembers skeleton members name nb16 arraylevel 0
  | .enumeration, name, nb16, _ => readValue skeleton .uint16 .enumeration 32 false name nb16
  | .const type, name, nb16, arraylevel => readData skeleton type name nb16 arraylevel
  | .other, _, _, _ => (.skip, 0)

def readMembers (skeleton : Skeleton) : Members → Name → Index → Nat → Int → Code × Int
  | .nil, _, _, _, computed => (.skip, computed)
  | .cons field type rest, name, nb16, arraylevel, computed =>
    let r := readData skeleton type (.member name field) (nb16.plus computed) arraylevel
    let rs := readMembers skeleton rest name nb16 arraylevel (javaInt (computed + r.2))
    (.seq r.1 rs.1, rs.2)

end

/-- A stub marshals the parameters from the `k`-th on, from the word `nb16` on. -/
def writeParameters (style : Style) : List IdlType → Nat → Int → Code × Int
  | [], _, nb16 => (.skip, nb16)
  | type :: types, k, nb16 =>
    let r := writeData style type (.parameter k) [.literal nb16] 0
    let rs := writeParameters style types (k + 1) (javaInt (nb16 + r.2))
    (.seq r.1 rs.1, rs.2)

def readParameters (skeleton : Skeleton) : List IdlType → Nat → Int → Code × Int
  | [], _, nb16 => (.skip, nb16)
  | type :: types, k, nb16 =>
    let r := readData skeleton type (.parameter k) [.literal nb16] 0
    let rs := readParameters skeleton types (k + 1) (javaInt (nb16 + r.2))
    (.seq r.1 rs.1, rs.2)

end Codinalte.Idl
