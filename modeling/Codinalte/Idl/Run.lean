import Codinalte.Idl.Emit
import Mathlib.Algebra.Ring.Int.Defs
import Mathlib.Algebra.Ring.Nat

/-! What the emitted statements do on the host and on the MMDSP. An `int` that overflows is no
run. -/

namespace Codinalte.Idl

inductive Processor where
  | host
  | mmdsp
deriving DecidableEq

def Processor.intBits : Processor → Nat
  | .host => 32
  | .mmdsp => 24

/-- The bits of the C type behind a name of `typedef.h`. -/
def CType.bits : Processor → CType → Nat
  | _, .primitive .bool => 8
  | _, .primitive .char => 8
  | .host, .primitive (.uint .w24) => 32
  | .host, .primitive (.sint .w24) => 32
  | _, .primitive (.uint width) => width.bits
  | _, .primitive (.sint width) => width.bits
  | p, .primitive .uword => p.intBits
  | p, .primitive .sword => p.intBits
  | _, .primitive .physicalAddress => 32
  | p, .enumeration => p.intBits
  | p, .pointer => p.intBits

def CType.signed : CType → Bool
  | .primitive p => p.signed
  | .enumeration => true
  | .pointer => false

/-- The value of a type with these bits that is equal modulo the power of two. -/
def wrap (signed : Bool) (bits : Nat) (x : Int) : Int :=
  if signed then (x + 2 ^ (bits - 1)) % 2 ^ bits - 2 ^ (bits - 1) else x % 2 ^ bits

def CType.convert (processor : Processor) (type : CType) (x : Int) : Int :=
  wrap type.signed (type.bits processor) x

/-- The type holds the value on this processor. -/
def CType.Holds (processor : Processor) (type : CType) (x : Int) : Prop :=
  type.convert processor x = x

inductive Step where
  | parameter (k : Nat)
  | member (field : String)
  | element (i : Int)
deriving DecidableEq

/-- What a name of the text denotes: the way to it from the parameters. -/
abbrev Location := List Step

/-- A reference denotes what it refers to. -/
def Name.location (i : Nat → Int) : Name → Location
  | .parameter k => [.parameter k]
  | .deref name => name.location i
  | .member name field => name.location i ++ [.member field]
  | .element name arraylevel => name.location i ++ [.element (i arraylevel)]

/-- `i` and `j` are the loop variables by their levels, `data` the words, and `touched` records the
indexes of the words that were stored or loaded. -/
structure State where
  i : Nat → Int
  j : Nat → Int
  data : Int → Int
  values : Location → Int
  touched : List Int

def checked (processor : Processor) (x : Int) : Option Int :=
  if -2 ^ (processor.intBits - 1) ≤ x ∧ x < 2 ^ (processor.intBits - 1) then some x else none

def Term.value (j : Nat → Int) : Term → Int
  | .literal n => n
  | .step arraylevel => j arraylevel

def Index.eval (processor : Processor) (j : Nat → Int) (nb16 : Index) : Option Int :=
  nb16.foldlM (fun sum term => checked processor (sum + term.value j)) 0

/-- A shared word is loaded sign extended by the MMDSP. -/
def load (processor : Processor) (data : Int → Int) (k : Int) : Int :=
  match processor with
  | .host => data k
  | .mmdsp => wrap true 16 (data k)

def Stored.name : Stored → Name
  | .low name => name
  | .shifted name _ => name
  | .lowUnsigned name => name
  | .highUnsigned name => name

/-- The 16-bit word, from the value of the name. -/
def Stored.word (processor : Processor) (x : Int) : Stored → Int
  | .low _ => x % 65536
  | .shifted _ n => x / 2 ^ n % 65536
  | .lowUnsigned _ => x % 2 ^ processor.intBits % 65536
  | .highUnsigned _ => x % 2 ^ processor.intBits / 65536 % 65536

/-- The words of `(typein)word | ((typein)word << 16) | ...`, as the bits of its type. -/
def join (bits : Nat) : List Int → Nat
  | [] => 0
  | word :: words => (word % 2 ^ bits).toNat ||| join bits words <<< 16 % 2 ^ bits

/-- `ext16to32(h, l)`. -/
def ext16to32 (h l : Int) : Int := h % 65536 * 65536 + l % 65536

/-- The indexes in the text of as many words. -/
def Index.joined (nb16 : Index) : Nat → List Index
  | 0 => []
  | words + 1 => nb16 :: (List.range words).map fun n : Nat => nb16.plus (n + 1)

/-- The value that is read, and the indexes of its words. -/
def Loaded.eval (processor : Processor) (s : State) : Loaded → Option (Int × List Int)
  | .joined typein typeout words nb16 => do
    let ks ← (nb16.joined words).mapM (Index.eval processor s.j)
    -- what is narrower than an `int` is an `int` from here on
    let bits := max processor.intBits (typein.bits processor)
    let x := join bits (ks.map fun k => typein.convert processor (load processor s.data k))
    return (typeout.convert processor x, ks)
  | .plain typeout nb16 => do
    let k ← nb16.eval processor s.j
    return (typeout.convert processor (load processor s.data k), [k])
  | .masked typeout bits nb16 => do
    let k ← nb16.eval processor s.j
    return (typeout.convert processor (load processor s.data k % 2 ^ bits), [k])
  | .ext16to32 typein typeout nb16 => do
    let k' ← (nb16.plus 1).eval processor s.j
    let k ← nb16.eval processor s.j
    let h := typein.convert processor (load processor s.data k')
    let l := typein.convert processor (load processor s.data k)
    return (typeout.convert processor (Idl.ext16to32 h l), [k', k])
  | .empty => none

/-- The rounds of a `for`, as many as there is fuel for. -/
def rounds (processor : Processor) (arraylevel sizeInteger : Nat) (elemcomputed : Int)
    (body : State → Option State) : Nat → State → Option State
  | 0, _ => none
  | fuel + 1, s =>
    if s.i arraylevel < sizeInteger then do
      let s ← body s
      let j ← checked processor (s.j arraylevel + elemcomputed)
      let i ← checked processor (s.i arraylevel + 1)
      rounds processor arraylevel sizeInteger elemcomputed body fuel
        { s with i := Function.update s.i arraylevel i, j := Function.update s.j arraylevel j }
    else some s

def exec (processor : Processor) : Code → State → Option State
  | .skip, s => some s
  | .store nb16 value, s => do
    let k ← nb16.eval processor s.j
    let x := s.values (value.name.location s.i)
    return { s with
      data := Function.update s.data k (value.word processor x), touched := s.touched ++ [k] }
  | .assign name value, s => do
    let (x, ks) ← value.eval processor s
    return { s with
      values := Function.update s.values (name.location s.i) x, touched := s.touched ++ ks }
  | .seq first second, s => (exec processor first s).bind (exec processor second)
  | .loop arraylevel sizeInteger body elemcomputed, s =>
    rounds processor arraylevel sizeInteger elemcomputed (exec processor body) (sizeInteger + 1)
      { s with i := Function.update s.i arraylevel 0, j := Function.update s.j arraylevel 0 }

end Codinalte.Idl
