import Mathlib.Data.Rat.Cast.Order
import Codinalte.Lib.OpenBounds

/-! The intervals of the hardware parameters of a PCM: whole bounds that may be open, on values that
need not be whole, with their refinement and the four operations of the rules. -/

namespace Codinalte.Alsa
open OpenBounds

def UINT_MAX : Nat := 4294967295

/-- What ends a refinement: the two errors, a failed `assert`, or an interval on the stack of
which nothing but `empty` was written. -/
inductive Stop where
  | enoent
  | einval
  | assertion
  | uninitialised
deriving DecidableEq

structure Interval where
  min : Nat
  max : Nat
  openmin : Bool
  openmax : Bool
  integer : Bool
  empty : Bool
deriving DecidableEq

def increment (n : Nat) : Nat := if n = UINT_MAX then 0 else n + 1

def decrement (n : Nat) : Nat := if n = 0 then UINT_MAX else n - 1

namespace Interval

def none (i : Interval) : Interval := { i with empty := true }

def checkempty (i : Interval) : Bool :=
  decide (i.max < i.min) || (decide (i.min = i.max) && (i.openmin || i.openmax))

def single (i : Interval) : Except Stop Bool :=
  if i.empty then .error .assertion
  else .ok (decide (i.min = i.max) || (decide (increment i.min = i.max) && i.openmax))

def test (i : Interval) (val : Nat) : Bool :=
  !(decide (val < i.min) || (decide (i.min = val) && i.openmin) ||
    decide (i.max < val) || (decide (i.max = val) && i.openmax))

/-- The lower bound of a refinement, and whether it is a change. -/
def raiseMin (i : Interval) (min : Nat) (openmin : Bool) : Interval × Bool :=
  if i.min < min then ({ i with min := min, openmin := openmin }, true)
  else if i.min = min ∧ ¬i.openmin ∧ openmin then ({ i with openmin := true }, true)
  else (i, false)

def lowerMax (i : Interval) (max : Nat) (openmax : Bool) : Interval × Bool :=
  if max < i.max then ({ i with max := max, openmax := openmax }, true)
  else if i.max = max ∧ ¬i.openmax ∧ openmax then ({ i with openmax := true }, true)
  else (i, false)

def closeMin (i : Interval) : Interval :=
  if i.openmin then { i with min := increment i.min, openmin := false } else i

def closeMax (i : Interval) : Interval :=
  if i.openmax then { i with max := decrement i.max, openmax := false } else i

def finish (i : Interval) (changed : Bool) : Interval × Except Stop Bool :=
  if i.checkempty then (i.none, .error .einval) else (i, .ok changed)

def refineMin (i : Interval) (min : Nat) (openmin : Bool) : Interval × Except Stop Bool :=
  if i.empty then (i, .error .enoent)
  else
    let r := i.raiseMin min openmin
    finish (if r.1.integer then r.1.closeMin else r.1) r.2

def refineMax (i : Interval) (max : Nat) (openmax : Bool) : Interval × Except Stop Bool :=
  if i.empty then (i, .error .enoent)
  else
    let r := i.lowerMax max openmax
    finish (if r.1.integer then r.1.closeMax else r.1) r.2

/-- The three parts of `v`, before the bounds are closed. -/
def narrow (i v : Interval) : Interval × Bool :=
  let r := i.raiseMin v.min v.openmin
  let q := r.1.lowerMax v.max v.openmax
  if ¬q.1.integer ∧ v.integer then ({ q.1 with integer := true }, true)
  else (q.1, r.2 || q.2)

/-- An integer has closed bounds, and a single value that is a bound is one. -/
def close (i : Interval) : Interval :=
  if i.integer then i.closeMin.closeMax
  else if ¬i.openmin ∧ ¬i.openmax ∧ i.min = i.max then { i with integer := true }
  else i

def refine (i v : Interval) : Interval × Except Stop Bool :=
  if i.empty then (i, .error .enoent)
  else (i.narrow v).1.close.finish (i.narrow v).2

end Interval

/-- `div_down`. -/
def divDown (a b : Nat) : Nat := if b = 0 then UINT_MAX else a / b

def mulSaturated (a b : Nat) : Nat :=
  if a = 0 then 0 else if divDown UINT_MAX a < b then UINT_MAX else a * b

/-- `div32`, with the remainder. -/
def div32 (a b : Nat) : Nat × Nat := if b = 0 then (UINT_MAX, 0) else (a / b, a % b)

/-- `muldiv32`, with the remainder; its product fits into 64 bits. -/
def muldiv32 (a b c : Nat) : Except Stop (Nat × Nat) :=
  if c = 0 then if 0 < a * b then .ok (UINT_MAX, 0) else .error .assertion
  else if UINT_MAX ≤ a * b / c then .ok (UINT_MAX, 0)
  else .ok (a * b / c, a * b % c)

namespace Interval

def mul (a b : Interval) : Except Stop Interval :=
  if a.empty || b.empty then .error .uninitialised
  else .ok {
    min := mulSaturated a.min b.min
    openmin := a.openmin || b.openmin
    max := mulSaturated a.max b.max
    openmax := a.openmax || b.openmax
    integer := a.integer && b.integer
    empty := false }

/-- An upper bound that was divided, with its remainder: `max`, then `openmax`. -/
def roundUp (r : Nat × Nat) (openmax : Bool) : Nat × Bool :=
  if r.2 ≠ 0 then (increment r.1, true) else (r.1, openmax)

def div (a b : Interval) : Except Stop Interval :=
  if a.empty || b.empty then .error .uninitialised
  else
    let low := div32 a.min b.max
    let high :=
      if 0 < b.min then roundUp (div32 a.max b.min) (a.openmax || b.openmin)
      else (UINT_MAX, false)
    .ok {
      min := low.1
      openmin := decide (low.2 ≠ 0) || (a.openmin || b.openmax)
      max := high.1
      openmax := high.2
      integer := false
      empty := false }

/-- `a * b / k` -/
def muldivk (a b : Interval) (k : Nat) : Except Stop Interval :=
  if a.empty || b.empty then .error .uninitialised
  else do
    let low ← muldiv32 a.min b.min k
    let high ← muldiv32 a.max b.max k
    let high := roundUp high (a.openmax || b.openmax)
    return {
      min := low.1
      openmin := decide (low.2 ≠ 0) || (a.openmin || b.openmin)
      max := high.1
      openmax := high.2
      integer := false
      empty := false }

/-- `a * k / b` -/
def mulkdiv (a : Interval) (k : Nat) (b : Interval) : Except Stop Interval :=
  let upper : Except Stop (Nat × Bool) :=
    if 0 < b.min then (muldiv32 a.max k b.min).map fun r => roundUp r (a.openmax || b.openmin)
    else .ok (UINT_MAX, false)
  if a.empty || b.empty then .error .uninitialised
  else do
    let low ← muldiv32 a.min k b.max
    let high ← upper
    return {
      min := low.1
      openmin := decide (low.2 ≠ 0) || (a.openmin || b.openmax)
      max := high.1
      openmax := high.2
      integer := false
      empty := false }

end Interval
end Codinalte.Alsa
