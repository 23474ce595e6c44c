import Codinalte.Lib.Machine
import Codinalte.Alsa.HwParams

/-! What an application asks of the parameters of a PCM, one request after the other, each of them
followed by a refinement and taken back where that fails. -/

namespace Codinalte.Alsa

/-- `val` and `openmin` of a lower bound. -/
def minBound (val : Nat) (dir : Int) : Nat × Bool :=
  if 0 < dir then (val, true)
  else if dir < 0 ∧ 0 < val then (val - 1, true)
  else (val, false)

/-- `val` and `openmax` of an upper bound. -/
def maxBound (val : Nat) (dir : Int) : Nat × Bool :=
  if dir < 0 then (val, true)
  else if 0 < dir then (increment val, true)
  else (val, false)

namespace Mask

def any : Mask := BitVec.allOnes 64

/-- One bit is set, where there is one at all. -/
def single (mask : Mask) : Bool := decide (mask &&& (mask - 1) = 0)

def leave (mask : Mask) (val : Nat) : Mask := if mask.test val then 1#64 <<< val else 0

def refineSet (mask : Mask) (val : Nat) : Mask × Except Stop Bool :=
  if mask.empty then (mask, .error .enoent)
  else if 64 < val then (mask, .error .assertion)
  else if (mask.leave val).empty then (mask.leave val, .error .einval)
  else (mask.leave val, .ok !mask.single)

/-- The part of `_snd_pcm_hw_param_set` on masks. -/
def set (mask : Mask) (val : Nat) (dir : Int) : Mask × Except Stop Bool :=
  if val = 0 ∧ dir < 0 then (0, .error .einval)
  else mask.refineSet (if 0 < dir then increment val else if dir < 0 then val - 1 else val)

end Mask

namespace Interval

def any : Interval := ⟨0, UINT_MAX, false, false, false, false⟩

def refineMinmax (i : Interval) (min max : Nat × Bool) : Interval × Except Stop Bool :=
  match i.refineMin min.1 min.2 with
  | (i, .error e) => (i, .error e)
  | (i, .ok c) =>
    match i.refineMax max.1 max.2 with
    | (i, .error e) => (i, .error e)
    | (i, .ok c') => (i, .ok (c || c'))

def refineSet (i : Interval) (val : Nat) : Interval × Except Stop Bool :=
  i.refine ⟨val, val, false, false, true, false⟩

/-- The part of `_snd_pcm_hw_param_set` on intervals. -/
def set (i : Interval) (val : Nat) (dir : Int) : Interval × Except Stop Bool :=
  if val = 0 ∧ dir < 0 then (i.none, .error .einval)
  else if dir = 0 then i.refineSet val
  else if dir < 0 then i.refine ⟨val - 1, val, true, true, false, false⟩
  else i.refine ⟨val, increment val, true, true, false, false⟩

def setinteger (i : Interval) : Interval × Except Stop Bool :=
  if i.integer then (i, .ok false)
  else if i.openmin ∧ i.openmax ∧ i.min = i.max then (i, .error .einval)
  else ({ i with integer := true }, .ok true)

end Interval

inductive Request where
  | setMin (var : IntervalParam) (val : Nat) (dir : Int)
  | setMax (var : IntervalParam) (val : Nat) (dir : Int)
  | setMinmax (var : IntervalParam) (min : Nat) (mindir : Int) (max : Nat) (maxdir : Int)
  | setInterval (var : IntervalParam) (val : Nat) (dir : Int)
  | setInteger (var : IntervalParam)
  | setChoice (var : MaskParam) (val : Nat) (dir : Int)
  | setMask (var : MaskParam) (val : Mask)
deriving DecidableEq

namespace HwParams

/-- `_snd_pcm_hw_params_any` -/
def any : HwParams where
  masks _ := Mask.any
  intervals _ := Interval.any
  rmask _ := true
  cmask _ := false
  msbits := 0
  rateNum := 0
  rateDen := 0

/-- What has changed is to be refined. -/
def demand (p : HwParams) (var : HwParam) (changed : Except Stop Bool) : HwParams :=
  match changed with
  | .ok false => p
  | _ => { p with
      cmask := Function.update p.cmask var true
      rmask := Function.update p.rmask var true }

def changeInterval (p : HwParams) (var : IntervalParam) (r : Interval × Except Stop Bool) :
    HwParams × Except Stop Bool :=
  ((p.setInterval var r.1).demand (.interval var) r.2, r.2)

def changeMask (p : HwParams) (var : MaskParam) (r : Mask × Except Stop Bool) :
    HwParams × Except Stop Bool :=
  ((p.setMask var r.1).demand (.mask var) r.2, r.2)

/-- The functions `_snd_pcm_hw_param_set_min` and so on. -/
def change (p : HwParams) : Request → HwParams × Except Stop Bool
  | .setMin var val dir =>
    p.changeInterval var ((p.intervals var).refineMin (minBound val dir).1 (minBound val dir).2)
  | .setMax var val dir =>
    p.changeInterval var ((p.intervals var).refineMax (maxBound val dir).1 (maxBound val dir).2)
  | .setMinmax var min mindir max maxdir =>
    p.changeInterval var
      ((p.intervals var).refineMinmax (minBound min mindir) (maxBound max maxdir))
  | .setInterval var val dir => p.changeInterval var ((p.intervals var).set val dir)
  | .setInteger var => p.changeInterval var (p.intervals var).setinteger
  | .setChoice var val dir => p.changeMask var ((p.masks var).set val dir)
  | .setMask var val => p.changeMask var ((p.masks var).refine val)

def marked (p : HwParams) : Bool := tableParams.any p.rmask

/-- Whether an interval is empty after all. -/
def isEmpty (p : HwParams) : Request → Bool
  | .setMin var _ _ | .setMax var _ _ => (p.intervals var).empty
  | _ => false

/-- `snd_pcm_hw_param_set_min` and so on with `SND_TRY`: with an error the parameters are those of
before. `refine` is `hw_refine` of the PCM. -/
def request (refine : HwParams → Option (Except (Stop × HwParams) HwParams)) (p : HwParams)
    (r : Request) : Option (Except Stop HwParams) :=
  match p.change r with
  | (_, .error e) => some (.error e)
  | (q, .ok _) =>
    if q.marked then
      match refine q with
      | none => none
      | some (.error (e, _)) => some (.error e)
      | some (.ok q) => some (if q.isEmpty r then .error .enoent else .ok q)
    else some (.ok q)

end HwParams

/-- The parameters, and the requests that were accepted. -/
structure Session where
  params : HwParams
  accepted : List Request

namespace Session

/-- A session ends with a failed assertion, or in a loop that does not. -/
def ask (fuel : Nat) (s : Session) (r : Request) : Option Session :=
  match s.params.request (HwParams.refineSoft fuel) r with
  | some (.ok p) => some ⟨p, s.accepted ++ [r]⟩
  | some (.error .enoent) | some (.error .einval) => some s
  | _ => none

/-- `snd_pcm_hw_params_any` of a PCM that is refined in software, and the requests on it. -/
def run (fuel : Nat) (rs : List Request) : Option Session :=
  match HwParams.any.refineSoft fuel with
  | some (.ok p) => Machine.run (ask fuel) ⟨p, []⟩ rs
  | _ => none

end Session
end Codinalte.Alsa
