import Codinalte.Lib.StampedRules
import Codinalte.Alsa.Interval

/-! The hardware parameters of a PCM and their refinement in software: twenty rules between masks
and intervals, run until none of them has anything to do. -/

namespace Codinalte.Alsa

inductive MaskParam where
  | access
  | format
  | subformat
deriving DecidableEq

inductive IntervalParam where
  | sampleBits
  | frameBits
  | channels
  | rate
  | periodTime
  | periodSize
  | periodBytes
  | periods
  | bufferTime
  | bufferSize
  | bufferBytes
  | tickTime
deriving DecidableEq

inductive HwParam where
  | mask (param : MaskParam)
  | interval (param : IntervalParam)
deriving DecidableEq

/-- The 64 bits of a mask that the functions on masks look at. -/
abbrev Mask := BitVec 64

namespace Mask

def empty (mask : Mask) : Bool := decide (mask = 0)

def test (mask : Mask) (val : Nat) : Bool := mask.getLsbD val

def reset (mask : Mask) (val : Nat) : Mask := mask &&& ~~~(1#64 <<< val)

def refine (mask v : Mask) : Mask × Except Stop Bool :=
  if mask.empty then (mask, .error .enoent)
  else if (mask &&& v).empty then (mask &&& v, .error .einval)
  else (mask &&& v, .ok (decide (mask &&& v ≠ mask)))

end Mask

def formatLast : Nat := 43

/-- `snd_pcm_format_physical_width`; `none` is an error. -/
def physicalWidth (format : Nat) : Option Nat :=
  if format ≤ 1 then some 8
  else if format ≤ 5 then some 16
  -- S24 in four bytes, S32 and FLOAT
  else if format ≤ 15 then some 32
  else if format ≤ 17 then some 64
  else if format ≤ 19 then some 32
  -- MU_LAW and A_LAW, then IMA_ADPCM
  else if format ≤ 21 then some 8
  else if format = 22 then some 4
  -- the formats of 24, 20 and 18 bits in three bytes
  else if 32 ≤ format ∧ format ≤ formatLast then some 24
  else none

/-- The fields of `snd_pcm_hw_params_t` that refinement reads and writes; `rmask` and `cmask` are
sets of parameters. -/
structure HwParams where
  masks : MaskParam → Mask
  intervals : IntervalParam → Interval
  rmask : HwParam → Bool
  cmask : HwParam → Bool
  msbits : Nat
  rateNum : Nat
  rateDen : Nat

namespace HwParams

def setMask (p : HwParams) (param : MaskParam) (mask : Mask) : HwParams :=
  { p with masks := Function.update p.masks param mask }

def setInterval (p : HwParams) (param : IntervalParam) (i : Interval) : HwParams :=
  { p with intervals := Function.update p.intervals param i }

/-- `cmask` is marked where there was a change or an error. -/
def mark (p : HwParams) (var : HwParam) (changed : Except Stop Bool) : HwParams :=
  match changed with
  | .ok false => p
  | _ => { p with cmask := Function.update p.cmask var true }

/-- The refinement of a parameter with what an operation has made. -/
def refineWith (p : HwParams) (var : IntervalParam) (t : Except Stop Interval) :
    HwParams × Except Stop Bool :=
  match t with
  | .error e => (p, .error e)
  | .ok t => (p.setInterval var ((p.intervals var).refine t).1, ((p.intervals var).refine t).2)

def ruleMul (p : HwParams) (var dep dep' : IntervalParam) : HwParams × Except Stop Bool :=
  p.refineWith var (Interval.mul (p.intervals dep) (p.intervals dep'))

def ruleDiv (p : HwParams) (var dep dep' : IntervalParam) : HwParams × Except Stop Bool :=
  p.refineWith var (Interval.div (p.intervals dep) (p.intervals dep'))

def ruleMuldivk (p : HwParams) (var dep dep' : IntervalParam) (k : Nat) :
    HwParams × Except Stop Bool :=
  p.refineWith var (Interval.muldivk (p.intervals dep) (p.intervals dep') k)

def ruleMulkdiv (p : HwParams) (var dep dep' : IntervalParam) (k : Nat) :
    HwParams × Except Stop Bool :=
  p.refineWith var (Interval.mulkdiv (p.intervals dep) k (p.intervals dep'))

/-- The loop of `snd_pcm_hw_rule_format` over the formats `k`. -/
def dropFormats (i : Interval) : List Nat → Mask → Bool → Mask × Except Stop Bool
  | [], mask, changed => (mask, .ok changed)
  | k :: ks, mask, changed =>
    if mask.test k then
      match physicalWidth k with
      | none => dropFormats i ks mask changed
      | some bits =>
        if i.test bits then dropFormats i ks mask changed
        else if (mask.reset k).empty then (mask.reset k, .error .einval)
        else dropFormats i ks (mask.reset k) true
    else dropFormats i ks mask changed

def formats : List Nat := List.range (formatLast + 1)

def ruleFormat (p : HwParams) : HwParams × Except Stop Bool :=
  let r := dropFormats (p.intervals .sampleBits) formats (p.masks .format) false
  (p.setMask .format r.1, r.2)

/-- The loop of `snd_pcm_hw_rule_sample_bits`: `min` and `max`. -/
def widths (mask : Mask) : List Nat → Nat × Nat → Nat × Nat
  | [], r => r
  | k :: ks, r =>
    if mask.test k then
      match physicalWidth k with
      | none => widths mask ks r
      | some bits =>
        widths mask ks (if bits < r.1 then bits else r.1, if r.2 < bits then bits else r.2)
    else widths mask ks r

def ruleSampleBits (p : HwParams) : HwParams × Except Stop Bool :=
  let range := widths (p.masks .format) formats (UINT_MAX, 0)
  match (p.intervals .sampleBits).refineMin range.1 false with
  | (i, .error e) => (p.setInterval .sampleBits i, .error e)
  | (i, .ok c) =>
    match i.refineMax range.2 false with
    | (i, .error e) => (p.setInterval .sampleBits i, .error e)
    | (i, .ok c') => (p.setInterval .sampleBits i, .ok (c || c'))

end HwParams

/-- `func` and `private_data` of a rule between intervals. -/
inductive RuleFunc where
  | mul
  | div
  | muldivk (k : Nat)
  | mulkdiv (k : Nat)
deriving DecidableEq

inductive HwRule where
  | interval (var : IntervalParam) (func : RuleFunc) (dep dep' : IntervalParam)
  | format
  | sampleBits
deriving DecidableEq

namespace HwRule

def var : HwRule → HwParam
  | .interval var _ _ _ => .interval var
  | .format => .mask .format
  | .sampleBits => .interval .sampleBits

def deps : HwRule → List HwParam
  | .interval _ _ dep dep' => [.interval dep, .interval dep']
  | .format => [.interval .sampleBits]
  | .sampleBits => [.mask .format, .interval .sampleBits]

def func (p : HwParams) : HwRule → HwParams × Except Stop Bool
  | .interval var .mul dep dep' => p.ruleMul var dep dep'
  | .interval var .div dep dep' => p.ruleDiv var dep dep'
  | .interval var (.muldivk k) dep dep' => p.ruleMuldivk var dep dep' k
  | .interval var (.mulkdiv k) dep dep' => p.ruleMulkdiv var dep dep' k
  | .format => p.ruleFormat
  | .sampleBits => p.ruleSampleBits

/-- The rule, and the mark of what it has changed. -/
def run (r : HwRule) (p : HwParams) : HwParams × Except Stop Bool :=
  ((r.func p).1.mark r.var (r.func p).2, (r.func p).2)

end HwRule

def refineRules : List HwRule := [
  .format,
  .sampleBits,
  .interval .sampleBits .div .frameBits .channels,
  .interval .frameBits .mul .sampleBits .channels,
  .interval .frameBits (.mulkdiv 8) .periodBytes .periodSize,
  .interval .frameBits (.mulkdiv 8) .bufferBytes .bufferSize,
  .interval .channels .div .frameBits .sampleBits,
  .interval .rate (.mulkdiv 1000000) .periodSize .periodTime,
  .interval .rate (.mulkdiv 1000000) .bufferSize .bufferTime,
  .interval .periods .div .bufferSize .periodSize,
  .interval .periodSize .div .bufferSize .periods,
  .interval .periodSize (.mulkdiv 8) .periodBytes .frameBits,
  .interval .periodSize (.muldivk 1000000) .periodTime .rate,
  .interval .bufferSize .mul .periodSize .periods,
  .interval .bufferSize (.mulkdiv 8) .bufferBytes .frameBits,
  .interval .bufferSize (.muldivk 1000000) .bufferTime .rate,
  .interval .periodBytes (.muldivk 8) .periodSize .frameBits,
  .interval .bufferBytes (.muldivk 8) .bufferSize .frameBits,
  .interval .periodTime (.mulkdiv 1000000) .periodSize .rate,
  .interval .bufferTime (.mulkdiv 1000000) .bufferSize .rate]

def refineMasks : MaskParam → Mask
  | .access => 0x1f
  | .format => 0xfff81ffffff
  | .subformat => 0x1

def refineIntervals : IntervalParam → Interval
  | .sampleBits | .frameBits | .channels | .bufferSize | .bufferBytes =>
    ⟨1, UINT_MAX, false, false, true, false⟩
  | .rate | .bufferTime => ⟨1, UINT_MAX, false, false, false, false⟩
  | .periodTime | .periodSize | .periodBytes | .periods | .tickTime =>
    ⟨0, UINT_MAX, false, false, false, false⟩

def maskParams : List MaskParam := [.access, .format, .subformat]

def intervalParams : List IntervalParam := [
  .sampleBits, .frameBits, .channels, .rate, .periodTime, .periodSize, .periodBytes, .periods,
  .bufferTime, .bufferSize, .bufferBytes, .tickTime]

/-- The rules with the stamps of `snd_pcm_hw_refine_soft`, which are words. -/
def hwRules : StampedRules.Rules HwParams HwParam { r // r ∈ refineRules } Stop where
  order := refineRules.attach
  var r := r.1.var
  deps r := r.1.deps
  run r p := r.1.run p

abbrev HwLoop := StampedRules.Loop HwParams HwParam { r // r ∈ refineRules }

def stampModulus : Nat := 4294967296

namespace HwParams

/-- The parameters of `rmask` are refined with the tables. -/
def refineTables (p : HwParams) : List HwParam → Except (Stop × HwParams) HwParams
  | [] => .ok p
  | var :: vars =>
    if p.rmask var then
      let r :=
        match var with
        | .mask param =>
          let r := (p.masks param).refine (refineMasks param)
          (p.setMask param r.1, r.2)
        | .interval param =>
          let r := (p.intervals param).refine (refineIntervals param)
          (p.setInterval param r.1, r.2)
      match r.2 with
      | .error e => .error (e, r.1.mark var r.2)
      | .ok _ => (r.1.mark var r.2).refineTables vars
    else p.refineTables vars

def tableParams : List HwParam := maskParams.map .mask ++ intervalParams.map .interval

def startLoop (p : HwParams) : HwLoop where
  store := p
  rstamps := fun _ => 0
  vstamps := fun var => if p.rmask var then 1 else 0
  stamp := 2
  again := false
  runs := 0

/-- Up to the end of the rules. -/
def refineLoop (fuel : Nat) (p : HwParams) : Option (Except (Stop × HwParams) HwLoop) :=
  match p.refineTables tableParams with
  | .error e => some (.error e)
  | .ok p => hwRules.rounds stampModulus fuel p.startLoop

/-- `msbits` and the fraction of the rate, where they are not given and there is one value. -/
def finishRefine (p : HwParams) : Except (Stop × HwParams) HwParams := do
  let p ←
    if p.msbits = 0 then
      match (p.intervals .sampleBits).single with
      | .error e => .error (e, p)
      | .ok single =>
        .ok (if single then { p with msbits := (p.intervals .sampleBits).min } else p)
    else .ok p
  let p ←
    if p.rateDen = 0 then
      match (p.intervals .rate).single with
      | .error e => .error (e, p)
      | .ok single =>
        .ok (if single then { p with rateNum := (p.intervals .rate).min, rateDen := 1 } else p)
    else .ok p
  return { p with rmask := fun _ => false }

/-- `snd_pcm_hw_refine_soft` -/
def refineSoft (fuel : Nat) (p : HwParams) : Option (Except (Stop × HwParams) HwParams) :=
  (p.refineLoop fuel).map fun r =>
    match r with
    | .error e => .error e
    | .ok l => l.store.finishRefine

end HwParams
end Codinalte.Alsa
