import Mathlib.Algebra.Order.BigOperators.Group.Finset
import Mathlib.Tactic.Linarith
import Codinalte.Alsa.Operations
import Codinalte.Alsa.Formats

/-! What the parameters of a PCM are to each other, and that no rule of the refinement loses a
configuration in which they are so. -/

namespace Codinalte.Alsa
open OpenBounds

/-- One of the configurations that the masks and the intervals leave a choice of. -/
structure Config where
  choice : MaskParam → Nat
  value : IntervalParam → ℚ

/-- The values fit each other, and the tables of the refinement. -/
structure Config.Valid (c : Config) : Prop where
  representable : ∀ v, Representable (c.value v)
  masks : ∀ m, (refineMasks m).test (c.choice m) = true
  intervals : ∀ v, (refineIntervals v).Contains (c.value v)
  width : ∃ bits, physicalWidth (c.choice .format) = some bits ∧ c.value .sampleBits = bits
  frameBits : c.value .frameBits = c.value .sampleBits * c.value .channels
  bufferSize : c.value .bufferSize = c.value .periodSize * c.value .periods
  periodBytes : c.value .periodBytes * 8 = c.value .periodSize * c.value .frameBits
  bufferBytes : c.value .bufferBytes * 8 = c.value .bufferSize * c.value .frameBits
  periodTime : c.value .periodTime * c.value .rate = c.value .periodSize * 1000000
  bufferTime : c.value .bufferTime * c.value .rate = c.value .bufferSize * 1000000

structure HwParams.Admits (p : HwParams) (c : Config) : Prop where
  mask : ∀ m, (p.masks m).test (c.choice m) = true
  interval : ∀ v, (p.intervals v).Contains (c.value v)

namespace RuleFunc

def apply (a b : Interval) : RuleFunc → Except Stop Interval
  | .mul => Interval.mul a b
  | .div => Interval.div a b
  | .muldivk k => Interval.muldivk a b k
  | .mulkdiv k => Interval.mulkdiv a k b

/-- What the rule makes of values. -/
def value (x y : ℚ) : RuleFunc → ℚ
  | .mul => x * y
  | .div => x / y
  | .muldivk k => x * y / k
  | .mulkdiv k => x * k / y

def Scales : RuleFunc → Prop
  | .muldivk k | .mulkdiv k => 0 < k
  | _ => True

theorem apply_contains {f : RuleFunc} {a b : Interval} {x y : ℚ} (hf : f.Scales)
    (hx : Representable x) (hy : Representable y) (hxy : Representable (f.value x y))
    (ha : a.Contains x) (hb : b.Contains y) :
    ∃ t, f.apply a b = .ok t ∧ t.Contains (f.value x y) := by
  cases f with
  | mul => exact Interval.mul_contains hx hy hxy ha hb
  | div => exact Interval.div_contains hx hy hxy ha hb
  | muldivk k => exact Interval.muldivk_contains hf hx hy hxy ha hb
  | mulkdiv k => exact Interval.mulkdiv_contains hf hx hy hxy ha hb

end RuleFunc

/-- The rules between intervals refine one parameter with an operation on two others. -/
theorem func_interval (p : HwParams) (var dep dep' : IntervalParam) (f : RuleFunc) :
    HwRule.func p (.interval var f dep dep') =
      p.refineWith var (f.apply (p.intervals dep) (p.intervals dep')) := by
  cases f <;> rfl

/-- What the table of the rules has to be for the loop: every rule says what is so, and refines
none of the parameters that it reads. -/
def HwRule.Holds (c : Config) : HwRule → Prop
  | .interval var f dep dep' =>
    f.Scales ∧ c.value var = f.value (c.value dep) (c.value dep') ∧ var ≠ dep ∧ var ≠ dep'
  | .format | .sampleBits => True

theorem holds_of_mem {c : Config} (h : c.Valid) {r : HwRule} (hr : r ∈ refineRules) :
    r.Holds c := by
  have hne : ∀ v, c.value v ≠ 0 := fun v => (h.representable v).pos.ne'
  have hframe := h.frameBits
  have hbuffer := h.bufferSize
  have hperiodBytes := h.periodBytes
  have hbufferBytes := h.bufferBytes
  have hperiodTime := h.periodTime
  have hbufferTime := h.bufferTime
  simp only [refineRules, List.mem_cons, List.not_mem_nil, or_false] at hr
  rcases hr with rfl | rfl | rfl | rfl | rfl | rfl | rfl | rfl | rfl | rfl | rfl | rfl | rfl | rfl |
    rfl | rfl | rfl | rfl | rfl | rfl
  case inl | inr.inl => trivial
  all_goals
    refine ⟨by first | exact trivial | exact Nat.succ_pos _, ?_, by decide, by decide⟩
    simp only [RuleFunc.value, Nat.cast_ofNat]
    first
    | exact hframe
    | exact hbuffer
    | (rw [eq_div_iff (hne _)]; linarith)
    | (rw [eq_div_iff (by norm_num)]; linarith)

namespace Interval
variable {i j v : Interval} {x : ℚ} {min max : Nat}

theorem raiseMin_frame (i : Interval) (min : Nat) (hopen : i.openmin = false) :
    (i.raiseMin min false).1.openmin = false ∧ (i.raiseMin min false).1.openmax = i.openmax ∧
      (i.raiseMin min false).1.integer = i.integer := by
  rcases raiseMin_cases i min false with ⟨-, hr⟩ | ⟨-, hr⟩ <;> rw [hr]
  · exact ⟨rfl, rfl, rfl⟩
  · exact ⟨hopen, rfl, rfl⟩

theorem lowerMax_frame (i : Interval) (max : Nat) (hopen : i.openmax = false) :
    (i.lowerMax max false).1.openmax = false ∧ (i.lowerMax max false).1.openmin = i.openmin ∧
      (i.lowerMax max false).1.integer = i.integer := by
  rcases lowerMax_cases i max false with ⟨-, hr⟩ | ⟨-, hr⟩ <;> rw [hr]
  · exact ⟨rfl, rfl, rfl⟩
  · exact ⟨hopen, rfl, rfl⟩

theorem finish_of_contains {changed : Bool} (hi : i.Contains x) :
    i.finish changed = (i, .ok changed) := by
  rw [finish, if_neg (Bool.eq_false_iff.mp hi.checkempty)]

/-- With a value left, the two halves of the rule on the width of the samples are one
refinement. -/
theorem refine_halves (hi : i.Contains x) (hsettled : i.Settled) (hint : i.integer = true)
    (hv : Interval.Contains ⟨min, max, false, false, false, false⟩ x) :
    ∃ j q c c', i.refineMin min false = (j, .ok c) ∧ j.refineMax max false = (q, .ok c') ∧
      i.refine ⟨min, max, false, false, false, false⟩ = (q, .ok (c || c')) := by
  obtain ⟨hopen, hopen'⟩ := hsettled.closed hint
  obtain ⟨hraise, -⟩ := raiseMin_narrowed hi hv.above
  obtain ⟨hmin, hmax, hinteger⟩ := raiseMin_frame i min hopen
  obtain ⟨hlower, -⟩ := lowerMax_narrowed hraise.contains hv.below
  obtain ⟨hmax', hmin', hinteger'⟩ :=
    lowerMax_frame (i.raiseMin min false).1 max (hmax.trans hopen')
  have hj : (i.raiseMin min false).1.integer = true := hinteger.trans hint
  have hq : ((i.raiseMin min false).1.lowerMax max false).1.integer = true := hinteger'.trans hj
  refine ⟨(i.raiseMin min false).1, ((i.raiseMin min false).1.lowerMax max false).1,
    (i.raiseMin min false).2, ((i.raiseMin min false).1.lowerMax max false).2, ?_, ?_, ?_⟩
  · rw [refineMin, if_neg (Bool.eq_false_iff.mp hi.nonempty)]
    simp only [if_pos hj]
    rw [closeMin, if_neg (Bool.eq_false_iff.mp hmin), finish_of_contains hraise.contains]
  · rw [refineMax, if_neg (Bool.eq_false_iff.mp hraise.contains.nonempty)]
    simp only [if_pos hq]
    rw [closeMax, if_neg (Bool.eq_false_iff.mp hmax'), finish_of_contains hlower.contains]
  · rw [refine, if_neg (Bool.eq_false_iff.mp hi.nonempty), narrow]
    simp only [hq, not_true, false_and, if_false]
    rw [close, if_pos hq, closeMin, if_neg (Bool.eq_false_iff.mp (hmin'.trans hmin)), closeMax,
      if_neg (Bool.eq_false_iff.mp hmax'), finish_of_contains hlower.contains]

end Interval

namespace HwParams
variable {p p₀ : HwParams} {c : Config} {v : IntervalParam} {t : Interval}

/-- Where the loop is: the configurations are those of `p₀`, of which `c` is one. -/
structure Good (p₀ : HwParams) (c : Config) (p : HwParams) : Prop where
  valid : c.Valid
  admits : p.Admits c
  settled : ∀ v, (p.intervals v).Settled
  within : ∀ v, (p.intervals v).Fits (refineIntervals v)
  same : ∀ c', c'.Valid → (p.Admits c' ↔ p₀.Admits c')

instance : Fintype IntervalParam :=
  ⟨⟨intervalParams, by decide⟩, fun v => by cases v <;> decide⟩

def size (p : HwParams) : Nat := ∑ v, (p.intervals v).size + (p.masks .format).count

@[simp] theorem mark_masks (var : HwParam) (changed : Except Stop Bool) :
    (p.mark var changed).masks = p.masks := by
  rcases changed with e | ⟨_ | _⟩ <;> rfl

@[simp] theorem mark_intervals (var : HwParam) (changed : Except Stop Bool) :
    (p.mark var changed).intervals = p.intervals := by
  rcases changed with e | ⟨_ | _⟩ <;> rfl

/-- What the rule sees to. -/
def Done (p : HwParams) : HwRule → Prop
  | .interval var f dep dep' =>
    ∃ t, f.apply (p.intervals dep) (p.intervals dep') = .ok t ∧ (p.intervals var).Fits t
  | .format => ∀ k ∈ formats, (p.masks .format).test k = true → Agrees (p.intervals .sampleBits) k
  | .sampleBits => (p.intervals .sampleBits).Fits (widthInterval (p.masks .format))

/-- What a run of a rule does to a good store. -/
structure Step (r : HwRule) (changed : Bool) (p p' : HwParams) : Prop where
  same : changed = false → p' = p
  smaller : changed = true → p'.size < p.size
  done : p'.Done r
  masks : ∀ m, HwParam.mask m ≠ r.var → p'.masks m = p.masks m
  intervals : ∀ v, HwParam.interval v ≠ r.var → p'.intervals v = p.intervals v
  fits : ∀ v, (p'.intervals v).Fits (p.intervals v)
  sub : ∀ k, (p'.masks .format).test k = true → (p.masks .format).test k = true

@[simp] theorem setInterval_same (j : Interval) : (p.setInterval v j).intervals v = j :=
  Function.update_self _ _ _

theorem setInterval_of_ne {j : Interval} {w : IntervalParam} (h : w ≠ v) :
    (p.setInterval v j).intervals w = p.intervals w :=
  Function.update_of_ne h _ _

theorem setInterval_fits {j : Interval} (h : j.Fits (p.intervals v)) (w : IntervalParam) :
    ((p.setInterval v j).intervals w).Fits (p.intervals w) := by
  by_cases hw : w = v
  · subst hw
    rw [setInterval_same]
    exact h
  · rw [setInterval_of_ne hw]
    exact .refl _

theorem setInterval_self : p.setInterval v (p.intervals v) = p := by
  rw [setInterval, Function.update_eq_self]

theorem setInterval_size_lt {j : Interval} (hlt : j.size < (p.intervals v).size) :
    (p.setInterval v j).size < p.size := by
  refine Nat.add_lt_add_right (Finset.sum_lt_sum ?_ ⟨v, Finset.mem_univ v, ?_⟩) _
  · intro w _
    by_cases hw : w = v
    · subst hw
      rw [setInterval_same]
      exact hlt.le
    · rw [setInterval_of_ne hw]
  · rw [setInterval_same]
    exact hlt

/-- A narrower interval leaves the configurations whose value it has kept. -/
theorem setInterval_admits {P : ℚ → Prop} {j : Interval} (h : p.Admits c)
    (hfits : j.Fits (p.intervals v))
    (hkept : ∀ c', c'.Valid → p.Admits c' → (P (c'.value v) ↔ j.Contains (c'.value v)))
    {c' : Config} (hvalid : c'.Valid) :
    (p.setInterval v j).Admits c' ↔ p.Admits c' ∧ P (c'.value v) := by
  constructor
  · intro hnew
    have hold : p.Admits c' := by
      refine ⟨hnew.mask, fun w => ?_⟩
      exact (hnew.interval w).mono (setInterval_fits hfits w) (h.interval w).nonempty
        (h.interval w).word
    have hcontains := hnew.interval v
    rw [setInterval_same] at hcontains
    exact ⟨hold, (hkept c' hvalid hold).mpr hcontains⟩
  · rintro ⟨hold, hp⟩
    refine ⟨hold.mask, fun w => ?_⟩
    by_cases hw : w = v
    · subst hw
      rw [setInterval_same]
      exact (hkept c' hvalid hold).mp hp
    · rw [setInterval_of_ne hw]
      exact hold.interval w

/-- The refinement of a parameter with an interval that has the values of all configurations. -/
theorem refine_admits (hvalid : c.Valid) (hadmits : p.Admits c)
    (ht : ∀ c', c'.Valid → p.Admits c' → t.Contains (c'.value v)) :
    ∃ changed, ((p.intervals v).refine t).2 = .ok changed ∧
      Interval.Refined (c.value v) (p.intervals v) t ((p.intervals v).refine t).1 changed ∧
      ∀ c', c'.Valid →
        ((p.setInterval v ((p.intervals v).refine t).1).Admits c' ↔ p.Admits c') := by
  obtain ⟨changed, hok, hrefined⟩ := Interval.refine_spec (hvalid.representable v)
    (hadmits.interval v) (ht c hvalid hadmits)
  refine ⟨changed, hok, hrefined, fun c' hc' => ?_⟩
  refine (setInterval_admits (P := fun _ => True) hadmits hrefined.fits ?_ hc').trans
    (and_iff_left trivial)
  intro c'' hc'' hold
  obtain ⟨-, -, hrefined', -⟩ := Interval.refine_spec (hc''.representable v)
    (hold.interval v) (ht c'' hc'' hold)
  exact ⟨fun _ => hrefined', fun _ => trivial⟩

theorem refineWith_good (h : Good p₀ c p)
    (ht : ∀ c', c'.Valid → p.Admits c' → t.Contains (c'.value v)) :
    ∃ j changed, p.refineWith v (.ok t) = (p.setInterval v j, .ok changed) ∧
      Interval.Refined (c.value v) (p.intervals v) t j changed ∧ Good p₀ c (p.setInterval v j) := by
  obtain ⟨changed, hok, hrefined, hadmits⟩ := refine_admits h.valid h.admits ht
  refine ⟨_, changed, ?_, hrefined, h.valid, (hadmits c h.valid).mpr h.admits, ?_, ?_, ?_⟩
  · rw [refineWith, hok]
  · intro w
    by_cases hw : w = v
    · subst hw
      rw [setInterval_same]
      exact hrefined.settled
    · rw [setInterval_of_ne hw]
      exact h.settled w
  · exact fun w => (setInterval_fits hrefined.fits w).trans (h.within w)
  · exact fun c' hvalid => (hadmits c' hvalid).trans (h.same c' hvalid)

theorem interval_step {r : HwRule} (hvar : r.var = .interval v) (h : Good p₀ c p)
    (ht : ∀ c', c'.Valid → p.Admits c' → t.Contains (c'.value v))
    (hdone : ∀ j : Interval, j.Fits t → (p.setInterval v j).Done r) :
    ∃ p' changed, p.refineWith v (.ok t) = (p', .ok changed) ∧ Good p₀ c p' ∧
      Step r changed p p' := by
  obtain ⟨j, changed, hrun, hrefined, hgood⟩ := refineWith_good h ht
  refine ⟨p.setInterval v j, changed, hrun, hgood, ?_, ?_, hdone j hrefined.within, ?_, ?_,
    setInterval_fits hrefined.fits, fun _ htest => htest⟩
  · intro hchanged
    rw [hrefined.same hchanged (h.settled v), setInterval_self]
  · intro hchanged
    exact setInterval_size_lt (hrefined.smaller hchanged)
  · exact fun _ _ => rfl
  · intro w hw
    rw [hvar] at hw
    have hne : w ≠ v := fun heq => hw (congrArg _ heq)
    rw [setInterval_of_ne hne]

theorem setMask_same {m : MaskParam} (mask : Mask) : (p.setMask m mask).masks m = mask := by
  show Function.update p.masks m mask m = mask
  rw [Function.update_self]

theorem setMask_of_ne {m n : MaskParam} {mask : Mask} (h : n ≠ m) :
    (p.setMask m mask).masks n = p.masks n :=
  Function.update_of_ne h _ _

theorem setMask_self {m : MaskParam} : p.setMask m (p.masks m) = p := by
  rw [setMask, Function.update_eq_self]

theorem setMask_admits {P : Nat → Prop} {m : MaskParam} {mask : Mask}
    (hsub : ∀ k, mask.test k = true → (p.masks m).test k = true)
    (hkept : ∀ c', c'.Valid → p.Admits c' → (P (c'.choice m) ↔ mask.test (c'.choice m) = true))
    {c' : Config} (hvalid : c'.Valid) :
    (p.setMask m mask).Admits c' ↔ p.Admits c' ∧ P (c'.choice m) := by
  constructor
  · intro hnew
    have hold : p.Admits c' := by
      refine ⟨fun n => ?_, hnew.interval⟩
      have htest := hnew.mask n
      by_cases hn : n = m
      · subst hn
        rw [setMask_same] at htest
        exact hsub _ htest
      · rwa [setMask_of_ne hn] at htest
    have htest := hnew.mask m
    rw [setMask_same] at htest
    exact ⟨hold, (hkept c' hvalid hold).mpr htest⟩
  · rintro ⟨hold, hp⟩
    refine ⟨fun n => ?_, hold.interval⟩
    by_cases hn : n = m
    · subst hn
      rw [setMask_same]
      exact (hkept c' hvalid hold).mp hp
    · rw [setMask_of_ne hn]
      exact hold.mask n

theorem format_agrees (hvalid : c.Valid) (hadmits : p.Admits c) :
    Agrees (p.intervals .sampleBits) (c.choice .format) := by
  intro bits hbits
  obtain ⟨bits', hwidth, hvalue⟩ := hvalid.width
  rw [hwidth] at hbits
  cases hbits
  have hcontains := hadmits.interval .sampleBits
  rw [hvalue] at hcontains
  exact hcontains.test

theorem format_step (h : Good p₀ c p) : ∃ p' changed, p.ruleFormat = (p', .ok changed) ∧
    Good p₀ c p' ∧ Step .format changed p p' := by
  have hformats : ∀ k ∈ formats, k ≤ formatLast := fun k hk =>
    Nat.le_of_lt_succ (List.mem_range.mp hk)
  obtain ⟨left, changed, hrun, hdropped⟩ := dropFormats_spec (format_agrees h.valid h.admits)
    formats (p.masks .format) false hformats (h.admits.mask .format)
  have hformat : (p.setMask .format left).masks .format = left := setMask_same left
  have hadmits : ∀ {c' : Config}, c'.Valid →
      ((p.setMask .format left).Admits c' ↔ p.Admits c') := by
    intro c' hc'
    refine (setMask_admits (P := fun _ => True) hdropped.sub ?_ hc').trans (and_iff_left trivial)
    intro c'' hc'' hold
    exact ⟨fun _ => hdropped.kept _ (hold.mask .format) (format_agrees hc'' hold), fun _ => trivial⟩
  refine ⟨p.setMask .format left, changed, ?_, ?_, ?_, ?_, ?_, ?_, fun _ _ => rfl,
    fun v => .refl _, ?_⟩
  · rw [ruleFormat, hrun]
  · exact ⟨h.valid, (hadmits h.valid).mpr h.admits, h.settled, h.within,
      fun c' hvalid => (hadmits hvalid).trans (h.same c' hvalid)⟩
  · intro hchanged
    rw [(hdropped.same hchanged).1, setMask_self]
  · intro hchanged
    have hfewer := (hdropped.fewer hchanged).resolve_left Bool.false_ne_true
    rw [size, size, hformat]
    exact Nat.add_lt_add_left hfewer _
  · intro k hk htest
    rw [hformat] at htest
    exact hdropped.agree k hk htest
  · intro m hm
    exact setMask_of_ne fun heq => hm (congrArg _ heq)
  · rw [hformat]
    exact hdropped.sub

theorem widths_contain (hvalid : c.Valid) (hadmits : p.Admits c) :
    (widthInterval (p.masks .format)).Contains (c.value .sampleBits) := by
  obtain ⟨bits, hwidth, hvalue⟩ := hvalid.width
  rw [hvalue]
  exact widthInterval_contains (hadmits.mask .format) hwidth

theorem sampleBits_refine (h : Good p₀ c p) :
    p.ruleSampleBits = p.refineWith .sampleBits (.ok (widthInterval (p.masks .format))) := by
  obtain ⟨j, q, c₁, c₂, hmin, hmax, hboth⟩ := Interval.refine_halves (h.admits.interval .sampleBits)
    (h.settled .sampleBits) ((h.within .sampleBits).integer rfl) (widths_contain h.valid h.admits)
  have hrefine : (p.intervals .sampleBits).refine (widthInterval (p.masks .format)) =
    (q, .ok (c₁ || c₂)) := hboth
  rw [ruleSampleBits, refineWith, hrefine]
  simp only [hmin, hmax]

/-- A rule runs on a good store without an error, and sees to what it is there for. -/
theorem func_step (h : Good p₀ c p) {r : HwRule} (hr : r ∈ refineRules) :
    ∃ p' changed, r.func p = (p', .ok changed) ∧ Good p₀ c p' ∧ Step r changed p p' := by
  cases r with
  | format => exact format_step h
  | sampleBits =>
    show ∃ p' changed, p.ruleSampleBits = (p', .ok changed) ∧ _
    rw [sampleBits_refine h]
    refine interval_step rfl h (fun c' hvalid hadmits => widths_contain hvalid hadmits) ?_
    intro j hfits
    show ((p.setInterval .sampleBits j).intervals .sampleBits).Fits _
    rw [setInterval_same]
    exact hfits
  | interval var f dep dep' =>
    obtain ⟨hscales, -, hdep, hdep'⟩ := holds_of_mem h.valid hr
    rw [func_interval]
    have happly : ∀ c', c'.Valid → p.Admits c' → ∃ t,
        f.apply (p.intervals dep) (p.intervals dep') = .ok t ∧ t.Contains (c'.value var) := by
      intro c' hvalid hadmits
      obtain ⟨-, hvalue, -, -⟩ := holds_of_mem hvalid hr
      rw [hvalue]
      exact RuleFunc.apply_contains hscales (hvalid.representable dep)
        (hvalid.representable dep') (hvalue ▸ hvalid.representable var) (hadmits.interval dep)
        (hadmits.interval dep')
    obtain ⟨t, ht, -⟩ := happly c h.valid h.admits
    rw [ht]
    refine interval_step rfl h ?_ ?_
    · intro c' hvalid hadmits
      obtain ⟨t', ht', hcontains⟩ := happly c' hvalid hadmits
      rw [ht] at ht'
      cases ht'
      exact hcontains
    · intro j hfits
      refine ⟨t, ?_, ?_⟩
      · rw [setInterval_of_ne hdep.symm, setInterval_of_ne hdep'.symm]
        exact ht
      · rw [setInterval_same]
        exact hfits

end HwParams
end Codinalte.Alsa
