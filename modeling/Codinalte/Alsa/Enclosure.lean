import Mathlib.Tactic.Positivity.Basic
import Codinalte.Alsa.Interval

/-! The values that an interval stands for. Refinement loses none that both intervals have, and
comes to an end on an interval that the other one cannot narrow any more. -/

namespace Codinalte.Alsa
open OpenBounds

/-- Positive, and short of where the bounds are saturated. -/
structure Representable (x : ℚ) : Prop where
  pos : 0 < x
  lt : x < UINT_MAX

theorem increment_of_lt {m n : Nat} (hm : m < n) (hn : Representable n) : increment m = m + 1 := by
  have hlt : n < UINT_MAX := Nat.cast_lt.mp hn.lt
  exact if_neg (hm.trans hlt).ne

namespace Interval

structure Contains (i : Interval) (x : ℚ) : Prop where
  nonempty : i.empty = false
  word : i.max ≤ UINT_MAX
  above : Above (i.min : ℚ) i.openmin x
  below : Below (i.max : ℚ) i.openmax x
  whole : i.integer = true → ∃ n : ℕ, x = n

/-- The bounds on one scale, on which an open end is a half step. -/
def lo (i : Interval) : Nat := 2 * i.min + i.openmin.toNat

def hi (i : Interval) : Nat := 2 * i.max + 1 - i.openmax.toNat

/-- What `close` leaves. -/
structure Settled (i : Interval) : Prop where
  closed : i.integer = true → i.openmin = false ∧ i.openmax = false
  single : i.integer = false → ¬(¬i.openmin ∧ ¬i.openmax ∧ i.min = i.max)

/-- The interval is within the other one, and marked as an integer where that is. -/
structure Fits (i v : Interval) : Prop where
  lo : v.lo ≤ i.lo
  hi : i.hi ≤ v.hi
  integer : v.integer = true → i.integer = true

/-- The steps of narrowing that are left, at most. -/
def size (i : Interval) : Nat := i.hi - i.lo + (!i.integer).toNat

variable {i j v : Interval} {x : ℚ} {min max : Nat} {openmin openmax changed : Bool}

theorem Fits.refl (i : Interval) : i.Fits i := ⟨le_rfl, le_rfl, id⟩

theorem Fits.trans {k : Interval} (h : k.Fits j) (h' : j.Fits i) : k.Fits i :=
  ⟨h'.lo.trans h.lo, h.hi.trans h'.hi, fun hi => h.integer (h'.integer hi)⟩

theorem raiseMin_cases (i : Interval) (min : Nat) (openmin : Bool) :
    (i.lo < 2 * min + openmin.toNat ∧
      i.raiseMin min openmin = ({ i with min := min, openmin := openmin }, true)) ∨
      (2 * min + openmin.toNat ≤ i.lo ∧ i.raiseMin min openmin = (i, false)) := by
  have hone : openmin.toNat ≤ 1 := Bool.toNat_le openmin
  have hone' : i.openmin.toNat ≤ 1 := Bool.toNat_le i.openmin
  rcases lt_trichotomy i.min min with hlt | heq | hgt
  · refine .inl ⟨?_, if_pos hlt⟩
    rw [lo]
    omega
  · subst heq
    rw [raiseMin, if_neg (lt_irrefl _), lo]
    cases hi : i.openmin with
    | true => exact .inr ⟨by simp only [Bool.toNat_true]; omega, if_neg (fun h => h.2.1 rfl)⟩
    | false =>
      cases openmin with
      | true => exact .inl ⟨by simp, if_pos ⟨rfl, Bool.false_ne_true, rfl⟩⟩
      | false => exact .inr ⟨le_rfl, if_neg (fun h => Bool.false_ne_true h.2.2)⟩
  · refine .inr ⟨?_, ?_⟩
    · rw [lo]
      omega
    · rw [raiseMin, if_neg hgt.not_gt, if_neg (fun h => hgt.ne' h.1)]

theorem lowerMax_cases (i : Interval) (max : Nat) (openmax : Bool) :
    (2 * max + 1 - openmax.toNat < i.hi ∧
      i.lowerMax max openmax = ({ i with max := max, openmax := openmax }, true)) ∨
      (i.hi ≤ 2 * max + 1 - openmax.toNat ∧ i.lowerMax max openmax = (i, false)) := by
  have hone : openmax.toNat ≤ 1 := Bool.toNat_le openmax
  have hone' : i.openmax.toNat ≤ 1 := Bool.toNat_le i.openmax
  rcases lt_trichotomy max i.max with hlt | heq | hgt
  · refine .inl ⟨?_, if_pos hlt⟩
    rw [hi]
    omega
  · subst heq
    rw [lowerMax, if_neg (lt_irrefl _), hi]
    cases ho : i.openmax with
    | true => exact .inr ⟨by simp only [Bool.toNat_true]; omega, if_neg (fun h => h.2.1 rfl)⟩
    | false =>
      cases openmax with
      | true => exact .inl ⟨by simp, if_pos ⟨rfl, Bool.false_ne_true, rfl⟩⟩
      | false => exact .inr ⟨le_rfl, if_neg (fun h => Bool.false_ne_true h.2.2)⟩
  · refine .inr ⟨?_, ?_⟩
    · rw [hi]
      omega
    · rw [lowerMax, if_neg hgt.not_gt, if_neg (fun h => hgt.ne h.1)]

/-- A change moves a bound, or makes an integer of what was none. -/
def Moved (i j : Interval) : Prop :=
  i.lo < j.lo ∨ j.hi < i.hi ∨ (i.integer = false ∧ j.integer = true)

theorem Moved.fits {k : Interval} (h : Moved i j) (hk : k.Fits j) : Moved i k := by
  rcases h with hlo | hhi | ⟨hnot, hint⟩
  · exact .inl (hlo.trans_le hk.lo)
  · exact .inr (.inl (hk.hi.trans_lt hhi))
  · exact .inr (.inr ⟨hnot, hk.integer hint⟩)

theorem Fits.moved {k : Interval} (h : j.Fits i) (hk : Moved j k) : Moved i k := by
  rcases hk with hlo | hhi | ⟨hnot, hint⟩
  · exact .inl (h.lo.trans_lt hlo)
  · exact .inr (.inl (hhi.trans_le h.hi))
  · refine .inr (.inr ⟨?_, hint⟩)
    cases hi : i.integer with
    | false => rfl
    | true => cases (h.integer hi).symm.trans hnot

/-- A part of a refinement: the value stays, and the mark says whether the interval has changed. -/
structure Narrowed (x : ℚ) (i j : Interval) (changed : Bool) : Prop where
  contains : j.Contains x
  fits : j.Fits i
  moved : changed = true → Moved i j
  same : changed = false → j = i

theorem Narrowed.trans {k : Interval} {later : Bool} (h : Narrowed x i j changed)
    (h' : Narrowed x j k later) : Narrowed x i k (changed || later) := by
  refine ⟨h'.contains, h'.fits.trans h.fits, ?_, ?_⟩
  · intro heither
    rcases Bool.or_eq_true _ _ ▸ heither with hc | hl
    · exact (h.moved hc).fits h'.fits
    · exact h.fits.moved (h'.moved hl)
  · intro hneither
    obtain ⟨hc, hl⟩ := Bool.or_eq_false_iff.mp hneither
    exact (h'.same hl).trans (h.same hc)

theorem Narrowed.refl (hi : i.Contains x) : Narrowed x i i false :=
  ⟨hi, .refl i, (fun h => nomatch h), fun _ => rfl⟩

theorem raiseMin_narrowed (hi : i.Contains x) (hx : Above (min : ℚ) openmin x) :
    Narrowed x i (i.raiseMin min openmin).1 (i.raiseMin min openmin).2 ∧
      2 * min + openmin.toNat ≤ (i.raiseMin min openmin).1.lo := by
  rcases raiseMin_cases i min openmin with ⟨hlt, hr⟩ | ⟨hle, hr⟩
  · rw [hr]
    exact ⟨⟨⟨hi.nonempty, hi.word, hx, hi.below, hi.whole⟩, ⟨hlt.le, le_rfl, id⟩,
      fun _ => .inl hlt, fun h => nomatch h⟩, le_rfl⟩
  · rw [hr]
    exact ⟨.refl hi, hle⟩

theorem lowerMax_narrowed (hi : i.Contains x) (hx : Below (max : ℚ) openmax x) :
    Narrowed x i (i.lowerMax max openmax).1 (i.lowerMax max openmax).2 ∧
      (i.lowerMax max openmax).1.hi ≤ 2 * max + 1 - openmax.toNat := by
  rcases lowerMax_cases i max openmax with ⟨hlt, hr⟩ | ⟨hle, hr⟩
  · have hword : max ≤ UINT_MAX := by
      have hone : openmax.toNat ≤ 1 := Bool.toNat_le openmax
      have hold := hi.word
      rw [Interval.hi] at hlt
      omega
    rw [hr]
    exact ⟨⟨⟨hi.nonempty, hword, hi.above, hx, hi.whole⟩, ⟨le_rfl, hlt.le, id⟩,
      fun _ => .inr (.inl hlt), fun h => nomatch h⟩, le_rfl⟩
  · rw [hr]
    exact ⟨.refl hi, hle⟩

theorem narrow_narrowed (hi : i.Contains x) (hv : v.Contains x) :
    Narrowed x i (i.narrow v).1 (i.narrow v).2 ∧ (i.narrow v).1.Fits v := by
  obtain ⟨hraise, hlo⟩ := raiseMin_narrowed hi hv.above
  obtain ⟨hlower, hhi⟩ := lowerMax_narrowed hraise.contains hv.below
  have hboth := hraise.trans hlower
  rw [narrow]
  split
  · next hinteger =>
    obtain ⟨hnot, hint⟩ := hinteger
    have hfalse := Bool.eq_false_iff.mpr hnot
    refine ⟨⟨⟨hlower.contains.nonempty, hlower.contains.word, hlower.contains.above,
      hlower.contains.below, fun _ => hv.whole hint⟩,
      ⟨hboth.fits.lo, hboth.fits.hi, fun _ => rfl⟩, ?_, fun h => nomatch h⟩, ?_⟩
    · intro _
      exact hboth.fits.moved (.inr (.inr ⟨hfalse, rfl⟩))
    · exact ⟨hlo.trans hlower.fits.lo, hhi, fun _ => rfl⟩
  · next hinteger =>
    refine ⟨hboth, hlo.trans hlower.fits.lo, hhi, ?_⟩
    intro hint
    by_contra hnot
    exact hinteger ⟨hnot, hint⟩

theorem closeMin_contains (hx : Representable x) (hi : i.Contains x) {n : ℕ} (hn : x = n) :
    i.closeMin.Contains x ∧ i.lo ≤ i.closeMin.lo ∧ i.closeMin.openmin = false := by
  subst hn
  rw [closeMin]
  cases ho : i.openmin with
  | false => exact ⟨hi, le_rfl, ho⟩
  | true =>
    have habove := hi.above
    rw [ho] at habove
    have hlt : i.min < n := Nat.cast_lt.mp (habove.2 rfl)
    simp only [if_true, increment_of_lt hlt hx]
    refine ⟨⟨hi.nonempty, hi.word, habove.succ, hi.below, hi.whole⟩, ?_, trivial⟩
    simp only [lo, ho, Bool.toNat_true, Bool.toNat_false]
    omega

theorem closeMax_contains (hi : i.Contains x) {n : ℕ} (hn : x = n) :
    i.closeMax.Contains x ∧ i.closeMax.hi ≤ i.hi ∧ i.closeMax.openmax = false := by
  subst hn
  rw [closeMax]
  cases ho : i.openmax with
  | false => exact ⟨hi, le_rfl, ho⟩
  | true =>
    have hbelow := hi.below
    rw [ho] at hbelow
    obtain ⟨hpos, hpred⟩ := hbelow.pred
    have hdec : decrement i.max = i.max - 1 := if_neg hpos.ne'
    simp only [if_true, hdec]
    refine ⟨⟨hi.nonempty, (Nat.sub_le _ _).trans hi.word, hi.above, hpred, hi.whole⟩, ?_, trivial⟩
    simp only [Interval.hi, ho, Bool.toNat_true, Bool.toNat_false]
    omega

@[simp] theorem closeMin_frame : i.closeMin.integer = i.integer ∧ i.closeMin.hi = i.hi := by
  unfold closeMin
  split <;> exact ⟨rfl, rfl⟩

@[simp] theorem closeMax_frame : i.closeMax.integer = i.integer ∧ i.closeMax.lo = i.lo ∧
    i.closeMax.openmin = i.openmin := by
  unfold closeMax
  split <;> exact ⟨rfl, rfl, rfl⟩

theorem close_spec (hx : Representable x) (hi : i.Contains x) :
    i.close.Contains x ∧ i.close.Fits i ∧ i.close.Settled ∧ (i.Settled → i.close = i) := by
  unfold close
  split
  · next hinteger =>
    obtain ⟨n, hn⟩ := hi.whole hinteger
    obtain ⟨hmin, hlo, hopen⟩ := closeMin_contains hx hi hn
    obtain ⟨hmax, hhi, hopen'⟩ := closeMax_contains hmin hn
    obtain ⟨hint, hsame⟩ := closeMin_frame (i := i)
    obtain ⟨hint', hlo', hopen''⟩ := closeMax_frame (i := i.closeMin)
    refine ⟨hmax, ⟨hlo.trans hlo'.ge, hhi.trans hsame.le, ?_⟩, ⟨?_, ?_⟩, ?_⟩
    · exact fun h => hint'.trans (hint.trans h)
    · exact fun _ => ⟨hopen''.trans hopen, hopen'⟩
    · exact fun h => absurd (hint'.trans (hint.trans hinteger)) (Bool.eq_false_iff.mp h)
    · intro hsettled
      obtain ⟨hmin', hmax'⟩ := hsettled.closed hinteger
      have hone : i.closeMin = i := if_neg (Bool.eq_false_iff.mp hmin')
      rw [hone]
      exact if_neg (Bool.eq_false_iff.mp hmax')
  · next hinteger =>
    split
    · next hsingle =>
      obtain ⟨hmin, hmax, heq⟩ := hsingle
      have habove : (i.min : ℚ) ≤ x := hi.above.1
      have hbelow : x ≤ (i.max : ℚ) := hi.below.1
      rw [← heq] at hbelow
      refine ⟨⟨hi.nonempty, hi.word, hi.above, hi.below, fun _ => ⟨i.min, hbelow.antisymm habove⟩⟩,
        ⟨le_rfl, le_rfl, fun _ => rfl⟩, ⟨?_, fun h => nomatch h⟩, ?_⟩
      · exact fun _ => ⟨Bool.eq_false_iff.mpr hmin, Bool.eq_false_iff.mpr hmax⟩
      · exact fun h => absurd ⟨hmin, hmax, heq⟩ (h.single (Bool.eq_false_iff.mpr hinteger))
    · next hsingle =>
      exact ⟨hi, .refl i, ⟨fun h => absurd h hinteger, fun _ => hsingle⟩, fun _ => rfl⟩

theorem Contains.checkempty (hi : i.Contains x) : i.checkempty = false := by
  have hle : (i.min : ℚ) ≤ i.max := hi.above.1.trans hi.below.1
  have hle' : i.min ≤ i.max := Nat.cast_le.mp hle
  rw [Interval.checkempty, decide_eq_false hle'.not_gt, Bool.false_or, Bool.and_eq_false_iff]
  by_cases heq : i.min = i.max
  · refine .inr (Bool.or_eq_false_iff.mpr ⟨?_, ?_⟩)
    · refine Bool.eq_false_iff.mpr ?_
      intro hopen
      exact absurd (heq ▸ (hi.above.2 hopen).trans_le hi.below.1) (lt_irrefl _)
    · refine Bool.eq_false_iff.mpr ?_
      intro hopen
      exact absurd (heq ▸ hi.above.1.trans_lt (hi.below.2 hopen)) (lt_irrefl _)
  · exact .inl (decide_eq_false heq)

theorem Contains.lo_le_hi (hi : i.Contains x) : i.lo ≤ i.hi := by
  have hle : (i.min : ℚ) ≤ i.max := hi.above.1.trans hi.below.1
  have hle' : i.min ≤ i.max := Nat.cast_le.mp hle
  have hcheck := hi.checkempty
  rw [Interval.checkempty, Bool.or_eq_false_iff, Bool.and_eq_false_iff] at hcheck
  have hone : i.openmin.toNat ≤ 1 := Bool.toNat_le _
  have hone' : i.openmax.toNat ≤ 1 := Bool.toNat_le _
  rw [lo, Interval.hi]
  rcases hcheck.2 with hne | hopen
  · have hne' : i.min ≠ i.max := of_decide_eq_false hne
    omega
  · obtain ⟨hmin, hmax⟩ := Bool.or_eq_false_iff.mp hopen
    rw [hmin, hmax]
    simp only [Bool.toNat_false]
    omega

theorem Moved.size_lt (h : Moved i j) (hfits : j.Fits i) (hj : j.Contains x) :
    j.size < i.size := by
  have hle := hj.lo_le_hi
  have hlo := hfits.lo
  have hhi := hfits.hi
  have hint : (!j.integer).toNat ≤ (!i.integer).toNat := by
    cases hi : i.integer with
    | true => rw [hfits.integer hi]
    | false => exact Bool.toNat_le _
  rw [size, size]
  rcases h with hlt | hlt | ⟨hnot, hyes⟩
  · omega
  · omega
  · rw [hnot, hyes]
    simp only [Bool.not_true, Bool.not_false, Bool.toNat_true, Bool.toNat_false]
    omega

/-- A refinement that has a value left: it keeps it, and says whether it has changed anything. -/
structure Refined (x : ℚ) (i v j : Interval) (changed : Bool) : Prop where
  contains : j.Contains x
  fits : j.Fits i
  within : j.Fits v
  settled : j.Settled
  smaller : changed = true → j.size < i.size
  same : changed = false → i.Settled → j = i

theorem refine_spec (hx : Representable x) (hi : i.Contains x) (hv : v.Contains x) :
    ∃ changed, (i.refine v).2 = .ok changed ∧ Refined x i v (i.refine v).1 changed := by
  obtain ⟨hnarrow, hwithin⟩ := narrow_narrowed hi hv
  obtain ⟨hclose, hfits, hsettled, hidle⟩ := close_spec hx hnarrow.contains
  have hrefine : i.refine v = ((i.narrow v).1.close, .ok (i.narrow v).2) := by
    rw [refine, if_neg (Bool.eq_false_iff.mp hi.nonempty), finish,
      if_neg (Bool.eq_false_iff.mp hclose.checkempty)]
  rw [hrefine]
  refine ⟨(i.narrow v).2, rfl, hclose, hfits.trans hnarrow.fits, hfits.trans hwithin, hsettled,
    ?_, ?_⟩
  · intro hchanged
    exact ((hnarrow.moved hchanged).fits hfits).size_lt (hfits.trans hnarrow.fits) hclose
  · intro hunchanged hold
    have hsame := hnarrow.same hunchanged
    rw [hsame] at hidle ⊢
    exact hidle hold

theorem narrow_of_fits (h : i.Fits v) : i.narrow v = (i, false) := by
  have hraise : i.raiseMin v.min v.openmin = (i, false) := by
    rcases raiseMin_cases i v.min v.openmin with ⟨hlt, -⟩ | ⟨-, hr⟩
    · exact absurd h.lo hlt.not_ge
    · exact hr
  have hlower : i.lowerMax v.max v.openmax = (i, false) := by
    rcases lowerMax_cases i v.max v.openmax with ⟨hlt, -⟩ | ⟨-, hr⟩
    · exact absurd h.hi hlt.not_ge
    · exact hr
  rw [narrow]
  simp only [hraise, hlower]
  exact if_neg (fun hint => hint.1 (h.integer hint.2))

/-- There is nothing to refine. -/
theorem refine_idle (hx : Representable x) (hi : i.Contains x) (hsettled : i.Settled)
    (h : i.Fits v) : i.refine v = (i, .ok false) := by
  obtain ⟨-, -, -, hidle⟩ := close_spec hx hi
  rw [refine, if_neg (Bool.eq_false_iff.mp hi.nonempty), narrow_of_fits h]
  simp only [hidle hsettled]
  rw [finish, if_neg (Bool.eq_false_iff.mp hi.checkempty)]

theorem above_of_lo_le (h : i.lo ≤ j.lo) (hx : Above (j.min : ℚ) j.openmin x) :
    Above (i.min : ℚ) i.openmin x := by
  rw [lo, lo] at h
  have hone : j.openmin.toNat ≤ 1 := Bool.toNat_le _
  rcases (show i.min ≤ j.min by omega).lt_or_eq with hlt | heq
  · exact .of_lt ((Nat.cast_lt.mpr hlt).trans_le hx.1)
  · rw [heq]
    refine ⟨hx.1, ?_⟩
    intro hopen
    rw [hopen, heq, Bool.toNat_true] at h
    cases hj : j.openmin with
    | true => exact hx.2 hj
    | false =>
      rw [hj, Bool.toNat_false] at h
      omega

theorem below_of_hi_le (h : j.hi ≤ i.hi) (hx : Below (j.max : ℚ) j.openmax x) :
    Below (i.max : ℚ) i.openmax x := by
  rw [hi, hi] at h
  have hone : j.openmax.toNat ≤ 1 := Bool.toNat_le _
  have hone' : i.openmax.toNat ≤ 1 := Bool.toNat_le _
  rcases (show j.max ≤ i.max by omega).lt_or_eq with hlt | heq
  · exact .of_lt (hx.1.trans_lt (Nat.cast_lt.mpr hlt))
  · rw [← heq]
    refine ⟨hx.1, ?_⟩
    intro hopen
    rw [hopen, ← heq, Bool.toNat_true] at h
    cases hj : j.openmax with
    | true => exact hx.2 hj
    | false =>
      rw [hj, Bool.toNat_false] at h
      omega

/-- A narrower interval has no further values. -/
theorem Contains.mono (hj : j.Contains x) (h : j.Fits i) (hempty : i.empty = false)
    (hword : i.max ≤ UINT_MAX) : i.Contains x :=
  ⟨hempty, hword, above_of_lo_le h.lo hj.above, below_of_hi_le h.hi hj.below,
    fun hint => hj.whole (h.integer hint)⟩

theorem Contains.test {n : ℕ} (hi : i.Contains n) : i.test n = true := by
  have hmin : i.min ≤ n := Nat.cast_le.mp hi.above.1
  have hmax : n ≤ i.max := Nat.cast_le.mp hi.below.1
  rw [Interval.test, Bool.not_eq_true', Bool.or_eq_false_iff, Bool.or_eq_false_iff,
    Bool.or_eq_false_iff, Bool.and_eq_false_iff, Bool.and_eq_false_iff]
  refine ⟨⟨⟨decide_eq_false hmin.not_gt, ?_⟩, decide_eq_false hmax.not_gt⟩, ?_⟩
  · by_cases heq : i.min = n
    · refine .inr (Bool.eq_false_iff.mpr ?_)
      intro hopen
      exact absurd (Nat.cast_lt.mp (hi.above.2 hopen)) heq.not_lt
    · exact .inl (decide_eq_false heq)
  · by_cases heq : i.max = n
    · refine .inr (Bool.eq_false_iff.mpr ?_)
      intro hopen
      exact absurd (Nat.cast_lt.mp (hi.below.2 hopen)) heq.not_gt
    · exact .inl (decide_eq_false heq)

end Interval
end Codinalte.Alsa
