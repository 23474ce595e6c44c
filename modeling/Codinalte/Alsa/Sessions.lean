import Codinalte.Alsa.Cuts

/-! An application and a PCM that is refined in software. Whatever was asked, in whatever order, the
parameters admit the configurations that meet the accepted requests, and a request that one of
these meets is accepted. -/

namespace Codinalte.Alsa
open OpenBounds StampedRules

/-- What a request asks of a configuration. -/
def Request.Meets (c : Config) : Request → Prop
  | .setMin var val dir => Above ((minBound val dir).1 : ℚ) (minBound val dir).2 (c.value var)
  | .setMax var val dir => Below ((maxBound val dir).1 : ℚ) (maxBound val dir).2 (c.value var)
  | .setMinmax var min mindir max maxdir =>
    Above ((minBound min mindir).1 : ℚ) (minBound min mindir).2 (c.value var) ∧
      Below ((maxBound max maxdir).1 : ℚ) (maxBound max maxdir).2 (c.value var)
  | .setInterval var val dir => Near val dir (c.value var)
  | .setInteger var => ∃ n : ℕ, c.value var = n
  | .setChoice var val dir => Chosen val dir (c.choice var)
  | .setMask var val => val.test (c.choice var) = true

namespace HwParams
variable {p q : HwParams} {c : Config} {r : Request}

@[simp] theorem demand_masks (var : HwParam) (e : Except Stop Bool) :
    (p.demand var e).masks = p.masks := by
  rcases e with e | ⟨_ | _⟩ <;> rfl

@[simp] theorem demand_intervals (var : HwParam) (e : Except Stop Bool) :
    (p.demand var e).intervals = p.intervals := by
  rcases e with e | ⟨_ | _⟩ <;> rfl

theorem demand_rmask {var w : HwParam} {changed : Bool}
    (h : (p.demand var (.ok changed)).rmask w = false) :
    p.rmask w = false ∧ (w = var → changed = false) := by
  cases changed with
  | false => exact ⟨h, fun _ => rfl⟩
  | true =>
    have hupdate : Function.update p.rmask var true w = false := h
    by_cases hw : w = var
    · subst hw
      rw [Function.update_self] at hupdate
      cases hupdate
    · rw [Function.update_of_ne hw] at hupdate
      exact ⟨hupdate, fun heq => absurd heq hw⟩

/-- The part of a request before the refinement: a parameter that is not marked is as it was. -/
structure Changed (meets : Config → Prop) (p q : HwParams) : Prop where
  admits : ∀ c', c'.Valid → (q.Admits c' ↔ p.Admits c' ∧ meets c')
  fits : ∀ v, (q.intervals v).Fits (p.intervals v)
  sub : ∀ k, (q.masks .format).test k = true → (p.masks .format).test k = true
  rmask : ∀ var, q.rmask var = false → p.rmask var = false
  intervals : ∀ v, q.rmask (.interval v) = false → q.intervals v = p.intervals v
  masks : ∀ m, q.rmask (.mask m) = false → q.masks m = p.masks m

theorem changeInterval_spec {v : IntervalParam} {P : ℚ → Prop}
    {change : Interval × Except Stop Bool} (hvalid : c.Valid) (hadmits : p.Admits c)
    (hp : P (c.value v)) (hcut : ∀ c', c'.Valid → p.Admits c' → P (c'.value v) →
      Interval.Cut P (c'.value v) (p.intervals v) change) :
    ∃ q changed, p.changeInterval v change = (q, .ok changed) ∧
      Changed (fun c' => P (c'.value v)) p q := by
  have hc := hcut c hvalid hadmits hp
  obtain ⟨changed, hok, hsame⟩ := hc.done
  have hkept : ∀ c', c'.Valid → p.Admits c' →
      (P (c'.value v) ↔ change.1.Contains (c'.value v)) := fun c' hc' hold =>
    ⟨fun hp' => (hcut c' hc' hold hp').contains, fun hcontains => hc.only hcontains⟩
  rw [changeInterval, hok]
  refine ⟨_, changed, rfl, ?_, ?_, ?_, fun var hvar => (demand_rmask hvar).1, ?_, ?_⟩
  · intro c' hc'
    exact (admits_congr (demand_masks _ _) (demand_intervals _ _)).trans
      (setInterval_admits hadmits hc.fits hkept hc')
  · rw [demand_intervals]
    exact setInterval_fits hc.fits
  · rw [demand_masks]
    exact fun _ hk => hk
  · rw [demand_intervals]
    intro w hw
    by_cases heq : w = v
    · subst heq
      rw [setInterval_same]
      exact hsame ((demand_rmask hw).2 rfl)
    · exact setInterval_of_ne heq
  · rw [demand_masks]
    exact fun _ _ => rfl

theorem changeMask_spec {m : MaskParam} {P : Nat → Prop} {change : Mask × Except Stop Bool}
    (hadmits : p.Admits c) (hp : P (c.choice m))
    (hcut : ∀ c', p.Admits c' → P (c'.choice m) →
      Mask.Cut P (c'.choice m) (p.masks m) change) :
    ∃ q changed, p.changeMask m change = (q, .ok changed) ∧
      Changed (fun c' => P (c'.choice m)) p q := by
  have hc := hcut c hadmits hp
  obtain ⟨changed, hok, hsame⟩ := hc.done
  have hkept : ∀ c', c'.Valid → p.Admits c' →
      (P (c'.choice m) ↔ change.1.test (c'.choice m) = true) := fun c' _ hold =>
    ⟨fun hp' => (hcut c' hold hp').test, fun htest => hc.only _ htest⟩
  rw [changeMask, hok]
  refine ⟨_, changed, rfl, ?_, ?_, ?_, fun var hvar => (demand_rmask hvar).1, ?_, ?_⟩
  · intro c' hc'
    exact (admits_congr (demand_masks _ _) (demand_intervals _ _)).trans
      (setMask_admits hc.sub hkept hc')
  · rw [demand_intervals]
    exact fun v => .refl _
  · rw [demand_masks]
    intro k hk
    by_cases hm : .format = m
    · subst hm
      rw [setMask_same] at hk
      exact hc.sub k hk
    · rwa [setMask_of_ne hm] at hk
  · rw [demand_intervals]
    exact fun _ _ => rfl
  · rw [demand_masks]
    intro n hn
    by_cases heq : n = m
    · subst heq
      rw [setMask_same]
      exact hsame ((demand_rmask hn).2 rfl)
    · exact setMask_of_ne heq

/-- A request takes away the configurations that do not meet it. -/
theorem change_spec (hvalid : c.Valid) (hadmits : p.Admits c)
    (hsettled : ∀ v, (p.intervals v).Settled) (hr : r.Meets c) :
    ∃ q changed, p.change r = (q, .ok changed) ∧ Changed (fun c' => r.Meets c') p q := by
  cases r with
  | setMin var val dir =>
    exact changeInterval_spec hvalid hadmits hr fun c' hc' hold hmeets =>
      Interval.cut_refineMin (hc'.representable var) (hold.interval var)
        (fun hint => ((hsettled var).closed hint).1) hmeets
  | setMax var val dir =>
    exact changeInterval_spec hvalid hadmits hr fun c' hc' hold hmeets =>
      Interval.cut_refineMax (hold.interval var)
        (fun hint => ((hsettled var).closed hint).2) hmeets
  | setMinmax var min mindir max maxdir =>
    exact changeInterval_spec (P := fun y =>
        Above ((minBound min mindir).1 : ℚ) (minBound min mindir).2 y ∧
          Below ((maxBound max maxdir).1 : ℚ) (maxBound max maxdir).2 y) hvalid hadmits hr
      fun c' hc' hold hmeets => Interval.cut_refineMinmax (hc'.representable var)
        (hold.interval var) (hsettled var) hmeets.1 hmeets.2
  | setInterval var val dir =>
    exact changeInterval_spec hvalid hadmits hr fun c' hc' hold hmeets =>
      Interval.cut_set (hc'.representable var) (hold.interval var) (hsettled var) hmeets
  | setInteger var =>
    exact changeInterval_spec (P := fun y => ∃ n : ℕ, y = n) hvalid hadmits hr
      fun c' hc' hold hmeets => Interval.cut_setinteger (hold.interval var) hmeets.choose_spec
  | setChoice var val dir =>
    exact changeMask_spec hadmits hr fun c' hold hmeets =>
      Mask.cut_set (hold.mask var) hmeets
  | setMask var val =>
    exact changeMask_spec (P := fun k => val.test k = true) hadmits hr fun c' hold hmeets =>
      Mask.cut_refine (hold.mask var) hmeets

theorem isEmpty_of_admits (hadmits : p.Admits c) (r : Request) : p.isEmpty r = false := by
  cases r <;> first | rfl | exact (hadmits.interval _).nonempty

theorem marked_eq_false (h : p.marked = false) (var : HwParam) : p.rmask var = false := by
  have hany := List.any_eq_false.mp h var (mem_tableParams var)
  exact Bool.eq_false_iff.mpr hany

/-- A request that some configuration meets is accepted. -/
theorem request_spec (hvalid : c.Valid) (hadmits : p.Admits c) (hrested : p.Rested)
    (hr : r.Meets c) : ∃ (q : HwParams) (bound : Nat), q.Rested ∧
      (∀ c', c'.Valid → (q.Admits c' ↔ p.Admits c' ∧ r.Meets c')) ∧
      ∀ fuel, bound < fuel → p.request (refineSoft fuel) r = some (.ok q) := by
  obtain ⟨p', changed, hok, hchange⟩ := change_spec hvalid hadmits hrested.settled hr
  have hleft : p'.Admits c := (hchange.admits c hvalid).mpr ⟨hadmits, hr⟩
  cases hmarked : p'.marked with
  | true =>
    have hready : p'.Ready := by
      intro v hv
      rw [hchange.intervals v hv]
      exact ⟨hrested.settled v, hrested.within v⟩
    obtain ⟨q, bound, hq, hsame, hrefine⟩ := refineSoft_ends hvalid hleft hready
    refine ⟨q, bound, hq, fun c' hc' => (hsame c' hc').trans (hchange.admits c' hc'), ?_⟩
    intro fuel hfuel
    have hempty := isEmpty_of_admits ((hsame c hvalid).mpr hleft) r
    simp only [request, hok, hmarked, if_true, hrefine fuel hfuel, hempty, Bool.false_eq_true,
      if_false]
  | false =>
    have hidle := marked_eq_false hmarked
    refine ⟨p', 0, ⟨?_, ?_, hidle⟩, hchange.admits, ?_⟩
    · intro v
      rw [hchange.intervals v (hidle _)]
      exact hrested.settled v
    · intro v
      rw [hchange.intervals v (hidle _)]
      exact hrested.within v
    · intro fuel _
      simp only [request, hok, hmarked, Bool.false_eq_true, if_false]

theorem request_mono {fuel more : Nat} {res : Except Stop HwParams} (hle : fuel ≤ more)
    (h : p.request (refineSoft fuel) r = some res) :
    p.request (refineSoft more) r = some res := by
  unfold request at h ⊢
  split at h
  · exact h
  · split at h
    · next hmarked =>
      rw [if_pos hmarked]
      split at h
      · cases h
      · next hrefine =>
        rw [refineSoft_mono hle hrefine]
        exact h
      · next hrefine =>
        rw [refineSoft_mono hle hrefine]
        exact h
    · next hmarked =>
      rw [if_neg hmarked]
      exact h

end HwParams

namespace Session
variable {s s' : Session} {c : Config} {fuel : Nat} {r : Request} {rs : List Request}

theorem any_admits (hvalid : c.Valid) : HwParams.any.Admits c := by
  refine ⟨fun m => ?_, fun v => ?_⟩
  · have hlt := Mask.test_lt (hvalid.masks m)
    show (BitVec.allOnes 64).getLsbD (c.choice m) = true
    rw [BitVec.getLsbD_allOnes]
    exact decide_eq_true hlt
  · have hx := hvalid.representable v
    refine ⟨rfl, le_rfl, .closed ?_, .closed hx.lt.le, fun h => nomatch h⟩
    show ((0 : ℕ) : ℚ) ≤ c.value v
    rw [Nat.cast_zero]
    exact hx.pos.le

/-- The parameters admit what the accepted requests ask for. -/
def Kept (s : Session) : Prop := ∀ c, c.Valid → (∀ r ∈ s.accepted, r.Meets c) →
  s.params.Rested ∧ ∀ c', c'.Valid → (s.params.Admits c' ↔ ∀ r ∈ s.accepted, r.Meets c')

theorem start_kept {p : HwParams} (h : HwParams.any.refineSoft fuel = some (.ok p)) :
    Kept ⟨p, []⟩ := by
  intro c hvalid _
  obtain ⟨q, bound, hrested, hsame, hrefine⟩ :=
    HwParams.refineSoft_ends hvalid (any_admits hvalid) (fun _ h => nomatch h)
  have hq := hrefine (max fuel (bound + 1)) (Nat.lt_of_succ_le (le_max_right _ _))
  rw [HwParams.refineSoft_mono (le_max_left _ _) h] at hq
  cases hq
  refine ⟨hrested, fun c' hc' => ?_⟩
  rw [hsame c' hc']
  exact ⟨fun _ => List.forall_mem_nil _, fun _ => any_admits hc'⟩

theorem ask_cases (h : s.ask fuel r = some s') : s' = s ∨
    ∃ q, s.params.request (HwParams.refineSoft fuel) r = some (.ok q) ∧
      s' = ⟨q, s.accepted ++ [r]⟩ := by
  unfold ask at h
  split at h
  · next q hrequest => exact .inr ⟨q, hrequest, (Option.some.inj h).symm⟩
  · exact .inl (Option.some.inj h).symm
  · exact .inl (Option.some.inj h).symm
  · cases h

theorem ask_kept (hkept : s.Kept) (h : s.ask fuel r = some s') : s'.Kept := by
  rcases ask_cases h with rfl | ⟨p, hrequest, rfl⟩
  · exact hkept
  · intro c hvalid hmeets
    have hold : ∀ r ∈ s.accepted, r.Meets c := fun r hr =>
      hmeets r (List.mem_append_left _ hr)
    have hnew : r.Meets c := hmeets r (List.mem_append_right _ (List.mem_singleton.mpr rfl))
    obtain ⟨hrested, hadmits⟩ := hkept c hvalid hold
    obtain ⟨q, bound, hq, hsame, haccepts⟩ :=
      HwParams.request_spec hvalid ((hadmits c hvalid).mpr hold) hrested hnew
    have hagain := haccepts (max fuel (bound + 1)) (Nat.lt_of_succ_le (le_max_right _ _))
    rw [HwParams.request_mono (le_max_left _ _) hrequest] at hagain
    cases hagain
    refine ⟨hq, fun c' hc' => ?_⟩
    rw [hsame c' hc', hadmits c' hc']
    simp only [List.mem_append, List.mem_singleton, or_imp, forall_and, forall_eq]

theorem run_start (h : Session.run fuel rs = some s) :
    ∃ p, HwParams.any.refineSoft fuel = some (.ok p) ∧
      Machine.run (ask fuel) ⟨p, []⟩ rs = some s := by
  unfold Session.run at h
  split at h
  · next p hstart => exact ⟨p, hstart, h⟩
  · cases h

theorem run_kept (h : Session.run fuel rs = some s) : s.Kept := by
  obtain ⟨p, hstart, hrun⟩ := run_start h
  exact Machine.run_induction (P := Kept) (fun _ _ _ => ask_kept) (start_kept hstart) hrun

/-- The order of the requests is of no account, and none of them is refused that can be met
together with those before. -/
theorem session_admits (h : Session.run fuel rs = some s) (hvalid : c.Valid)
    (hmeets : ∀ r ∈ s.accepted, r.Meets c) :
    (∀ c', c'.Valid → (s.params.Admits c' ↔ ∀ r ∈ s.accepted, r.Meets c')) ∧
      ∀ r : Request, r.Meets c → ∃ q bound, ∀ fuel, bound < fuel →
        s.params.request (HwParams.refineSoft fuel) r = some (.ok q) := by
  obtain ⟨hrested, hadmits⟩ := run_kept h c hvalid hmeets
  refine ⟨hadmits, fun r hr => ?_⟩
  obtain ⟨q, bound, -, -, haccepts⟩ :=
    HwParams.request_spec hvalid ((hadmits c hvalid).mpr hmeets) hrested hr
  exact ⟨q, bound, haccepts⟩

/-- Two channels of 16 bits at 48 kHz, in four periods of 25 ms. -/
def stereo : Config where
  choice
    | .format => 2
    | _ => 0
  value
    | .sampleBits => 16
    | .frameBits => 32
    | .channels => 2
    | .rate => 48000
    | .periodTime => 25000
    | .periodSize => 1200
    | .periodBytes => 4800
    | .periods => 4
    | .bufferTime => 100000
    | .bufferSize => 4800
    | .bufferBytes => 19200
    | .tickTime => 10000

theorem stereo_valid : stereo.Valid := by
  have hvalue : ∀ v, ∃ n : ℕ, stereo.value v = n ∧ 0 < n ∧ n < UINT_MAX ∧
      (refineIntervals v).lo ≤ 2 * n ∧ 2 * n + 1 ≤ (refineIntervals v).hi := by
    intro v
    cases v <;> exact ⟨_, Nat.cast_ofNat.symm, by decide, by decide, by decide, by decide⟩
  refine ⟨fun v => ?_, fun m => ?_, fun v => ?_, ⟨16, rfl, rfl⟩, ?_, ?_, ?_, ?_, ?_, ?_⟩
  · obtain ⟨n, hn, hpos, hlt, -⟩ := hvalue v
    rw [hn]
    exact ⟨Nat.cast_pos.mpr hpos, Nat.cast_lt.mpr hlt⟩
  · cases m <;> decide
  · obtain ⟨n, hn, -, hlt, hlo, hhi⟩ := hvalue v
    have hpoint : Interval.Contains ⟨n, n, false, false, true, false⟩ (n : ℚ) :=
      ⟨rfl, hlt.le, .closed le_rfl, .closed le_rfl, fun _ => ⟨n, rfl⟩⟩
    rw [hn]
    exact hpoint.mono ⟨hlo, hhi, fun _ => rfl⟩ (by cases v <;> rfl) (by cases v <;> decide)
  all_goals norm_num [stereo]

theorem session_admits_sample : ∃ s, Session.run 40 [.setChoice .format 2 0,
    .setInterval .channels 2 0, .setInterval .frameBits 24 0, .setMax .rate 48000 0,
    .setMin .periods 2 1] = some s ∧ s.accepted = [.setChoice .format 2 0,
    .setInterval .channels 2 0, .setMax .rate 48000 0, .setMin .periods 2 1] ∧
    ∃ q bound, ∀ fuel, bound < fuel →
      s.params.request (HwParams.refineSoft fuel) (.setInteger .periods) = some (.ok q) := by
  have hrun : (Session.run 40 [.setChoice .format 2 0, .setInterval .channels 2 0,
      .setInterval .frameBits 24 0, .setMax .rate 48000 0,
      .setMin .periods 2 1]).map Session.accepted = some [.setChoice .format 2 0,
      .setInterval .channels 2 0, .setMax .rate 48000 0, .setMin .periods 2 1] := by
    decide +kernel
  obtain ⟨s, hs, haccepted⟩ := Option.map_eq_some_iff.mp hrun
  refine ⟨s, hs, haccepted, ?_⟩
  refine (session_admits hs stereo_valid ?_).2 _ ⟨4, ?_⟩
  · rw [haccepted]
    simp only [List.mem_cons, List.not_mem_nil, or_false, forall_eq_or_imp, forall_eq]
    refine ⟨⟨by decide, rfl⟩, rfl, .closed ?_, .of_lt ?_⟩ <;> norm_num [maxBound, minBound, stereo]
  · rfl

end Session
end Codinalte.Alsa
