import Codinalte.Alsa.Rules

/-! The refinement of the hardware parameters in software, on parameters that admit a
configuration: the tables and the rules take away none, and the rules come to an end. -/

namespace Codinalte.Alsa
open StampedRules

namespace HwParams
variable {p p' p₀ : HwParams} {c : Config} {r : HwRule} {changed : Bool}

/-- The parts of the store that the rules read and write. -/
theorem done_congr (hmasks : p'.masks = p.masks) (hintervals : p'.intervals = p.intervals) :
    p'.Done r ↔ p.Done r := by
  cases r <;> simp only [Done, hmasks, hintervals]

/-- The parameters that admit a configuration are told by their masks and intervals. -/
theorem admits_congr {c' : Config} (hmasks : p'.masks = p.masks)
    (hintervals : p'.intervals = p.intervals) : p'.Admits c' ↔ p.Admits c' := by
  constructor
  · exact fun h => ⟨hmasks ▸ h.mask, hintervals ▸ h.interval⟩
  · exact fun h => ⟨hmasks ▸ h.mask, hintervals ▸ h.interval⟩

theorem mark_admits {var : HwParam} {e : Except Stop Bool} {c' : Config} :
    (p.mark var e).Admits c' ↔ p.Admits c' :=
  admits_congr (mark_masks var e) (mark_intervals var e)

theorem mark_good {var : HwParam} {e : Except Stop Bool} (h : Good p₀ c p) :
    Good p₀ c (p.mark var e) := by
  refine ⟨h.valid, mark_admits.mpr h.admits, ?_, ?_, fun c' hv => mark_admits.trans (h.same c' hv)⟩
  · rw [mark_intervals]
    exact h.settled
  · rw [mark_intervals]
    exact h.within

theorem mark_size {var : HwParam} {e : Except Stop Bool} : (p.mark var e).size = p.size := by
  rw [size, size, mark_masks, mark_intervals]

theorem run_step (h : Good p₀ c p) (hr : r ∈ refineRules) :
    ∃ p' changed, r.run p = (p', .ok changed) ∧ Good p₀ c p' ∧ Step r changed p p' := by
  obtain ⟨q, changed, hfunc, hgood, hstep⟩ := func_step h hr
  refine ⟨q.mark r.var (.ok changed), changed, ?_, mark_good hgood, ?_⟩
  · rw [HwRule.run, hfunc]
  · refine ⟨?_, ?_, ?_, ?_, ?_, ?_, ?_⟩
    · intro hchanged
      subst hchanged
      exact hstep.same rfl
    · intro hchanged
      rw [mark_size]
      exact hstep.smaller hchanged
    · exact (done_congr (mark_masks _ _) (mark_intervals _ _)).mpr hstep.done
    · intro m hm
      rw [mark_masks]
      exact hstep.masks m hm
    · intro v hv
      rw [mark_intervals]
      exact hstep.intervals v hv
    · rw [mark_intervals]
      exact hstep.fits
    · rw [mark_masks]
      exact hstep.sub

/-- What a rule has seen to stays, as long as nothing that it reads changes. -/
theorem Done.mono (hdone : p.Done r) (hfits : ∀ v, (p'.intervals v).Fits (p.intervals v))
    (hsub : ∀ k, (p'.masks .format).test k = true → (p.masks .format).test k = true)
    (hintervals : ∀ v, .interval v ∈ r.deps → p'.intervals v = p.intervals v)
    (hmasks : ∀ m, .mask m ∈ r.deps → p'.masks m = p.masks m) : p'.Done r := by
  cases r with
  | interval var f dep dep' =>
    obtain ⟨t, ht, hwithin⟩ := hdone
    refine ⟨t, ?_, (hfits var).trans hwithin⟩
    rw [hintervals dep (by simp [HwRule.deps]), hintervals dep' (by simp [HwRule.deps])]
    exact ht
  | format =>
    intro k hk htest
    rw [hintervals .sampleBits (by simp [HwRule.deps])]
    exact hdone k hk (hsub k htest)
  | sampleBits =>
    show (p'.intervals .sampleBits).Fits (widthInterval (p'.masks .format))
    rw [hmasks .format (by simp [HwRule.deps])]
    exact (hfits .sampleBits).trans hdone

/-- A rule that has seen to it has nothing to do. -/
theorem func_done (h : Good p₀ c p) (hr : r ∈ refineRules) (hdone : p.Done r) :
    r.func p = (p, .ok false) := by
  cases r with
  | interval var f dep dep' =>
    obtain ⟨t, ht, hwithin⟩ := hdone
    rw [func_interval, ht, refineWith, Interval.refine_idle (h.valid.representable var)
      (h.admits.interval var) (h.settled var) hwithin, setInterval_self]
  | format =>
    show p.ruleFormat = (p, .ok false)
    rw [ruleFormat, dropFormats_idle hdone, setMask_self]
  | sampleBits =>
    show p.ruleSampleBits = (p, .ok false)
    rw [sampleBits_refine h, refineWith, Interval.refine_idle
      (h.valid.representable .sampleBits) (h.admits.interval .sampleBits) (h.settled .sampleBits)
      hdone, setInterval_self]

theorem stable_of_done (h : Good p₀ c p) (k : { r // r ∈ refineRules }) (hdone : p.Done k.1) :
    hwRules.Stable k p := by
  show k.1.run p = (p, .ok false)
  rw [HwRule.run, func_done h k.2 hdone]
  rfl

theorem done_of_stable (h : Good p₀ c p) {k : { r // r ∈ refineRules }}
    (hstable : hwRules.Stable k p) : p.Done k.1 := by
  obtain ⟨p', changed, hrun, -, hstep⟩ := run_step h k.2
  have hsame : (p', Except.ok changed) = (p, .ok false) := hrun.symm.trans hstable
  obtain ⟨rfl, -⟩ := Prod.mk.inj hsame
  exact hstep.done

theorem mem_order (k : { r // r ∈ refineRules }) : k ∈ hwRules.order := List.mem_attach _ k

theorem hwRules_lawful : hwRules.Lawful (Good p₀ c) := by
  refine ⟨?_, ?_, ?_, ?_⟩
  · intro k p changed hgood hok
    obtain ⟨p', changed', hrun, hgood', -⟩ := run_step hgood k.2
    have hrun' : hwRules.run k p = (p', .ok changed') := hrun
    rw [hrun']
    exact hgood'
  · intro k p hgood hok
    obtain ⟨p', changed', hrun, -, hstep⟩ := run_step hgood k.2
    have hrun' : hwRules.run k p = (p', .ok changed') := hrun
    rw [hrun'] at hok ⊢
    exact hstep.same (Except.ok.inj hok)
  · intro k p hgood _
    obtain ⟨p', changed', hrun, hgood', hstep⟩ := run_step hgood k.2
    have hrun' : hwRules.run k p = (p', .ok changed') := hrun
    rw [hrun']
    exact stable_of_done hgood' k hstep.done
  · intro j k p hgood _ hvar hstable
    obtain ⟨p', changed', hrun, hgood', hstep⟩ := run_step hgood j.2
    have hrun' : hwRules.run j p = (p', .ok changed') := hrun
    rw [hrun']
    have hne : ∀ {var : HwParam}, var ∈ k.1.deps → var ≠ j.1.var := by
      rintro var hmem rfl
      exact hvar hmem
    refine stable_of_done hgood' k ((done_of_stable hgood hstable).mono hstep.fits hstep.sub ?_ ?_)
    · exact fun v hv => hstep.intervals v (hne hv)
    · exact fun m hm => hstep.masks m (hne hm)

theorem hwRules_descends : hwRules.Descends (Good p₀ c) size := by
  refine ⟨?_, ?_⟩
  · intro k p hgood
    obtain ⟨p', changed, hrun, -, -⟩ := run_step hgood k.2
    exact ⟨changed, congrArg Prod.snd hrun⟩
  · intro k p hgood hok
    obtain ⟨p', changed, hrun, -, hstep⟩ := run_step hgood k.2
    have hrun' : hwRules.run k p = (p', .ok changed) := hrun
    rw [hrun'] at hok ⊢
    exact hstep.smaller (Except.ok.inj hok)

/-- What the tables do to the parameters that are marked. -/
structure Tabled (vars : List HwParam) (p q : HwParams) : Prop where
  admits : ∀ c', c'.Valid → (q.Admits c' ↔ p.Admits c')
  fits : ∀ v, (q.intervals v).Fits (p.intervals v)
  sub : ∀ k, (q.masks .format).test k = true → (p.masks .format).test k = true
  rmask : q.rmask = p.rmask
  intervals : ∀ v, .interval v ∉ vars ∨ p.rmask (.interval v) = false →
    q.intervals v = p.intervals v
  masks : ∀ m, .mask m ∉ vars ∨ p.rmask (.mask m) = false → q.masks m = p.masks m
  within : ∀ v, .interval v ∈ vars → p.rmask (.interval v) = true →
    (q.intervals v).Settled ∧ (q.intervals v).Fits (refineIntervals v)

theorem Tabled.refl (p : HwParams) : Tabled [] p p :=
  ⟨fun _ _ => .rfl, fun _ => .refl _, fun _ => id, rfl, fun _ _ => rfl, fun _ _ => rfl,
  fun _ h => nomatch h⟩

theorem Tabled.skip {var : HwParam} {vars : List HwParam} {q : HwParams}
    (hvar : p.rmask var = false) (h : Tabled vars p q) : Tabled (var :: vars) p q := by
  have hrest : ∀ {w : HwParam}, w ∉ var :: vars ∨ p.rmask w = false →
      w ∉ vars ∨ p.rmask w = false :=
    fun hw => hw.imp_left fun hmem => fun hw' => hmem (List.mem_cons_of_mem _ hw')
  refine ⟨h.admits, h.fits, h.sub, h.rmask, fun v hv => h.intervals v (hrest hv),
    fun m hm => h.masks m (hrest hm), ?_⟩
  intro v hv hmarked
  rcases List.mem_cons.mp hv with rfl | hv
  · cases hvar.symm.trans hmarked
  · exact h.within v hv hmarked

theorem Tabled.cons {var : HwParam} {vars : List HwParam} {q : HwParams} (h : Tabled [var] p p')
    (h' : Tabled vars p' q) : Tabled (var :: vars) p q := by
  have hhead : ∀ {w : HwParam}, w ∉ var :: vars ∨ p.rmask w = false →
      w ∉ [var] ∨ p.rmask w = false :=
    fun hw => hw.imp_left fun hmem => fun hw' =>
      hmem (List.mem_cons.mpr (.inl (List.mem_singleton.mp hw')))
  have htail : ∀ {w : HwParam}, w ∉ var :: vars ∨ p.rmask w = false →
      w ∉ vars ∨ p'.rmask w = false := by
    intro w hw
    rw [h.rmask]
    exact hw.imp_left fun hmem => fun hw' => hmem (List.mem_cons_of_mem _ hw')
  refine ⟨fun c' hc => (h'.admits c' hc).trans (h.admits c' hc),
    fun v => (h'.fits v).trans (h.fits v), fun k hk => h.sub k (h'.sub k hk),
    h'.rmask.trans h.rmask, ?_, ?_, ?_⟩
  · exact fun v hv => (h'.intervals v (htail hv)).trans (h.intervals v (hhead hv))
  · exact fun m hm => (h'.masks m (htail hm)).trans (h.masks m (hhead hm))
  · intro v hv hmarked
    by_cases hmem : .interval v ∈ vars
    · exact h'.within v hmem (by rw [h.rmask]; exact hmarked)
    · rw [h'.intervals v (.inl hmem)]
      rcases List.mem_cons.mp hv with rfl | hv
      · exact h.within v (List.mem_singleton.mpr rfl) hmarked
      · exact absurd hv hmem

/-- One parameter and its table. -/
def refineTable (p : HwParams) : HwParam → HwParams × Except Stop Bool
  | .mask m => (p.setMask m ((p.masks m).refine (refineMasks m)).1,
      ((p.masks m).refine (refineMasks m)).2)
  | .interval v => (p.setInterval v ((p.intervals v).refine (refineIntervals v)).1,
      ((p.intervals v).refine (refineIntervals v)).2)

theorem refineTables_cons (p : HwParams) (var : HwParam) (vars : List HwParam) :
    p.refineTables (var :: vars) =
      if p.rmask var then
        match (p.refineTable var).2 with
        | .error e => .error (e, (p.refineTable var).1.mark var (.error e))
        | .ok changed => ((p.refineTable var).1.mark var (.ok changed)).refineTables vars
      else p.refineTables vars := by
  cases var with
  | mask m =>
    show (if p.rmask (.mask m) then _ else _) = _
    congr 1
    simp only [refineTable]
    split <;> simp only [*]
  | interval v =>
    show (if p.rmask (.interval v) then _ else _) = _
    congr 1
    simp only [refineTable]
    split <;> simp only [*]

theorem mark_rmask (var : HwParam) (e : Except Stop Bool) : (p.mark var e).rmask = p.rmask := by
  rcases e with e | ⟨_ | _⟩ <;> rfl

theorem refineTable_spec (hvalid : c.Valid) (hadmits : p.Admits c) {var : HwParam}
    (hvar : p.rmask var = true) : ∃ changed, (p.refineTable var).2 = .ok changed ∧
      Tabled [var] p ((p.refineTable var).1.mark var (.ok changed)) := by
  have hne : ∀ {w : HwParam}, w ∉ [var] ∨ p.rmask w = false → w ≠ var := by
    rintro w (hw | hw) rfl
    · exact hw (List.mem_singleton.mpr rfl)
    · cases hvar.symm.trans hw
  cases var with
  | mask m =>
    obtain ⟨hand, changed, hok, -⟩ := Mask.refine_spec (hadmits.mask m) (hvalid.masks m)
    have hsub : ∀ k, ((p.masks m).refine (refineMasks m)).1.test k = true →
        (p.masks m).test k = true := by
      intro k hk
      rw [hand, Mask.test_and, Bool.and_eq_true] at hk
      exact hk.1
    have hkept : ∀ c', c'.Valid → p.Admits c' →
        (True ↔ ((p.masks m).refine (refineMasks m)).1.test (c'.choice m) = true) := by
      intro c' hc' hold
      rw [hand, Mask.test_and, hold.mask m, hc'.masks m, Bool.true_and, true_iff]
    refine ⟨changed, hok, ?_, ?_, ?_, mark_rmask _ _, ?_, ?_, ?_⟩
    · intro c' hc'
      have hset := setMask_admits (P := fun _ => True) hsub hkept hc'
      exact mark_admits.trans (hset.trans (and_iff_left trivial))
    · rw [mark_intervals]
      exact fun v => .refl _
    · rw [mark_masks]
      intro k hk
      by_cases hm : .format = m
      · subst hm
        rw [refineTable, setMask_same] at hk
        exact hsub k hk
      · rwa [refineTable, setMask_of_ne hm] at hk
    · rw [mark_intervals]
      exact fun v _ => rfl
    · rw [mark_masks]
      exact fun n hn => setMask_of_ne fun heq => hne hn (congrArg _ heq)
    · intro v hv
      cases List.mem_singleton.mp hv
  | interval v =>
    obtain ⟨changed, hok, hrefined, hsame⟩ :=
      refine_admits hvalid hadmits fun c' hc' _ => hc'.intervals v
    refine ⟨changed, hok, ?_, ?_, ?_, mark_rmask _ _, ?_, ?_, ?_⟩
    · exact fun c' hc' => mark_admits.trans (hsame c' hc')
    · rw [mark_intervals]
      exact setInterval_fits hrefined.fits
    · rw [mark_masks]
      exact fun _ hk => hk
    · rw [mark_intervals]
      exact fun w hw => setInterval_of_ne fun heq => hne hw (congrArg _ heq)
    · rw [mark_masks]
      exact fun _ _ => rfl
    · intro w hw _
      cases List.mem_singleton.mp hw
      rw [mark_intervals, refineTable, setInterval_same]
      exact ⟨hrefined.settled, hrefined.within⟩

theorem refineTables_spec (hvalid : c.Valid) (vars : List HwParam) (hadmits : p.Admits c) :
    ∃ q, p.refineTables vars = .ok q ∧ Tabled vars p q := by
  induction vars generalizing p with
  | nil => exact ⟨p, rfl, .refl p⟩
  | cons var vars ih =>
    cases hvar : p.rmask var with
    | false =>
      obtain ⟨q, hrest, htabled⟩ := ih hadmits
      refine ⟨q, ?_, htabled.skip hvar⟩
      rw [refineTables_cons, if_neg (Bool.eq_false_iff.mp hvar)]
      exact hrest
    | true =>
      obtain ⟨changed, hok, htable⟩ := refineTable_spec hvalid hadmits hvar
      obtain ⟨q, hrest, htabled⟩ := ih ((htable.admits c hvalid).mpr hadmits)
      refine ⟨q, ?_, htable.cons htabled⟩
      rw [refineTables_cons, if_pos hvar, hok]
      exact hrest

theorem finishRefine_spec (hadmits : p.Admits c) : ∃ q, p.finishRefine = .ok q ∧
    q.masks = p.masks ∧ q.intervals = p.intervals ∧ ∀ var, q.rmask var = false := by
  have hsingle : ∀ v, ∃ single, (p.intervals v).single = .ok single := fun v =>
    ⟨_, if_neg (Bool.eq_false_iff.mp (hadmits.interval v).nonempty)⟩
  obtain ⟨bits, hbits⟩ := hsingle .sampleBits
  obtain ⟨rate, hrate⟩ := hsingle .rate
  unfold finishRefine
  simp only [hbits]
  by_cases hmsbits : p.msbits = 0 <;> by_cases hden : p.rateDen = 0
  · cases bits <;> cases rate <;>
      simp [hmsbits, hden, hrate, bind, Except.bind, pure, Except.pure]
  · cases bits <;> simp [hmsbits, hden, bind, Except.bind, pure, Except.pure]
  · cases rate <;> simp [hmsbits, hden, hrate, bind, Except.bind, pure, Except.pure]
  · simp [hmsbits, hden, bind, Except.bind, pure, Except.pure]

/-- What was not marked is as the last refinement has left it. -/
def Ready (p : HwParams) : Prop := ∀ v, p.rmask (.interval v) = false →
  (p.intervals v).Settled ∧ (p.intervals v).Fits (refineIntervals v)

/-- What a refinement leaves. -/
structure Rested (p : HwParams) : Prop where
  settled : ∀ v, (p.intervals v).Settled
  within : ∀ v, (p.intervals v).Fits (refineIntervals v)
  idle : ∀ var, p.rmask var = false

theorem mem_tableParams (var : HwParam) : var ∈ tableParams := by
  cases var with
  | mask m => cases m <;> decide
  | interval v => cases v <;> decide

/-- The rules start on a good store. -/
theorem good_of_ready (hvalid : c.Valid) (hadmits : p.Admits c) (hready : p.Ready) :
    ∃ q, p.refineTables tableParams = .ok q ∧ Tabled tableParams p q ∧ Good p c q := by
  obtain ⟨q, htables, htabled⟩ := refineTables_spec hvalid tableParams hadmits
  have hsettled : ∀ v, (q.intervals v).Settled ∧ (q.intervals v).Fits (refineIntervals v) := by
    intro v
    cases hv : p.rmask (.interval v) with
    | true => exact htabled.within v (mem_tableParams _) hv
    | false =>
      rw [htabled.intervals v (.inr hv)]
      exact hready v hv
  exact ⟨q, htables, htabled, hvalid, (htabled.admits c hvalid).mpr hadmits,
    fun v => (hsettled v).1, fun v => (hsettled v).2, htabled.admits⟩

/-- The rules come to an end, on a good store. -/
theorem refineLoop_ends (hvalid : c.Valid) (hadmits : p.Admits c) (hready : p.Ready) :
    ∃ (l : HwLoop) (bound : Nat), Good p c l.store ∧
      ∀ fuel, bound < fuel → p.refineLoop fuel = some (.ok l) := by
  obtain ⟨q, htables, -, hgood⟩ := good_of_ready hvalid hadmits hready
  have hstart : Good p c q.startLoop.store := hgood
  obtain ⟨l, hrounds, hl⟩ := Rules.rounds_ends hwRules_lawful hwRules_descends stampModulus
    hstart (Nat.lt_succ_self q.size)
  refine ⟨l, q.size, hl, fun fuel hfuel => ?_⟩
  rw [refineLoop, htables]
  exact Rules.rounds_mono hfuel hrounds

theorem refineSoft_ends (hvalid : c.Valid) (hadmits : p.Admits c) (hready : p.Ready) :
    ∃ (q : HwParams) (bound : Nat), q.Rested ∧
      (∀ c', c'.Valid → (q.Admits c' ↔ p.Admits c')) ∧
      ∀ fuel, bound < fuel → p.refineSoft fuel = some (.ok q) := by
  obtain ⟨l, bound, hgood, hloop⟩ := refineLoop_ends hvalid hadmits hready
  obtain ⟨q, hfinish, hmasks, hintervals, hidle⟩ := finishRefine_spec hgood.admits
  refine ⟨q, bound, ⟨?_, ?_, hidle⟩, ?_, fun fuel hfuel => ?_⟩
  · rw [hintervals]
    exact hgood.settled
  · rw [hintervals]
    exact hgood.within
  · exact fun c' hc' => (admits_congr hmasks hintervals).trans (hgood.same c' hc')
  · rw [refineSoft, hloop fuel hfuel]
    exact congrArg some hfinish

theorem refineSoft_mono {fuel more : Nat} {res : Except (Stop × HwParams) HwParams}
    (hle : fuel ≤ more) (h : p.refineSoft fuel = some res) : p.refineSoft more = some res := by
  rw [refineSoft, Option.map_eq_some_iff] at h ⊢
  obtain ⟨loop, hloop, hres⟩ := h
  refine ⟨loop, ?_, hres⟩
  rw [refineLoop] at hloop ⊢
  split at hloop
  · exact hloop
  · exact Rules.rounds_mono hle hloop

end HwParams
end Codinalte.Alsa
