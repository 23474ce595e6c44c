import Codinalte.Alsa.Sessions

/-! The stamps of the refinement save work and change nothing: what a session comes to is what
running every rule in every round comes to, and no rule has anything left to do on it. -/

namespace Codinalte.Alsa
open StampedRules

namespace HwParams
variable {p q p₀ : HwParams} {c : Config} {fuel : Nat}

/-- The refinement without the stamps. -/
def refinePlain (fuel : Nat) (p : HwParams) : Option (Except (Stop × HwParams) HwParams) :=
  match p.refineTables tableParams with
  | .error e => some (.error e)
  | .ok q => (hwRules.plainRounds fuel q).map fun r =>
    match r with
    | .error e => .error e
    | .ok q => q.finishRefine

/-- A rule has been seen to, or something that it reads is marked. -/
def Closed (p : HwParams) : Prop :=
  ∀ r ∈ refineRules, p.Done r ∨ ∃ d ∈ r.deps, p.rmask d = true

theorem Done.closed {r : HwRule} (hdone : p.Done r)
    (hfits : ∀ v, (q.intervals v).Fits (p.intervals v))
    (hsub : ∀ k, (q.masks .format).test k = true → (p.masks .format).test k = true)
    (hintervals : ∀ v, q.rmask (.interval v) = false → q.intervals v = p.intervals v)
    (hmasks : ∀ m, q.rmask (.mask m) = false → q.masks m = p.masks m) :
    q.Done r ∨ ∃ d ∈ r.deps, q.rmask d = true := by
  by_cases hmarked : ∃ d ∈ r.deps, q.rmask d = true
  · exact .inr hmarked
  · have hidle : ∀ d ∈ r.deps, q.rmask d = false := fun d hd =>
      Bool.eq_false_iff.mpr fun hmark => hmarked ⟨d, hd, hmark⟩
    exact .inl (hdone.mono hfits hsub (fun v hv => hintervals v (hidle _ hv))
      fun m hm => hmasks m (hidle _ hm))

theorem Changed.closed {meets : Config → Prop} (h : Changed meets p q)
    (hdone : ∀ r ∈ refineRules, p.Done r) : q.Closed := fun r hr =>
  (hdone r hr).closed h.fits h.sub h.intervals h.masks

theorem Tabled.closed {vars : List HwParam} (h : Tabled vars p q) (hclosed : p.Closed) :
    q.Closed := by
  intro r hr
  rw [h.rmask]
  rcases hclosed r hr with hdone | hmarked
  · rw [← h.rmask]
    refine hdone.closed h.fits h.sub (fun v hv => h.intervals v (.inr ?_))
      fun m hm => h.masks m (.inr ?_)
    · rwa [h.rmask] at hv
    · rwa [h.rmask] at hm
  · exact .inr hmarked

theorem startLoop_fresh (hgood : Good p₀ c p) (hclosed : p.Closed) :
    hwRules.Fresh p.startLoop := by
  refine ⟨rfl, fun _ => Nat.zero_lt_two, fun var => ?_, fun k => ?_⟩
  · show (if p.rmask var then 1 else 0) < 2
    split <;> decide
  · rcases hclosed k.1 k.2 with hdone | ⟨d, hd, hmark⟩
    · exact .inr (stable_of_done hgood k hdone)
    · refine .inl (Rules.due_of_mem hd ?_)
      show 0 < if p.rmask d then 1 else 0
      rw [if_pos hmark]
      exact Nat.zero_lt_one

/-- As long as the stamps do not come round, they are of no account. -/
theorem refineSoft_plain (hvalid : c.Valid) (hadmits : p.Admits c) (hready : p.Ready)
    (hclosed : p.Closed) (hfuel : 20 * fuel + 2 < stampModulus)
    (h : p.refineSoft fuel = some (.ok q)) :
    p.refinePlain fuel = some (.ok q) ∧ ∀ r ∈ refineRules, q.Done r := by
  obtain ⟨p', htables, htabled, hgood⟩ := good_of_ready hvalid hadmits hready
  obtain ⟨l, bound, hl, hloop⟩ := refineLoop_ends hvalid hadmits hready
  obtain ⟨loop, hrun, hfinish⟩ := Option.map_eq_some_iff.mp h
  have hmore : p.refineLoop (max fuel (bound + 1)) = some loop := by
    rw [refineLoop, htables] at hrun ⊢
    exact Rules.rounds_mono (le_max_left _ _) hrun
  rw [hloop _ (Nat.lt_of_succ_le (le_max_right _ _))] at hmore
  cases hmore
  have hfinish' : l.store.finishRefine = .ok q := hfinish
  rw [refineLoop, htables] at hrun
  have hruns : l.runs + 2 < stampModulus := by
    have hlength : hwRules.order.length = 20 := List.length_attach
    have hle : l.runs ≤ 0 + fuel * hwRules.order.length := (Rules.rounds_runs hrun).2
    rw [hlength] at hle
    omega
  obtain ⟨hplain, hstable⟩ := Rules.rounds_plain hwRules_lawful
    (show Good p c p'.startLoop.store from hgood)
    (startLoop_fresh hgood (htabled.closed hclosed)) hrun hruns
  refine ⟨?_, fun r hr => ?_⟩
  · rw [refinePlain, htables]
    have hplain' : hwRules.plainRounds fuel p' = some (.ok l.store) := hplain
    simp only [hplain', Option.map_some, hfinish']
  · obtain ⟨q', hq', hmasks, hintervals, -⟩ := finishRefine_spec hl.admits
    rw [hq'] at hfinish'
    cases hfinish'
    exact (done_congr hmasks hintervals).mpr (done_of_stable hl (hstable ⟨r, hr⟩ (mem_order _)))

theorem Rested.good (hrested : p.Rested) (hvalid : c.Valid) (hadmits : p.Admits c) :
    Good p c p :=
  ⟨hvalid, hadmits, hrested.settled, hrested.within, fun _ _ => .rfl⟩

theorem request_plain {r : Request} (hvalid : c.Valid) (hadmits : p.Admits c)
    (hrested : p.Rested) (hdone : ∀ rule ∈ refineRules, p.Done rule) (hr : r.Meets c)
    (hfuel : 20 * fuel + 2 < stampModulus)
    (h : p.request (refineSoft fuel) r = some (.ok q)) :
    p.request (refinePlain fuel) r = some (.ok q) ∧ ∀ rule ∈ refineRules, q.Done rule := by
  obtain ⟨p', changed, hok, hchange⟩ := change_spec hvalid hadmits hrested.settled hr
  have hleft : p'.Admits c := (hchange.admits c hvalid).mpr ⟨hadmits, hr⟩
  have hclosed := hchange.closed hdone
  cases hmarked : p'.marked with
  | true =>
    have hready : p'.Ready := by
      intro v hv
      rw [hchange.intervals v hv]
      exact ⟨hrested.settled v, hrested.within v⟩
    rcases hrefine : p'.refineSoft fuel with _ | ⟨e, _⟩ | q'
    · simp only [request, hok, hmarked, if_true, hrefine] at h
      cases h
    · simp only [request, hok, hmarked, if_true, hrefine] at h
      cases h
    · obtain ⟨hplain, hdone'⟩ := refineSoft_plain hvalid hleft hready hclosed hfuel hrefine
      simp only [request, hok, hmarked, if_true, hrefine, hplain] at h ⊢
      refine ⟨h, ?_⟩
      split at h
      · cases h
      · cases h
        exact hdone'
  | false =>
    simp only [request, hok, hmarked, Bool.false_eq_true, if_false] at h ⊢
    cases h
    refine ⟨rfl, fun rule hrule => ?_⟩
    rcases hclosed rule hrule with hdone' | ⟨d, -, hmark⟩
    · exact hdone'
    · rw [marked_eq_false hmarked d] at hmark
      cases hmark

end HwParams

namespace Session
variable {s s' : Session} {c : Config} {fuel : Nat} {r : Request} {rs : List Request}

/-- No rule has anything left to do. -/
def Finished (s : Session) : Prop := ∀ c, c.Valid → (∀ r ∈ s.accepted, r.Meets c) →
  ∀ rule ∈ refineRules, s.params.Done rule

theorem start_finished {p : HwParams} (hfuel : 20 * fuel + 2 < stampModulus)
    (h : HwParams.any.refineSoft fuel = some (.ok p)) : Finished ⟨p, []⟩ := by
  intro c hvalid _
  have hclosed : HwParams.any.Closed := by
    intro rule _
    cases rule with
    | interval var f dep dep' => exact .inr ⟨_, List.mem_cons_self, rfl⟩
    | format => exact .inr ⟨_, List.mem_cons_self, rfl⟩
    | sampleBits => exact .inr ⟨_, List.mem_cons_self, rfl⟩
  exact (HwParams.refineSoft_plain hvalid (any_admits hvalid) (fun _ h => nomatch h) hclosed hfuel
    h).2

theorem ask_finished (hfuel : 20 * fuel + 2 < stampModulus) (hkept : s.Kept)
    (hfinished : s.Finished) (h : s.ask fuel r = some s') : s'.Finished := by
  rcases ask_cases h with rfl | ⟨p, hrequest, rfl⟩
  · exact hfinished
  · intro c hvalid hmeets
    have hold : ∀ r ∈ s.accepted, r.Meets c := fun r hr =>
      hmeets r (List.mem_append_left _ hr)
    have hnew : r.Meets c := hmeets r (List.mem_append_right _ (List.mem_singleton.mpr rfl))
    obtain ⟨hrested, hadmits⟩ := hkept c hvalid hold
    exact (HwParams.request_plain hvalid ((hadmits c hvalid).mpr hold) hrested
      (hfinished c hvalid hold) hnew hfuel hrequest).2

theorem run_finished (hfuel : 20 * fuel + 2 < stampModulus) (h : Session.run fuel rs = some s) :
    s.Kept ∧ s.Finished := by
  obtain ⟨p, hstart, hrun⟩ := run_start h
  refine Machine.run_induction (P := fun s => Kept s ∧ Finished s) ?_
    ⟨start_kept hstart, start_finished hfuel hstart⟩ hrun
  exact fun s r s' hs hstep => ⟨ask_kept hs.1 hstep, ask_finished hfuel hs.1 hs.2 hstep⟩

/-- The rules are at their fixpoint after each accepted request, and it is the one that running
all of them in every round gives. -/
theorem session_plain (h : Session.run fuel rs = some s) (hfuel : 20 * fuel + 2 < stampModulus)
    (hvalid : c.Valid) (hmeets : ∀ r ∈ s.accepted, r.Meets c) :
    (∀ rule ∈ refineRules, rule.func s.params = (s.params, .ok false)) ∧
      ∀ (r : Request) (q : HwParams), r.Meets c →
        s.params.request (HwParams.refineSoft fuel) r = some (.ok q) →
        s.params.request (HwParams.refinePlain fuel) r = some (.ok q) := by
  obtain ⟨hkept, hfinished⟩ := run_finished hfuel h
  obtain ⟨hrested, hadmits⟩ := hkept c hvalid hmeets
  have hadmit : s.params.Admits c := (hadmits c hvalid).mpr hmeets
  have hdone := hfinished c hvalid hmeets
  refine ⟨fun rule hrule => ?_, fun r q hr hrequest => ?_⟩
  · exact HwParams.func_done (hrested.good hvalid hadmit) hrule (hdone rule hrule)
  · exact (HwParams.request_plain hvalid hadmit hrested hdone hr hfuel hrequest).1

theorem session_plain_sample : ∃ s, Session.run 40 [.setChoice .format 2 0,
    .setInterval .channels 2 0] = some s ∧
    ∀ rule ∈ refineRules, rule.func s.params = (s.params, .ok false) := by
  have hrun : (Session.run 40 [.setChoice .format 2 0,
      .setInterval .channels 2 0]).map Session.accepted = some [.setChoice .format 2 0,
      .setInterval .channels 2 0] := by
    decide +kernel
  obtain ⟨s, hs, haccepted⟩ := Option.map_eq_some_iff.mp hrun
  refine ⟨s, hs, (session_plain hs (by decide) stereo_valid ?_).1⟩
  rw [haccepted]
  simp only [List.mem_cons, List.not_mem_nil, or_false, forall_eq_or_imp, forall_eq]
  exact ⟨⟨by decide, rfl⟩, rfl⟩

end Session
end Codinalte.Alsa
