import Codinalte.Hwcomposer.VsyncMonitor
import Codinalte.Lib.Machine

/-! The vsyncs that are handed out over any interleaving of the monitor thread with those that
enable, disable and destroy it, and the threads that destroy joins. -/

namespace Codinalte.Hwcomposer
open Codinalte.Machine

namespace VsyncMonitor
variable {s t : VsyncMonitor}

/-- What holds of the program point: no sleep ends by its timeout before the next vsync, and a
timestamp that is handed out lies between those handed out and the next vsync. -/
def PcOk (s : VsyncMonitor) : MonitorPc → Prop
  | .readTimeout sleep => timespecToNs s.nextVsync ≤ s.clock + sleep
  | .sleepTest timeout ret => timespecToNs s.nextVsync ≤ timespecToNs timeout ∧
    (ret = .timedOut → timespecToNs timeout ≤ s.clock)
  | .asleep timeout => timespecToNs s.nextVsync ≤ timespecToNs timeout
  | .stamp wokenAt => wokenAt ≤ s.clock ∧
    (s.recipient ≠ none → timespecToNs s.nextVsync ≤ wokenAt)
  | .delivering _ timestamp wokenAt => timestamp ≤ wokenAt ∧ wokenAt ≤ s.clock ∧
    timestamp < timespecToNs s.nextVsync ∧ ∀ vsync ∈ s.handed, vsync.timestamp < timestamp
  | _ => True

structure Inv (s : VsyncMonitor) : Prop where
  increasing : s.handed.Pairwise fun earlier later => earlier.timestamp < later.timestamp
  inTime : ∀ vsync ∈ s.handed, vsync.timestamp ≤ vsync.wokenAt ∧
    vsync.wokenAt ≤ vsync.handedAt ∧ vsync.handedAt ≤ s.clock
  next : ∀ vsync ∈ s.handed, vsync.timestamp < timespecToNs s.nextVsync
  pcOk : s.PcOk s.pc
  cleared : s.thread = s.created ∨ s.thread = 0
  joins : ∀ target ∈ s.joined, target = s.created

theorem inv_start (clock created : Nat) : Inv (start clock created) where
  increasing := List.Pairwise.nil
  inTime := fun _ h => nomatch h
  next := fun _ h => nomatch h
  pcOk := trivial
  cleared := .inl rfl
  joins := fun _ h => nomatch h

theorem Inv.goTo (hinv : Inv s) {pc : MonitorPc} (hpc : (s.goTo pc).PcOk pc) :
    Inv (s.goTo pc) :=
  ⟨hinv.increasing, hinv.inTime, hinv.next, hpc, hinv.cleared, hinv.joins⟩

theorem Inv.tick (hinv : Inv s) (nsec : Nat) : Inv { s with clock := s.clock + nsec } := by
  have hlater : ∀ {time : Nat}, time ≤ s.clock → time ≤ s.clock + nsec :=
    fun hle => Nat.le_trans hle (Nat.le_add_right ..)
  refine ⟨hinv.increasing, ?_, hinv.next, ?_, hinv.cleared, hinv.joins⟩
  · intro vsync hvsync
    obtain ⟨hwoken, hhanded, hclock⟩ := hinv.inTime vsync hvsync
    exact ⟨hwoken, hhanded, hlater hclock⟩
  · have hok := hinv.pcOk
    show PcOk _ s.pc
    cases hpc : s.pc with
    | readTimeout sleep =>
      rw [hpc] at hok
      show timespecToNs s.nextVsync ≤ s.clock + nsec + sleep
      have hnext : timespecToNs s.nextVsync ≤ s.clock + sleep := hok
      omega
    | sleepTest timeout ret =>
      rw [hpc] at hok
      exact ⟨hok.1, fun hret => hlater (hok.2 hret)⟩
    | asleep timeout =>
      rw [hpc] at hok
      exact hok
    | stamp wokenAt =>
      rw [hpc] at hok
      exact ⟨hlater hok.1, hok.2⟩
    | delivering callback timestamp wokenAt =>
      rw [hpc] at hok
      exact ⟨hok.1, hlater hok.2.1, hok.2.2⟩
    | starting | loopHead | idleTest | idleWait | restart | readNow | returned | cleanup
    | exited => trivial

/-- The end of a wait: the time of the vsync has come, or there is nobody to hand it to. -/
theorem Inv.stamp (hinv : Inv s) {wokenAt : Nat} (hpc : s.pc = .stamp wokenAt) :
    Inv (s.stampVsync wokenAt) := by
  have hok : wokenAt ≤ s.clock ∧ (s.recipient ≠ none → timespecToNs s.nextVsync ≤ wokenAt) := by
    have hok := hinv.pcOk
    rw [hpc] at hok
    exact hok
  have hnext : timespecToNs (timespecAddNs s.nextVsync refreshPeriod) =
      timespecToNs s.nextVsync + refreshPeriod := timespec_add_ns ..
  have hgrown : timespecToNs s.nextVsync <
      timespecToNs (timespecAddNs s.nextVsync refreshPeriod) := by
    rw [hnext]
    exact Nat.lt_add_of_pos_right (by decide)
  have hbefore : ∀ vsync ∈ s.handed, vsync.timestamp <
      timespecToNs (timespecAddNs s.nextVsync refreshPeriod) :=
    fun vsync hvsync => Nat.lt_trans (hinv.next vsync hvsync) hgrown
  have hkeep : ∀ pc : MonitorPc, PcOk
      { s with nextVsync := timespecAddNs s.nextVsync refreshPeriod, pc := pc } pc →
      Inv { s with nextVsync := timespecAddNs s.nextVsync refreshPeriod, pc := pc } :=
    fun pc hpc => ⟨hinv.increasing, hinv.inTime, hbefore, hpc, hinv.cleared, hinv.joins⟩
  unfold stampVsync
  dsimp only
  split_ifs with hzero henable
  · exact hkeep _ trivial
  · exact hkeep _ trivial
  · split
    next callback hcallback =>
      have hrecipient : s.recipient = some callback := by
        unfold recipient
        rw [if_pos (by simpa using henable)]
        exact hcallback
      have hcome := hok.2 (by rw [hrecipient]; nofun)
      exact hkeep _ ⟨hcome, hok.1, hgrown, hinv.next⟩
    · exact hkeep _ trivial

theorem Inv.deliver (hinv : Inv s) {callback timestamp wokenAt : Nat}
    (hpc : s.pc = .delivering callback timestamp wokenAt) :
    Inv { s with
      handed := s.handed ++ [⟨callback, timestamp, wokenAt, s.clock⟩], pc := .returned } := by
  obtain ⟨hcome, hclock, hnext, hlast⟩ : timestamp ≤ wokenAt ∧ wokenAt ≤ s.clock ∧
      timestamp < timespecToNs s.nextVsync ∧ ∀ vsync ∈ s.handed, vsync.timestamp < timestamp := by
    have hok := hinv.pcOk
    rw [hpc] at hok
    exact hok
  refine ⟨?_, ?_, ?_, trivial, hinv.cleared, hinv.joins⟩
  · refine List.pairwise_append.mpr ⟨hinv.increasing, List.pairwise_singleton _ _, ?_⟩
    intro earlier hearlier later hlater
    rw [List.mem_singleton.mp hlater]
    exact hlast earlier hearlier
  · intro vsync hvsync
    rcases List.mem_append.mp hvsync with hold | hnew
    · exact hinv.inTime vsync hold
    · rw [List.mem_singleton.mp hnew]
      exact ⟨hcome, hclock, Nat.le_refl _⟩
  · intro vsync hvsync
    rcases List.mem_append.mp hvsync with hold | hnew
    · exact hinv.next vsync hold
    · rw [List.mem_singleton.mp hnew]
      exact hnext

theorem Inv.monitor (hinv : Inv s) {ret : SleepResult} (hfits : s.Fits (.monitor ret))
    (h : s.stepMonitor ret = some t) : Inv t := by
  have hok := hinv.pcOk
  unfold Fits at hfits
  unfold stepMonitor at h
  cases hpc : s.pc with
  | starting | idleWait | returned =>
    rw [hpc] at h
    cases h
    exact hinv.goTo trivial
  | loopHead =>
    rw [hpc] at h
    cases h
    refine hinv.goTo ?_
    split_ifs <;> trivial
  | idleTest =>
    rw [hpc] at h
    cases h
    refine hinv.goTo ?_
    split_ifs <;> trivial
  | restart =>
    rw [hpc] at h
    cases h
    refine ⟨hinv.increasing, hinv.inTime, ?_, trivial, hinv.cleared, hinv.joins⟩
    intro vsync hvsync
    obtain ⟨hwoken, hhanded, hclock⟩ := hinv.inTime vsync hvsync
    show vsync.timestamp < timespecToNs (timespecAddNs (clockGettime s.clock) refreshPeriod)
    rw [timespec_add_ns, clock_gettime_ns]
    have hperiod : 0 < refreshPeriod := by decide
    omega
  | readNow =>
    rw [hpc] at h
    dsimp only at h
    split_ifs at h with hspare
    · cases h
      refine hinv.goTo ?_
      rw [timespec_compare_neg, clock_gettime_ns] at hspare
      rw [clock_gettime_ns]
      show timespecToNs s.nextVsync ≤ s.clock + (timespecToNs s.nextVsync - s.clock)
      omega
    · cases h
      refine hinv.goTo ⟨Nat.le_refl _, fun _ => ?_⟩
      rw [timespec_compare_neg, clock_gettime_ns] at hspare
      exact Nat.le_of_not_lt hspare
  | readTimeout sleep =>
    rw [hpc] at h hok
    cases h
    refine hinv.goTo ⟨?_, fun h => nomatch h⟩
    rw [timespec_add_ns, clock_gettime_ns]
    exact hok
  | sleepTest timeout slept =>
    rw [hpc] at h hok hfits
    obtain ⟨hnext, htimedOut⟩ := hok
    dsimp only at h
    split_ifs at h with hgoOn hfailed
    · cases h
      exact hinv.goTo hnext
    · cases h
      exact hinv.goTo trivial
    · cases h
      refine hinv.goTo ⟨Nat.le_refl _, fun hrecipient => ?_⟩
      change s.recipient ≠ none at hrecipient
      show timespecToNs s.nextVsync ≤ s.clock
      cases slept with
      | timedOut => exact Nat.le_trans hnext (htimedOut rfl)
      | failed => exact absurd rfl hfailed
      | ok =>
        have henable : s.enable = true := by
          by_contra hno
          exact hrecipient (if_neg hno)
        have hstop : s.stop = true := by
          rw [henable] at hgoOn
          simpa using hgoOn
        exact hfits hstop hrecipient
  | asleep timeout =>
    rw [hpc] at h hok
    dsimp only at h
    split_ifs at h with hearly
    cases h
    refine hinv.goTo ⟨hok, fun hret => ?_⟩
    by_contra hlate
    exact hearly ⟨hret, Nat.lt_of_not_le hlate⟩
  | stamp wokenAt =>
    rw [hpc] at h
    cases h
    exact hinv.stamp hpc
  | delivering callback timestamp wokenAt =>
    rw [hpc] at h
    cases h
    exact hinv.deliver hpc
  | cleanup =>
    rw [hpc] at h
    cases h
    exact ⟨hinv.increasing, hinv.inTime, hinv.next, trivial, .inr rfl, hinv.joins⟩
  | exited =>
    rw [hpc] at h
    cases h

/-- Who has the mutex beside the thread changes what is to be handed out, not the thread's timing.
-/
theorem Inv.unlocked (hinv : Inv s) (hfree : s.pc.holdsMutex = false)
    (hhanded : t.handed = s.handed) (hclock : t.clock = s.clock) (hnext : t.nextVsync = s.nextVsync)
    (hpc : t.pc = s.pc) (hthread : t.thread = s.thread) (hcreated : t.created = s.created)
    (hjoined : t.joined = s.joined) : Inv t := by
  refine ⟨?_, ?_, ?_, ?_, ?_, ?_⟩
  · rw [hhanded]
    exact hinv.increasing
  · rw [hhanded, hclock]
    exact hinv.inTime
  · rw [hhanded, hnext]
    exact hinv.next
  · have hok := hinv.pcOk
    rw [hpc]
    cases hpc : s.pc with
    | asleep timeout =>
      rw [hpc] at hok
      show timespecToNs t.nextVsync ≤ _
      rw [hnext]
      exact hok
    | delivering callback timestamp wokenAt =>
      rw [hpc] at hok
      show timestamp ≤ wokenAt ∧ wokenAt ≤ t.clock ∧ timestamp < timespecToNs t.nextVsync ∧
        ∀ vsync ∈ t.handed, vsync.timestamp < timestamp
      rw [hclock, hnext, hhanded]
      exact hok
    | starting | idleWait | returned | exited => trivial
    | loopHead | idleTest | restart | readNow | readTimeout | sleepTest | stamp | cleanup =>
      rw [hpc] at hfree
      cases hfree
  · rw [hthread, hcreated]
    exact hinv.cleared
  · rw [hjoined, hcreated]
    exact hinv.joins

theorem Inv.setDestroyer (hinv : Inv s) (caller : Nat) (pc : DestroyPc) :
    Inv (s.setDestroyer caller pc) :=
  ⟨hinv.increasing, hinv.inTime, hinv.next, hinv.pcOk, hinv.cleared, hinv.joins⟩

theorem Inv.destroy (hinv : Inv s) {caller : Nat} (hfits : s.Fits (.destroy caller))
    (h : s.stepDestroy caller = some t) : Inv t := by
  unfold stepDestroy at h
  cases hdestroyer : s.destroyer caller with
  | idle =>
    rw [hdestroyer] at h
    dsimp only at h
    split_ifs at h
    · cases h
      exact hinv
    · cases h
      exact hinv.setDestroyer caller .checked
  | checked =>
    rw [hdestroyer] at h
    dsimp only at h
    split_ifs at h with hmutex
    cases h
    exact hinv.unlocked (Bool.not_eq_true _ ▸ hmutex) rfl rfl rfl rfl rfl rfl rfl
  | stopped =>
    rw [hdestroyer] at h
    cases h
    refine ⟨hinv.increasing, hinv.inTime, hinv.next, hinv.pcOk, hinv.cleared, ?_⟩
    intro target htarget
    rcases List.mem_append.mp htarget with hold | hnew
    · exact hinv.joins target hold
    · rw [List.mem_singleton.mp hnew]
      rcases hinv.cleared with hcreated | hzero
      · exact hcreated
      · exact absurd hzero (hfits hdestroyer)
  | joining target =>
    rw [hdestroyer] at h
    dsimp only at h
    split_ifs at h
    cases h
    exact hinv.setDestroyer caller .idle

theorem Inv.step {a : VsyncAction} (hinv : Inv s) (hfits : s.Fits a) (h : s.step a = some t) :
    Inv t := by
  cases a with
  | tick nsec =>
    cases h
    exact hinv.tick nsec
  | monitor ret => exact hinv.monitor hfits h
  | enable procs =>
    obtain ⟨hmutex, heq⟩ := Option.ite_none_left_eq_some.mp h
    cases heq
    unfold vsyncMonitorEnable
    split_ifs
    · exact hinv
    · exact hinv.unlocked (Bool.not_eq_true _ ▸ hmutex) rfl rfl rfl rfl rfl rfl rfl
  | disable =>
    obtain ⟨hmutex, heq⟩ := Option.ite_none_left_eq_some.mp h
    cases heq
    unfold vsyncMonitorDisable
    split_ifs
    · exact hinv
    · exact hinv.unlocked (Bool.not_eq_true _ ▸ hmutex) rfl rfl rfl rfl rfl rfl rfl
  | destroy caller => exact hinv.destroy hfits h

theorem created_stamp (wokenAt : Nat) : (s.stampVsync wokenAt).created = s.created := by
  -- the projection first: nothing of the new time is to be computed
  simp only [stampVsync, goTo]
  split_ifs
  · rfl
  · rfl
  · split <;> rfl

theorem created_monitor {ret : SleepResult} (h : s.stepMonitor ret = some t) :
    t.created = s.created := by
  unfold stepMonitor at h
  split at h
  case h_10 =>
    cases h
    exact created_stamp _
  case h_14 => cases h
  case h_6 =>
    dsimp only at h
    split_ifs at h <;> cases h <;> rfl
  case h_8 | h_9 => split_ifs at h <;> cases h <;> rfl
  all_goals
    cases h
    rfl

theorem created_step {a : VsyncAction} (h : s.step a = some t) : t.created = s.created := by
  cases a with
  | tick nsec =>
    cases h
    rfl
  | monitor ret => exact created_monitor h
  | enable procs =>
    obtain ⟨-, heq⟩ := Option.ite_none_left_eq_some.mp h
    cases heq
    unfold vsyncMonitorEnable
    split_ifs <;> rfl
  | disable =>
    obtain ⟨-, heq⟩ := Option.ite_none_left_eq_some.mp h
    cases heq
    unfold vsyncMonitorDisable
    split_ifs <;> rfl
  | destroy caller =>
    change s.stepDestroy caller = some t at h
    unfold stepDestroy at h
    split at h
    · cases h
      split_ifs <;> rfl
    · split_ifs at h
      cases h
      rfl
    · cases h
      rfl
    · split_ifs at h
      cases h
      rfl

/-- In every run in which no stopped thread is enabled again while it sleeps and no call of destroy
comes after the thread has cleared its id, the timestamps handed out increase, each is handed out
after a wait that lasted to its time, and destroy joins the thread that init created. -/
theorem vsyncs_in_time (clock created : Nat) (as : List VsyncAction) (s : VsyncMonitor)
    (hrun : run VsyncMonitor.step (start clock created) as = some s)
    (hfits : Meets VsyncMonitor.step Fits (start clock created) as) :
    (s.handed.Pairwise fun earlier later => earlier.timestamp < later.timestamp) ∧
      (∀ vsync ∈ s.handed,
        vsync.timestamp ≤ vsync.wokenAt ∧ vsync.timestamp ≤ vsync.handedAt) ∧
      ∀ target ∈ s.joined, target = created := by
  have hinv : Inv s ∧ s.created = created := run_induction_of_meets
    (P := fun s => Inv s ∧ s.created = created)
    (fun _ _ _ hs hfits hstep => ⟨hs.1.step hfits hstep, (created_step hstep).trans hs.2⟩)
    ⟨inv_start clock created, rfl⟩ hfits hrun
  obtain ⟨hinv, hcreated⟩ := hinv
  refine ⟨hinv.increasing, ?_, ?_⟩
  · intro vsync hvsync
    obtain ⟨hwoken, hhanded, -⟩ := hinv.inTime vsync hvsync
    exact ⟨hwoken, Nat.le_trans hwoken hhanded⟩
  · rw [← hcreated]
    exact hinv.joins

/-- Enabled, woken late for its second vsync, disabled in its sleep and destroyed. -/
def sampleVsyncs : List VsyncAction :=
  List.replicate 3 (.monitor .ok) ++ .enable (some ⟨some 7⟩) :: List.replicate 7 (.monitor .ok) ++
    .tick 16666666 :: .monitor .timedOut :: List.replicate 3 (.monitor .ok) ++
    .tick 20000000 :: List.replicate 10 (.monitor .ok) ++
    .disable :: List.replicate 5 (.monitor .ok) ++
    [.destroy 0, .destroy 0, .destroy 0] ++ List.replicate 5 (.monitor .ok) ++ [.destroy 0]

theorem vsyncs_in_time_sample :
    ∃ s, run VsyncMonitor.step (start 5000 9) sampleVsyncs = some s ∧
      s.handed.map (·.timestamp) = [16671666, 33338332] ∧ s.joined = [9] ∧
      (∀ vsync ∈ s.handed,
        vsync.timestamp ≤ vsync.wokenAt ∧ vsync.timestamp ≤ vsync.handedAt) ∧
      ∀ target ∈ s.joined, target = 9 := by
  have hrun : ∃ s, run VsyncMonitor.step (start 5000 9) sampleVsyncs = some s ∧
      s.handed.map (·.timestamp) = [16671666, 33338332] ∧ s.joined = [9] := ⟨_, rfl, rfl, rfl⟩
  obtain ⟨s, hrun, htimes, hjoined⟩ := hrun
  have hfits : Meets VsyncMonitor.step Fits (start 5000 9) sampleVsyncs := by decide
  exact ⟨s, hrun, htimes, hjoined, (vsyncs_in_time 5000 9 sampleVsyncs s hrun hfits).2⟩

/-- Enabled again after it was stopped, the thread hands out the vsync of the sleep it was woken
from before its time; and a call of destroy joins no thread where the thread has cleared its id. -/
theorem vsync_before_its_time :
    (∃ s, run VsyncMonitor.step (start 5000 9)
        (List.replicate 3 (.monitor .ok) ++ .enable (some ⟨some 7⟩) ::
          List.replicate 7 (.monitor .ok) ++ [.disable, .destroy 0, .destroy 0,
          .enable (some ⟨some 7⟩)] ++ List.replicate 4 (.monitor .ok)) = some s ∧
      s.handed = [⟨7, 16671666, 5000, 5000⟩]) ∧
    ∃ s, run VsyncMonitor.step (start 5000 9)
        ([.destroy 0, .destroy 0] ++ List.replicate 3 (.monitor .ok) ++ [.destroy 0]) = some s ∧
      s.created = 9 ∧ s.joined = [0] :=
  ⟨⟨_, rfl, rfl⟩, _, rfl, rfl, rfl⟩

end VsyncMonitor

end Codinalte.Hwcomposer
