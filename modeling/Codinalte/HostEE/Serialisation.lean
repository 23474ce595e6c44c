import Codinalte.HostEE.Wakeup

/-! Reactions on one target: never two at a time, each posting once, and those of one queue in
posting order, whatever was skipped because it was busy. -/

namespace Codinalte.HostEE
open Codinalte.Machine Codinalte.Count
variable {W : Type} [DecidableEq W] {prio : W → Nat}

/-- Two postings for one target through one queue. -/
def sameTarget (d e : Entry) : Prop :=
  d.event.priority = e.event.priority ∧ d.event.subpriority = e.event.subpriority ∧
    d.event.mutexHandle = e.event.mutexHandle

structure OrderInv (s : Scheduler W) : Prop where
  started : s.started.Pairwise fun d e => sameTarget d e → d.stamp < e.stamp
  queued : ∀ d ∈ s.started, ∀ p sub, ∀ e ∈ s.queue p sub, sameTarget d e → d.stamp < e.stamp

omit [DecidableEq W] in
theorem order_inv_opened : OrderInv (Scheduler.opened W) := by
  constructor <;> simp [Scheduler.opened]

omit [DecidableEq W] in
theorem order_inv_post {s : Scheduler W} (hinv : OrderInv s) (hqueue : QueueInv prio s)
    (event : SchedEvent) : OrderInv (s.schedEvent event) := by
  obtain ⟨hq, -, -, -, -, hstarted, -⟩ := sched_event_frame s event
  constructor
  · rw [hstarted]
    exact hinv.started
  · rw [hstarted, hq]
    intro d hd p sub e he hsame
    have hcase : e ∈ s.queue p sub ∨ e = s.nextEntry event := by
      by_cases hhere : p = event.priority ∧ sub = event.subpriority
      · obtain ⟨rfl, rfl⟩ := hhere
        rw [Scheduler.set_queue_same] at he
        rcases List.mem_append.mp he with he | he
        · exact .inl he
        · exact .inr (List.mem_singleton.mp he)
      · rw [Scheduler.set_queue_other _ _ hhere] at he
        exact .inl he
    rcases hcase with hold | rfl
    · exact hinv.queued d hd p sub e hold hsame
    · exact stamp_lt_length hqueue (mem_posted_of_started hqueue hd)

omit [DecidableEq W] in
theorem order_inv_of_queue {s t : Scheduler W} (hinv : OrderInv s)
    (hstarted : t.started = s.started)
    (hqueue : ∀ p sub, ∀ e ∈ t.queue p sub, e ∈ s.queue p sub) : OrderInv t := by
  constructor
  · rw [hstarted]
    exact hinv.started
  · rw [hstarted]
    exact fun d hd p sub e he => hinv.queued d hd p sub e (hqueue p sub e he)

/-- The entry taken is the oldest of its target in its queue: whatever the scan has passed is
busy, so for another target. -/
theorem order_inv_take {s : Scheduler W} (hinv : OrderInv s) (hsched : SchedInv prio s)
    (hwake : WakeInv prio s) {w : W} {sub : Nat} {passed rest : List Entry} {entry : Entry}
    (hpc : s.pc w = .scanning sub passed (entry :: rest))
    (hfree : s.owner entry.event.mutexHandle = none) :
    OrderInv (s.take (prio w) w sub passed rest entry) := by
  have hqueue := (hsched.queue.scanned w sub passed (entry :: rest) hpc).2
  have hplaced := hsched.queue.placed (prio w) sub entry (by simp [hqueue])
  have hlater : ∀ e ∈ rest, entry.stamp < e.stamp := by
    have hsorted := hsched.queue.sorted (prio w) sub
    rw [hqueue] at hsorted
    exact (List.pairwise_cons.mp (List.pairwise_append.mp hsorted).2.1).1
  have hstill : ∀ p' sub', ∀ e ∈ (s.take (prio w) w sub passed rest entry).queue p' sub',
      e ∈ s.queue p' sub' ∧ (p' = prio w → sub' = sub → e ∈ passed ++ rest) := by
    intro p' sub' e he
    change e ∈ (s.setQueue (prio w) sub (passed ++ rest)).queue p' sub' at he
    by_cases hhere : p' = prio w ∧ sub' = sub
    · obtain ⟨rfl, rfl⟩ := hhere
      rw [Scheduler.set_queue_same] at he
      refine ⟨?_, fun _ _ => he⟩
      rw [hqueue]
      exact (List.Sublist.append_left (List.sublist_cons_self entry rest) passed).subset he
    · rw [Scheduler.set_queue_other _ _ hhere] at he
      exact ⟨he, fun hp hsub => absurd ⟨hp, hsub⟩ hhere⟩
  constructor
  · refine List.pairwise_append.mpr ⟨hinv.started, List.pairwise_singleton _ _, ?_⟩
    intro d hd e he hsame
    rw [List.mem_singleton.mp he] at hsame ⊢
    exact hinv.queued d hd (prio w) sub entry (by simp [hqueue]) hsame
  · intro d hd p' sub' e he hsame
    obtain ⟨hold, hhere⟩ := hstill p' sub' e he
    rcases List.mem_append.mp hd with hd | hd
    · exact hinv.queued d hd p' sub' e hold hsame
    · rw [List.mem_singleton.mp hd] at hsame ⊢
      obtain ⟨hp, hsub, hmutex⟩ := hsame
      have hplaced' := hsched.queue.placed p' sub' e hold
      have hwhere := hhere (by rw [← hplaced'.1, ← hp, hplaced.1])
        (by rw [← hplaced'.2.1, ← hsub, hplaced.2.1])
      rcases List.mem_append.mp hwhere with hpassed | hrest
      · rw [hmutex] at hfree
        exact absurd hfree (hwake.passed w sub passed (entry :: rest) hpc e hpassed)
      · exact hlater e hrest

theorem order_inv_worker {s t : Scheduler W} (hinv : OrderInv s) (hsched : SchedInv prio s)
    (hwake : WakeInv prio s) {w : W} (h : s.stepWorker (prio w) w = some t) : OrderInv t := by
  rcases step_worker_cases h with
    ⟨-, -, rfl⟩ | ⟨sub, passed, entry, rest, hpc, hfree, rfl⟩ | ⟨_, _, _, _, -, -, rfl⟩ |
    ⟨_, _, -, rfl⟩ | ⟨_, -, rfl⟩ | ⟨_, -, rfl⟩ | ⟨_, -, -, rfl⟩ | ⟨_, -, rfl⟩ | ⟨-, -, rfl⟩
  · exact order_inv_of_queue hinv rfl fun _ _ _ he => he
  · exact order_inv_take hinv hsched hwake hpc hfree
  all_goals exact order_inv_of_queue hinv rfl fun _ _ _ he => he

/-- A run that shares target mutexes within one priority only, with the order of the starts. -/
theorem order_inv_run [Fintype W] {s : Scheduler W} {as : List (SchedAction W)}
    (hok : Meets (Scheduler.step prio) onePriority (.opened W) as)
    (h : run (Scheduler.step prio) (.opened W) as = some s) : FairInv prio s ∧ OrderInv s := by
  refine run_induction_of_meets (P := fun s => FairInv prio s ∧ OrderInv s) ?_ ?_ hok h
  · rintro s a t ⟨hfair, hinv⟩ hok h
    refine ⟨fair_inv_step s a t hfair hok h, ?_⟩
    rcases sched_step_cases h with ⟨event, -, -, -, -, rfl⟩ | ⟨targetTHIS, p, sub, -, -, rfl⟩ |
      ⟨w, -, hw⟩
    · exact order_inv_post hinv hfair.sched.queue event
    · exact order_inv_of_queue hinv rfl (remove_queue_subset s targetTHIS p sub)
    · exact order_inv_worker hinv hfair.sched hfair.wake hw
  · exact ⟨⟨sched_inv_opened prio, counter_inv_opened prio, wake_inv_opened prio⟩,
      order_inv_opened⟩

/-- Where no worker can take a step they all sleep without a token. -/
theorem all_asleep {s : Scheduler W} (hlock : LockInv prio s)
    (hstuck : ∀ w, s.stepWorker (prio w) w = none) (w : W) :
    s.pc w = .sleeping ∧ s.semNotifier (prio w) = 0 := by
  have hmoves : ∀ v, (s.pc v).locksQueues = false := by
    intro v
    have hv := hstuck v
    unfold Scheduler.stepWorker at hv
    split at hv <;> rename_i hpc <;> rw [hpc] <;> first | rfl | (split_ifs at hv) | cases hv
  have hfree : s.queuesMutex (prio w) = none := by
    cases hmutex : s.queuesMutex (prio w) with
    | none => rfl
    | some v =>
      have hinside := ((hlock.queues (prio w) v).mp hmutex).2
      cases (hmoves v).symm.trans hinside
  have hw := hstuck w
  unfold Scheduler.stepWorker at hw
  split at hw
  · rw [if_pos hfree] at hw
    cases hw
  · split_ifs at hw
  · cases hw
  · cases hw
  · cases hw
  · rw [if_pos hfree] at hw
    cases hw
  · cases hw
  · next hpc =>
    split_ifs at hw with hsem
    exact ⟨hpc, hsem⟩

theorem all_asleep_queue_empty [Fintype W] {s : Scheduler W} (hfair : FairInv prio s)
    (hstuck : ∀ w, s.stepWorker (prio w) w = none) (p sub : Nat) : s.queue p sub = [] := by
  by_contra hne
  obtain ⟨e, he⟩ := List.exists_mem_of_ne_nil _ hne
  have hasleep := all_asleep hfair.sched.lock hstuck
  have hfree : s.owner e.event.mutexHandle = none := by
    cases howner : s.owner e.event.mutexHandle with
    | none => rfl
    | some w =>
      obtain ⟨d, hd, -⟩ := (hfair.sched.lock.targets _ w).mp howner
      rw [(hasleep w).1] at hd
      cases hd
  rcases hfair.wake.noticed p sub e he hfree with ⟨w, -, hexamines⟩ | htoken
  · simp only [Scheduler.examines, (hasleep w).1] at hexamines
  · have hbalance := hfair.counter p
    have hpos : 0 < countIf (sleepsAt prio p) s.pc := by
      unfold sleepers at hbalance
      omega
    obtain ⟨w, hw⟩ := exists_of_count_pos hpos
    have hnone := (hasleep w).2
    rw [hw.1] at hnone
    omega

/-- Two workers never have the same target at a time, and every posting is in one place. Where
target mutexes are shared within one priority only, the reactions of one target start in posting
order for each subpriority, and once no worker can go on every posting has been started and
finished, or removed. -/
theorem reactions_serialised [Fintype W] (as : List (SchedAction W)) (s : Scheduler W)
    (hrun : run (Scheduler.step prio) (.opened W) as = some s) :
    (∀ v w d e, (s.pc v).target = some d → (s.pc w).target = some e →
      d.event.mutexHandle = e.event.mutexHandle → v = w) ∧
    (s.posted.Nodup ∧ ∀ e : Entry, s.posted.count e =
      (s.queue e.event.priority e.event.subpriority).count e + s.started.count e +
        s.removed.count e) ∧
    (Meets (Scheduler.step prio) onePriority (.opened W) as →
      (s.started.Pairwise fun d e => sameTarget d e → d.stamp < e.stamp) ∧
      (∀ d ∈ s.started, ∀ p sub, ∀ e ∈ s.queue p sub, sameTarget d e → d.stamp < e.stamp) ∧
      ((∀ w, s.stepWorker (prio w) w = none) → (∀ w, (s.pc w).target = none) ∧
        ∀ e : Entry, s.posted.count e = s.started.count e + s.removed.count e)) := by
  have hsched := sched_inv_run hrun
  refine ⟨?_, ⟨posted_nodup hsched.queue, hsched.queue.counted⟩, ?_⟩
  · intro v w d e hv hw hsame
    have hmine := (hsched.lock.targets d.event.mutexHandle v).mpr ⟨d, hv, rfl⟩
    have hyours := (hsched.lock.targets d.event.mutexHandle w).mpr ⟨e, hw, hsame.symm⟩
    exact Option.some.inj (hmine.symm.trans hyours)
  · intro hok
    obtain ⟨hfair, horder⟩ := order_inv_run hok hrun
    refine ⟨horder.started, horder.queued, fun hstuck => ⟨?_, ?_⟩⟩
    · intro w
      rw [(all_asleep hsched.lock hstuck w).1]
      rfl
    · intro e
      have hcount := hsched.queue.counted e
      rw [all_asleep_queue_empty hfair hstuck] at hcount
      simpa using hcount

theorem reactions_serialised_sample : ∃ s, run (Scheduler.step fun _ : Fin 2 => 1)
      (.opened (Fin 2)) (sampleSched 1 1 ++ [.worker 0, .worker 0]) = some s ∧
    s.started = [⟨0, sampleEvent 1⟩, ⟨1, sampleEvent 1⟩] ∧ (0 : Nat) < 1 := by
  have hok : Meets (Scheduler.step fun _ : Fin 2 => 1) onePriority (.opened (Fin 2))
      (sampleSched 1 1 ++ [.worker 0, .worker 0]) := by decide
  have hrun : ∃ s, run (Scheduler.step fun _ : Fin 2 => 1) (.opened (Fin 2))
      (sampleSched 1 1 ++ [.worker 0, .worker 0]) = some s ∧
      s.started = [⟨0, sampleEvent 1⟩, ⟨1, sampleEvent 1⟩] := ⟨_, rfl, rfl⟩
  obtain ⟨s, hs, hstarted⟩ := hrun
  obtain ⟨-, -, hfair⟩ := reactions_serialised (sampleSched 1 1 ++ [.worker 0, .worker 0]) s hs
  have hpair := (hfair hok).1
  rw [hstarted] at hpair
  have hbefore := (List.pairwise_cons.mp hpair).1 ⟨1, sampleEvent 1⟩ (List.mem_singleton.mpr rfl)
  exact ⟨s, hs, hstarted, hbefore ⟨rfl, rfl, rfl⟩⟩

/-- The second posting for the target has a higher subpriority and is started first. -/
theorem subpriority_overtakes : ∃ s, run (Scheduler.step fun _ : Fin 1 => 1) (.opened (Fin 1))
      [.post ⟨0, 5, 1, 0⟩, .post ⟨0, 5, 1, 3⟩, .worker 0, .worker 0, .worker 0, .worker 0,
        .worker 0, .worker 0, .worker 0, .worker 0, .worker 0, .worker 0] = some s ∧
    s.started = [⟨1, ⟨0, 5, 1, 3⟩⟩, ⟨0, ⟨0, 5, 1, 0⟩⟩] :=
  ⟨_, rfl, rfl⟩

end Codinalte.HostEE
