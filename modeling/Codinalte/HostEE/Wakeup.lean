import Codinalte.HostEE.Scheduler

/-! No wake-up of a worker is lost: an entry that could run is looked at by an awake worker, or a
token is there that wakes one. The counter of each priority is the balance of the two. -/

namespace Codinalte.HostEE
open Codinalte.Machine Codinalte.Count
variable {W : Type} [Fintype W] [DecidableEq W] {prio : W → Nat}

/-- Worker of priority `p` that has decided to sleep and has not been woken. -/
def sleepsAt (prio : W → Nat) (p : Nat) (w : W) (pc : SchedPc) : Prop :=
  prio w = p ∧ pc = .sleeping

instance (prio : W → Nat) (p : Nat) (w : W) (pc : SchedPc) : Decidable (sleepsAt prio p w pc) :=
  inferInstanceAs (Decidable (prio w = p ∧ pc = .sleeping))

def sleepers (prio : W → Nat) (s : Scheduler W) (p : Nat) : Nat :=
  countIf (sleepsAt prio p) s.pc

/-- `wakeUpCounter` is what the tokens lack for the sleepers, and no token is for nobody. -/
def CounterInv (prio : W → Nat) (s : Scheduler W) : Prop :=
  ∀ p, s.wakeUpCounter p = s.semNotifier p - (sleepers prio s p : Int) ∧ s.wakeUpCounter p ≤ 0

omit [DecidableEq W] in
theorem counter_inv_opened (prio : W → Nat) : CounterInv prio (Scheduler.opened W) := by
  intro p
  simp [Scheduler.opened, sleepers, countIf, sleepsAt]

/-- A worker that neither falls asleep nor wakes up leaves the balance. -/
theorem counter_inv_of_pc {s t : Scheduler W} (hinv : CounterInv prio s) {w : W} {next : SchedPc}
    (hpc : t.pc = Function.update s.pc w next) (hcounter : t.wakeUpCounter = s.wakeUpCounter)
    (hsem : t.semNotifier = s.semNotifier) (hold : s.pc w ≠ .sleeping)
    (hnew : next ≠ .sleeping) : CounterInv prio t := by
  intro p
  have hkeep : sleepers prio t p = sleepers prio s p := by
    unfold sleepers
    rw [hpc]
    apply count_update_keep
    constructor
    · exact fun h => absurd h.2 hnew
    · exact fun h => absurd h.2 hold
  rw [hkeep, hcounter, hsem]
  exact hinv p

theorem counter_inv_sleep {s : Scheduler W} (hinv : CounterInv prio s) {w : W}
    (hold : s.pc w ≠ .sleeping) : CounterInv prio (s.sleep (prio w) w) := by
  intro p
  have hp := hinv p
  unfold sleepers at hp ⊢
  show Function.update s.wakeUpCounter _ _ p = s.semNotifier p - (countIf _
    (Function.update s.pc w .sleeping) : Int) ∧ Function.update s.wakeUpCounter _ _ p ≤ 0
  by_cases hw : prio w = p
  · subst hw
    have hcount : countIf (sleepsAt prio (prio w)) (Function.update s.pc w .sleeping) =
        countIf (sleepsAt prio (prio w)) s.pc + 1 :=
      count_update_enter (fun h => hold h.2) ⟨rfl, rfl⟩
    rw [Function.update_self]
    omega
  · have hcount : countIf (sleepsAt prio p) (Function.update s.pc w .sleeping) =
        countIf (sleepsAt prio p) s.pc :=
      count_update_keep ⟨fun h => absurd h.1 hw, fun h => absurd h.1 hw⟩
    rw [Function.update_of_ne (Ne.symm hw), hcount]
    exact hp

theorem counter_inv_wake {s : Scheduler W} (hinv : CounterInv prio s) {w : W}
    (hold : s.pc w = .sleeping) (hsem : s.semNotifier (prio w) ≠ 0) :
    CounterInv prio (s.wake (prio w) w) := by
  intro p
  have hp := hinv p
  unfold sleepers at hp ⊢
  show s.wakeUpCounter p = (Function.update s.semNotifier _ _ p : Nat) - (countIf _
    (Function.update s.pc w .getNext) : Int) ∧ s.wakeUpCounter p ≤ 0
  by_cases hw : prio w = p
  · subst hw
    have hcount : countIf (sleepsAt prio (prio w)) (Function.update s.pc w .getNext) + 1 =
        countIf (sleepsAt prio (prio w)) s.pc :=
      count_update_leave ⟨rfl, hold⟩ (by simp [sleepsAt])
    rw [Function.update_self]
    omega
  · have hcount : countIf (sleepsAt prio p) (Function.update s.pc w .getNext) =
        countIf (sleepsAt prio p) s.pc :=
      count_update_keep ⟨fun h => absurd h.1 hw, fun h => absurd h.1 hw⟩
    rw [Function.update_of_ne (Ne.symm hw), hcount]
    exact hp

omit [DecidableEq W] in
theorem counter_inv_wake_up {s : Scheduler W} (hinv : CounterInv prio s) (p : Nat) :
    CounterInv prio (s.wakeUpIfNeeded p) := by
  unfold Scheduler.wakeUpIfNeeded
  split_ifs with hneg
  · intro p'
    have hp := hinv p'
    unfold sleepers at hp ⊢
    show Function.update s.wakeUpCounter _ _ p' = (Function.update s.semNotifier _ _ p' : Nat) -
      (countIf _ s.pc : Int) ∧ Function.update s.wakeUpCounter _ _ p' ≤ 0
    by_cases hpp : p' = p
    · subst hpp
      rw [Function.update_self, Function.update_self]
      omega
    · rw [Function.update_of_ne hpp, Function.update_of_ne hpp]
      exact hp
  · exact hinv

theorem counter_inv_step (s : Scheduler W) (a : SchedAction W) (t : Scheduler W)
    (hinv : CounterInv prio s) (h : s.step prio a = some t) : CounterInv prio t := by
  rcases sched_step_cases h with ⟨event, -, -, -, -, rfl⟩ | ⟨_, _, _, -, -, rfl⟩ | ⟨w, -, h⟩
  · have hpushed : CounterInv prio { s.setQueue event.priority event.subpriority
        (s.queue event.priority event.subpriority ++ [s.nextEntry event]) with
        posted := s.posted ++ [s.nextEntry event] } := hinv
    exact counter_inv_wake_up hpushed event.priority
  · exact hinv
  · rcases step_worker_cases h with
      ⟨hpc, -, rfl⟩ | ⟨_, _, _, _, hpc, -, rfl⟩ | ⟨_, _, _, _, hpc, -, rfl⟩ | ⟨_, _, hpc, rfl⟩ |
      ⟨_, hpc, rfl⟩ | ⟨_, hpc, rfl⟩ | ⟨_, hpc, -, rfl⟩ | ⟨_, hpc, rfl⟩ | ⟨hpc, hsem, rfl⟩
    · exact counter_inv_of_pc hinv rfl rfl rfl (by simp [hpc]) (by simp)
    · exact counter_inv_of_pc hinv rfl rfl rfl (by simp [hpc]) (by simp)
    · exact counter_inv_of_pc hinv rfl rfl rfl (by simp [hpc]) (by simp)
    · exact counter_inv_of_pc hinv rfl rfl rfl (by simp [hpc]) (by simp)
    · exact counter_inv_sleep hinv (by simp [hpc])
    · exact counter_inv_of_pc hinv rfl rfl rfl (by simp [hpc]) (by simp)
    · exact counter_inv_of_pc hinv rfl rfl rfl (by simp [hpc]) (by simp)
    · exact counter_inv_of_pc hinv rfl rfl rfl (by simp [hpc]) (by simp)
    · exact counter_inv_wake hinv hpc hsem

theorem counter_inv_run {s : Scheduler W} {as : List (SchedAction W)}
    (h : run (Scheduler.step prio) (.opened W) as = some s) : CounterInv prio s :=
  run_induction counter_inv_step (counter_inv_opened prio) h

/-- Worker `w` is awake and will look at the entry `e` of subpriority `sub` before it sleeps. -/
def Scheduler.examines (s : Scheduler W) (sub : Nat) (e : Entry) (w : W) : Prop :=
  match s.pc w with
  | .scanning at' _ rest => sub < at' ∨ sub = at' ∧ e ∈ rest
  | .sleeping => False
  | _ => True

/-- What a scan has passed is busy, and what could run will be noticed. -/
structure WakeInv (prio : W → Nat) (s : Scheduler W) : Prop where
  shared : SharedWithin s
  passed : ∀ w sub passed rest, s.pc w = .scanning sub passed rest →
    ∀ e ∈ passed, s.owner e.event.mutexHandle ≠ none
  above : ∀ w sub passed rest, s.pc w = .scanning sub passed rest →
    ∀ sub', sub < sub' → ∀ e ∈ s.queue (prio w) sub', s.owner e.event.mutexHandle ≠ none
  noticed : ∀ p sub, ∀ e ∈ s.queue p sub, s.owner e.event.mutexHandle = none →
    (∃ w, prio w = p ∧ s.examines sub e w) ∨ 0 < s.semNotifier p

omit [Fintype W] [DecidableEq W] in
theorem wake_inv_opened (prio : W → Nat) : WakeInv prio (Scheduler.opened W) := by
  constructor <;> simp [Scheduler.opened, SharedWithin]

omit [Fintype W] in
theorem examines_update {s t : Scheduler W} {w v : W} {next : SchedPc} {sub : Nat} {e : Entry}
    (hpc : t.pc = Function.update s.pc w next) (hvw : v ≠ w) (h : s.examines sub e v) :
    t.examines sub e v := by
  unfold Scheduler.examines at h ⊢
  rw [hpc, Function.update_of_ne hvw]
  exact h

omit [Fintype W] in
/-- A step of `w` that takes nothing of the queues away from the others: what it has passed is
busy, and what it was to look at it still will, unless it takes a token for that. -/
theorem wake_inv_of_pc {s t : Scheduler W} (hinv : WakeInv prio s) {w : W} {next : SchedPc}
    (hpc : t.pc = Function.update s.pc w next) (hposted : t.posted = s.posted)
    (hqueue : ∀ p sub, ∀ e ∈ t.queue p sub, e ∈ s.queue p sub)
    (howner : ∀ m, t.owner m = none → s.owner m = none)
    (hsem : ∀ p, s.semNotifier p ≤ t.semNotifier p ∨ p = prio w ∧ next = .getNext)
    (hscan : ∀ sub passed rest, next = .scanning sub passed rest →
      (∀ e ∈ passed, s.owner e.event.mutexHandle ≠ none) ∧
      ∀ sub', sub < sub' → ∀ e ∈ s.queue (prio w) sub', s.owner e.event.mutexHandle ≠ none)
    (hlook : ∀ sub, ∀ e ∈ s.queue (prio w) sub, s.owner e.event.mutexHandle = none →
      s.examines sub e w → t.examines sub e w) : WakeInv prio t where
  shared := by
    unfold SharedWithin
    rw [hposted]
    exact hinv.shared
  passed := by
    intro v sub passed rest hv e he hnone
    rw [hpc] at hv
    by_cases hvw : v = w
    · subst hvw
      rw [Function.update_self] at hv
      exact (hscan sub passed rest hv).1 e he (howner _ hnone)
    · rw [Function.update_of_ne hvw] at hv
      exact hinv.passed v sub passed rest hv e he (howner _ hnone)
  above := by
    intro v sub passed rest hv sub' hsub e he hnone
    rw [hpc] at hv
    have he' := hqueue _ _ e he
    by_cases hvw : v = w
    · subst hvw
      rw [Function.update_self] at hv
      exact (hscan sub passed rest hv).2 sub' hsub e he' (howner _ hnone)
    · rw [Function.update_of_ne hvw] at hv
      exact hinv.above v sub passed rest hv sub' hsub e he' (howner _ hnone)
  noticed := by
    intro p sub e he hnone
    have he' := hqueue p sub e he
    have hnone' := howner _ hnone
    rcases hinv.noticed p sub e he' hnone' with ⟨v, hv, hexamines⟩ | htoken
    · left
      refine ⟨v, hv, ?_⟩
      by_cases hvw : v = w
      · subst hvw
        exact hlook sub e (hv ▸ he') hnone' hexamines
      · exact examines_update hpc hvw hexamines
    · rcases hsem p with hle | ⟨hp, hnext⟩
      · exact .inr (htoken.trans_le hle)
      · refine .inl ⟨w, hp.symm, ?_⟩
        unfold Scheduler.examines
        rw [hpc, Function.update_self, hnext]
        trivial

omit [Fintype W] [DecidableEq W] in
theorem sched_event_sem (s : Scheduler W) (event : SchedEvent) :
    (s.schedEvent event).semNotifier = if s.wakeUpCounter event.priority < 0 then
      Function.update s.semNotifier event.priority (s.semNotifier event.priority + 1)
    else s.semNotifier := by
  unfold Scheduler.schedEvent Scheduler.wakeUpIfNeeded
  exact apply_ite Scheduler.semNotifier _ _ _

theorem wake_inv_post {s : Scheduler W} (hinv : WakeInv prio s) (hlock : LockInv prio s)
    (hcounter : CounterInv prio s) {event : SchedEvent} (hok : onePriority s (.post event))
    (hfree : s.queuesMutex event.priority = none) (hstarted : ∃ w, prio w = event.priority)
    (hstep : s.step prio (.post event) = some (s.schedEvent event)) :
    WakeInv prio (s.schedEvent event) := by
  obtain ⟨hqueue, -, howner, hpc, -, -, -⟩ := sched_event_frame s event
  have hother : ∀ w sub passed rest, s.pc w = .scanning sub passed rest → ∀ sub',
      (s.schedEvent event).queue (prio w) sub' = s.queue (prio w) sub' := by
    intro w sub passed rest hw sub'
    rw [hqueue]
    exact Scheduler.set_queue_other _ _ fun h => scanned_of_free hlock hfree hw h.1
  have hexamines : ∀ sub e w, s.examines sub e w → (s.schedEvent event).examines sub e w := by
    intro sub e w h
    unfold Scheduler.examines at h ⊢
    rw [hpc]
    exact h
  have hsem : ∀ p, s.semNotifier p ≤ (s.schedEvent event).semNotifier p := by
    intro p
    rw [sched_event_sem]
    split_ifs
    · by_cases hp : p = event.priority
      · subst hp
        rw [Function.update_self]
        exact Nat.le_succ _
      · rw [Function.update_of_ne hp]
    · exact le_rfl
  refine ⟨shared_within_step hinv.shared hok hstep, ?_, ?_, ?_⟩
  · rw [howner, hpc]
    exact hinv.passed
  · rw [howner, hpc]
    intro w sub passed rest hw sub' hsub e he
    rw [hother w sub passed rest hw] at he
    exact hinv.above w sub passed rest hw sub' hsub e he
  · intro p sub e he hnone
    rw [howner] at hnone
    have hcase : e ∈ s.queue p sub ∨ p = event.priority := by
      rw [hqueue] at he
      by_cases hhere : p = event.priority ∧ sub = event.subpriority
      · exact .inr hhere.1
      · rw [Scheduler.set_queue_other _ _ hhere] at he
        exact .inl he
    rcases hcase with hold | rfl
    · rcases hinv.noticed p sub e hold hnone with ⟨w, hw, h⟩ | htoken
      · exact .inl ⟨w, hw, hexamines sub e w h⟩
      · exact .inr (htoken.trans_le (hsem p))
    · -- a sleeper gets a token; without one some worker of the priority is awake
      obtain ⟨hbalance, hneg⟩ := hcounter event.priority
      by_cases hasleep : s.wakeUpCounter event.priority < 0
      · right
        rw [sched_event_sem, if_pos hasleep, Function.update_self]
        exact Nat.succ_pos _
      · by_cases htoken : 0 < s.semNotifier event.priority
        · exact .inr (htoken.trans_le (hsem _))
        · left
          obtain ⟨w, hw⟩ := hstarted
          refine ⟨w, hw, hexamines sub e w ?_⟩
          have hawake : s.pc w ≠ .sleeping := by
            intro hsleeps
            have hpos : 0 < sleepers prio s event.priority := count_pos ⟨hw, hsleeps⟩
            omega
          unfold Scheduler.examines
          split
          · next hscan => exact absurd hw (scanned_of_free hlock hfree hscan)
          · next hsleeps => exact hawake hsleeps
          · trivial

omit [Fintype W] [DecidableEq W] in
theorem wake_inv_remove {s : Scheduler W} (hinv : WakeInv prio s) (targetTHIS p sub : Nat) :
    WakeInv prio (s.schedulerRemove targetTHIS p sub) := by
  have hqueue := remove_queue_subset s targetTHIS p sub
  refine ⟨hinv.shared, hinv.passed, ?_, ?_⟩
  · intro w sub₁ passed rest hw sub' hsub e he
    exact hinv.above w sub₁ passed rest hw sub' hsub e (hqueue _ _ e he)
  · intro p' sub' e he hnone
    exact hinv.noticed p' sub' e (hqueue p' sub' e he) hnone

omit [Fintype W] in
/-- Unlocking the target makes its entries runnable; they are of this priority, and the worker
looks at the queues again. -/
theorem wake_inv_release {s : Scheduler W} (hinv : WakeInv prio s) (hsched : SchedInv prio s)
    {w : W} {entry : Entry} (hpc : s.pc w = .releasing entry) :
    WakeInv prio (s.release (prio w) w entry) := by
  obtain ⟨hstarted, hprio⟩ := hsched.queue.held w entry (by rw [hpc]; rfl)
  have hposted := mem_posted_of_started hsched.queue hstarted
  have hmine : ∀ p sub, ∀ e ∈ s.queue p sub,
      e.event.mutexHandle = entry.event.mutexHandle → p = prio w := by
    intro p sub e he hsame
    rw [← (hsched.queue.placed p sub e he).1, ← hprio]
    exact hinv.shared e (mem_posted_of_queued hsched.queue he) entry hposted hsame
  have hthere : ∀ v sub passed rest, s.pc v = .scanning sub passed rest → prio v ≠ prio w := by
    intro v sub passed rest hv hsame
    have hvw := scanning_alone hsched.lock (by rw [hpc]; rfl) (by rw [hv]; rfl) hsame
    subst hvw
    cases hpc.symm.trans hv
  have hkeep : ∀ p sub, ∀ e ∈ s.queue p sub, p ≠ prio w →
      s.owner e.event.mutexHandle ≠ none →
      (s.release (prio w) w entry).owner e.event.mutexHandle ≠ none := by
    intro p sub e he hp hbusy
    show Function.update s.owner _ none _ ≠ none
    rw [Function.update_of_ne (fun hsame => hp (hmine p sub e he hsame))]
    exact hbusy
  have hstill : ∀ v sub passed rest, (s.release (prio w) w entry).pc v =
      .scanning sub passed rest → s.pc v = .scanning sub passed rest := by
    intro v sub passed rest hv
    change Function.update s.pc w .getNext v = _ at hv
    by_cases hvw : v = w
    · subst hvw
      rw [Function.update_self] at hv
      cases hv
    · rwa [Function.update_of_ne hvw] at hv
  refine ⟨hinv.shared, ?_, ?_, ?_⟩
  · intro v sub passed rest hv e he
    have hv := hstill v sub passed rest hv
    have hqueued : e ∈ s.queue (prio v) sub := by
      rw [(hsched.queue.scanned v sub passed rest hv).2]
      exact List.mem_append_left _ he
    exact hkeep _ _ e hqueued (hthere v sub passed rest hv)
      (hinv.passed v sub passed rest hv e he)
  · intro v sub passed rest hv sub' hsub e he
    have hv := hstill v sub passed rest hv
    exact hkeep _ _ e he (hthere v sub passed rest hv)
      (hinv.above v sub passed rest hv sub' hsub e he)
  · intro p sub e he hnone
    change Function.update s.owner _ none _ = none at hnone
    by_cases hsame : e.event.mutexHandle = entry.event.mutexHandle
    · refine .inl ⟨w, (hmine p sub e he hsame).symm, ?_⟩
      simp [Scheduler.examines, Scheduler.release, Scheduler.setPc]
    · rw [Function.update_of_ne hsame] at hnone
      rcases hinv.noticed p sub e he hnone with ⟨v, hv, hexamines⟩ | htoken
      · refine .inl ⟨v, hv, ?_⟩
        by_cases hvw : v = w
        · subst hvw
          simp [Scheduler.examines, Scheduler.release, Scheduler.setPc]
        · exact examines_update rfl hvw hexamines
      · exact .inr htoken

omit [Fintype W] in
theorem wake_inv_worker {s t : Scheduler W} (hinv : WakeInv prio s) (hsched : SchedInv prio s)
    {w : W} (h : s.stepWorker (prio w) w = some t) : WakeInv prio t := by
  have hawake : ∀ {pc : SchedPc}, s.pc w = pc → ∀ sub e, s.examines sub e w →
      ∀ at' passed rest, pc = .scanning at' passed rest → sub < at' ∨ sub = at' ∧ e ∈ rest := by
    rintro pc hpc sub e hexamines at' passed rest rfl
    simpa only [Scheduler.examines, hpc] using hexamines
  rcases step_worker_cases h with
    ⟨hpc, hfree, rfl⟩ | ⟨sub, passed, entry, rest, hpc, hfree, rfl⟩ |
    ⟨sub, passed, entry, rest, hpc, hbusy, rfl⟩ | ⟨sub, passed, hpc, rfl⟩ | ⟨passed, hpc, rfl⟩ |
    ⟨entry, hpc, rfl⟩ | ⟨entry, hpc, hfree, rfl⟩ | ⟨entry, hpc, rfl⟩ | ⟨hpc, hsem, rfl⟩
  · -- the scan starts above every entry
    have hmax : ∀ sub', ∀ e ∈ s.queue (prio w) sub', sub' < maxSchedulerSubpriorityNumber :=
      fun sub' e he => (hsched.queue.placed _ _ e he).2.2
    refine wake_inv_of_pc hinv rfl rfl (fun _ _ _ he => he) (fun _ h => h)
      (fun _ => .inl le_rfl) ?_ ?_
    · rintro sub passed rest ⟨⟩
      refine ⟨by simp, fun sub' hsub e he => ?_⟩
      have := hmax sub' e he
      omega
    · intro sub e he _ _
      have := hmax sub e he
      simp only [Scheduler.examines, Scheduler.enter, Scheduler.setPc, Function.update_self]
      by_cases htop : sub = maxSchedulerSubpriorityNumber - 1
      · exact .inr ⟨htop, htop ▸ he⟩
      · exact .inl (by omega)
  · -- taken: the worker scans again after the reaction
    have hqueue := (hsched.queue.scanned w sub passed (entry :: rest) hpc).2
    refine wake_inv_of_pc hinv rfl rfl ?_ ?_ (fun _ => .inl le_rfl) (fun _ _ _ h => by cases h) ?_
    · intro p' sub' e he
      change e ∈ (s.setQueue (prio w) sub (passed ++ rest)).queue p' sub' at he
      by_cases hhere : p' = prio w ∧ sub' = sub
      · obtain ⟨rfl, rfl⟩ := hhere
        rw [Scheduler.set_queue_same] at he
        rw [hqueue]
        exact (List.Sublist.append_left (List.sublist_cons_self entry rest) passed).subset he
      · rwa [Scheduler.set_queue_other _ _ hhere] at he
    · intro m hnone
      change Function.update s.owner _ (some w) m = none at hnone
      by_cases hm : m = entry.event.mutexHandle
      · subst hm
        rw [Function.update_self] at hnone
        cases hnone
      · rwa [Function.update_of_ne hm] at hnone
    · intro _ _ _ _ _
      simp [Scheduler.examines, Scheduler.take, Scheduler.setPc]
  · -- passed as busy
    refine wake_inv_of_pc hinv rfl rfl (fun _ _ _ he => he) (fun _ h => h)
      (fun _ => .inl le_rfl) ?_ ?_
    · rintro sub' passed' rest' ⟨⟩
      refine ⟨?_, hinv.above w sub passed (entry :: rest) hpc⟩
      intro e he
      rcases List.mem_append.mp he with he | he
      · exact hinv.passed w sub passed (entry :: rest) hpc e he
      · rw [List.mem_singleton.mp he]
        exact hbusy
    · intro sub' e he hnone hexamines
      simp only [Scheduler.examines, Scheduler.setPc, Function.update_self]
      rcases hawake hpc sub' e hexamines sub passed (entry :: rest) rfl with hlt | ⟨hsub, hmem⟩
      · exact .inl hlt
      · rcases List.mem_cons.mp hmem with rfl | hmem
        · exact absurd hnone hbusy
        · exact .inr ⟨hsub, hmem⟩
  · -- the next lower subpriority
    have hqueue := (hsched.queue.scanned w (sub + 1) passed [] hpc).2
    refine wake_inv_of_pc hinv rfl rfl (fun _ _ _ he => he) (fun _ h => h)
      (fun _ => .inl le_rfl) ?_ ?_
    · rintro sub' passed' rest' ⟨⟩
      refine ⟨by simp, fun sub'' hlt e he => ?_⟩
      by_cases hnext : sub'' = sub + 1
      · subst hnext
        rw [hqueue, List.append_nil] at he
        exact hinv.passed w (sub + 1) passed [] hpc e he
      · exact hinv.above w (sub + 1) passed [] hpc sub'' (by omega) e he
    · intro sub' e he _ hexamines
      simp only [Scheduler.examines, Scheduler.setPc, Function.update_self]
      rcases hawake hpc sub' e hexamines (sub + 1) passed [] rfl with hlt | ⟨-, hmem⟩
      · by_cases hnow : sub' = sub
        · exact .inr ⟨hnow, hnow ▸ he⟩
        · exact .inl (by omega)
      · cases hmem
  · -- asleep: nothing was left that it could have run
    refine wake_inv_of_pc hinv rfl rfl (fun _ _ _ he => he) (fun _ h => h)
      (fun _ => .inl le_rfl) (fun _ _ _ h => by cases h) ?_
    intro sub' e _ _ hexamines
    rcases hawake hpc sub' e hexamines 0 passed [] rfl with hlt | ⟨-, hmem⟩
    · omega
    · cases hmem
  · refine wake_inv_of_pc hinv rfl rfl (fun _ _ _ he => he) (fun _ h => h)
      (fun _ => .inl le_rfl) (fun _ _ _ h => by cases h) ?_
    intro _ _ _ _ _
    simp [Scheduler.examines, Scheduler.setPc]
  · refine wake_inv_of_pc hinv rfl rfl (fun _ _ _ he => he) (fun _ h => h)
      (fun _ => .inl le_rfl) (fun _ _ _ h => by cases h) ?_
    intro _ _ _ _ _
    simp [Scheduler.examines, Scheduler.lockAfter, Scheduler.setPc]
  · exact wake_inv_release hinv hsched hpc
  · -- woken by a token of its priority
    refine wake_inv_of_pc hinv rfl rfl (fun _ _ _ he => he) (fun _ h => h) ?_
      (fun _ _ _ h => by cases h) ?_
    · intro p
      by_cases hp : p = prio w
      · exact .inr ⟨hp, rfl⟩
      · left
        show s.semNotifier p ≤ Function.update s.semNotifier _ _ p
        rw [Function.update_of_ne hp]
    · intro _ _ _ _ _
      simp [Scheduler.examines, Scheduler.wake, Scheduler.setPc]

/-- All that is kept by a run that shares target mutexes within one priority only. -/
structure FairInv (prio : W → Nat) (s : Scheduler W) : Prop where
  sched : SchedInv prio s
  counter : CounterInv prio s
  wake : WakeInv prio s

theorem fair_inv_step (s : Scheduler W) (a : SchedAction W) (t : Scheduler W)
    (hinv : FairInv prio s) (hok : onePriority s a) (h : s.step prio a = some t) :
    FairInv prio t := by
  refine ⟨sched_inv_step s a t hinv.sched h, counter_inv_step s a t hinv.counter h, ?_⟩
  rcases sched_step_cases h with
    ⟨event, rfl, -, hstarted, hfree, rfl⟩ | ⟨targetTHIS, p, sub, rfl, -, rfl⟩ | ⟨w, rfl, hw⟩
  · exact wake_inv_post hinv.wake hinv.sched.lock hinv.counter hok hfree hstarted h
  · exact wake_inv_remove hinv.wake targetTHIS p sub
  · exact wake_inv_worker hinv.wake hinv.sched hw

theorem fair_inv_run {s : Scheduler W} {as : List (SchedAction W)}
    (hok : Meets (Scheduler.step prio) onePriority (.opened W) as)
    (h : run (Scheduler.step prio) (.opened W) as = some s) : FairInv prio s :=
  run_induction_of_meets fair_inv_step
    ⟨sched_inv_opened prio, counter_inv_opened prio, wake_inv_opened prio⟩ hok h

/-- In every run whose postings share a target mutex within one priority only: an entry whose
target mutex is free is looked at by an awake worker of its priority before that one sleeps, or
a token is there for a sleeper; and the counter is minus the sleepers without a token. -/
theorem no_lost_wake_up (as : List (SchedAction W)) (s : Scheduler W)
    (hok : Meets (Scheduler.step prio) onePriority (.opened W) as)
    (hrun : run (Scheduler.step prio) (.opened W) as = some s) :
    (∀ p sub, ∀ e ∈ s.queue p sub, s.owner e.event.mutexHandle = none →
      (∃ w, prio w = p ∧ s.examines sub e w) ∨
      0 < s.semNotifier p ∧ ∃ w, prio w = p ∧ s.pc w = .sleeping) ∧
    ∀ p, s.semNotifier p ≤ sleepers prio s p ∧
      s.wakeUpCounter p = -((sleepers prio s p - s.semNotifier p : Nat) : Int) := by
  have hinv := fair_inv_run hok hrun
  have hbalance : ∀ p, s.semNotifier p ≤ sleepers prio s p ∧
      s.wakeUpCounter p = -((sleepers prio s p - s.semNotifier p : Nat) : Int) := by
    intro p
    have hp := hinv.counter p
    omega
  refine ⟨?_, hbalance⟩
  intro p sub e he hfree
  rcases hinv.wake.noticed p sub e he hfree with hawake | htoken
  · exact .inl hawake
  · have hpos : 0 < countIf (sleepsAt prio p) s.pc := htoken.trans_le (hbalance p).1
    obtain ⟨w, hw⟩ := exists_of_count_pos hpos
    exact .inr ⟨htoken, w, hw⟩

/-- Events of priority `p` and the highest subpriority for the target with mutex 5. -/
def sampleEvent (p : Nat) : SchedEvent := ⟨0, 5, p, 3⟩

/-- Worker 0 runs a first event while worker 1 finds the second one busy and goes to sleep; then
worker 0 unlocks the target. -/
def sampleSched (first second : Nat) : List (SchedAction (Fin 2)) :=
  [.post (sampleEvent first), .worker 0, .worker 0, .post (sampleEvent second), .worker 1,
    .worker 1, .worker 1, .worker 1, .worker 1, .worker 1, .worker 0, .worker 0, .worker 0]

theorem wake_up_kept_sample : ∃ s, run (Scheduler.step fun _ : Fin 2 => 1) (.opened (Fin 2))
      (sampleSched 1 1) = some s ∧ s.queue 1 3 = [⟨1, sampleEvent 1⟩] ∧
    ((∃ w, (1 : Nat) = 1 ∧ s.examines 3 ⟨1, sampleEvent 1⟩ w) ∨
      0 < s.semNotifier 1 ∧ ∃ w, (1 : Nat) = 1 ∧ s.pc w = .sleeping) := by
  have hok : Meets (Scheduler.step fun _ : Fin 2 => 1) onePriority (.opened (Fin 2))
      (sampleSched 1 1) := by decide
  obtain ⟨hnoticed, -⟩ := no_lost_wake_up (sampleSched 1 1) _ hok rfl
  exact ⟨_, rfl, rfl, hnoticed 1 3 ⟨1, sampleEvent 1⟩ (by decide) rfl⟩

/-- The two events share the target but not the priority: worker 1, asleep for priority 2, is not
woken when worker 0 unlocks the target under the mutex of priority 1, and worker 0 goes to sleep
after it. -/
theorem wake_up_lost_across_priorities : ∃ s,
    run (Scheduler.step fun w : Fin 2 => if w = 0 then 1 else 2) (.opened (Fin 2))
      (sampleSched 1 2 ++ [.worker 0, .worker 0, .worker 0, .worker 0, .worker 0]) = some s ∧
    s.queue 2 3 = [⟨1, sampleEvent 2⟩] ∧ s.owner 5 = none ∧
    (∀ w, s.pc w = .sleeping) ∧ s.semNotifier 2 = 0 := by
  refine ⟨_, rfl, rfl, rfl, ?_, rfl⟩
  decide

end Codinalte.HostEE
