import Codinalte.HostEE.Startup

/-! A start that fails gives everything back and waits for every worker it has created, as long as
nothing fails once the distribution of the priority is started. -/

namespace Codinalte.HostEE.Startup
open Codinalte.Machine

def Role.ofDistribution : Role → Bool
  | .channel | .syncChannelCloseSem => true
  | _ => false

/-- What exists while the call is at a step; `d` says that the priority has a distribution thread,
and `running` that the priority has components. -/
def owns (d running : Bool) : MainPc → Role → Bool
  | .returned _, r => running && (r.ofContext || (d && r.ofDistribution))
  | .createCloseSem, r | .closeChannel, r => r == .channel
  | .createRendezVous, r => d && r.ofDistribution
  | .createNotifier, r => r == .rendezVousSem || (d && r.ofDistribution)
  | .createMutex, r => r == .rendezVousSem || r == .semNotifier || (d && r.ofDistribution)
  | .createQueue i, .firstEvent j => j < i
  | .createQueue _, r => r.ofContext || (d && r.ofDistribution)
  | .initAttr, r | .createDistribution, r | .createWorker _, r | .threadsStarted _, r =>
    r.ofContext || (d && r.ofDistribution)
  | .flushChannel _, r | .awaitDistribution _, r | .destroyCloseSem _, r =>
    r.ofContext || r.ofDistribution
  | .destroyChannel _, r => r.ofContext || r == .channel
  | .deactivate _, r | .wakeWorkers _ _, r | .awaitWorkers _ _, r => r.ofContext
  | .destroyMutex _, r => r == .rendezVousSem || r == .semNotifier || r == .priorityQueuesMutex
  | .destroyNotifier _, r => r == .rendezVousSem || r == .semNotifier
  | .destroyRendezVous _, r => r == .rendezVousSem
  | _, _ => false

/-- How many of the queues a failing start has created is not told by where the call is. -/
def RoleOk (d running : Bool) (r : Role) (h : Handle) : MainPc → Prop
  | .destroyQueue _ i =>
    match r with
    | .firstEvent j => h = .live → i ≤ j ∧ j < maxSchedulerSubpriorityNumber
    | r => h = .live ↔ r.ofContext = true
  | pc => h = .live ↔ owns d running pc r = true

namespace Priority

/-- The workers that are there or have come to the rendezvous. -/
def load (s : Priority) : Nat := s.workers.length + s.value .rendezVousSem

def NoThreads (s : Priority) : Prop := s.workers = [] ∧ s.pullers = []

def Starting (s : Priority) : Prop := s.bindingRefCounter = 1 ∧ s.before = .rest

def PullersOk (d : Bool) (s : Priority) : Prop :=
  s.pullers ≠ [] → d = true ∧ s.pullers.length + s.value .syncChannelCloseSem ≤ 1

def Counted (s : Priority) : Prop := s.threadNumber = s.created ∧ s.load ≤ s.created

def LeavingFor (d : Bool) (s : Priority) : Leave → Prop
  | .failed => d = false ∧ s.Starting
  | .stopped => s.bindingRefCounter = 0

def NotYetStarted (d : Bool) (s : Priority) : Prop :=
  s.Starting ∧ s.NoThreads ∧ s.created = 0 ∧ (d = true → s.value .syncChannelCloseSem = 0)

def Phase (d : Bool) (s : Priority) : MainPc → Prop
  | .returned result =>
    (s.bindingRefCounter = 0 → s.isActive = false ∧ s.NoThreads) ∧
      (0 < s.bindingRefCounter → result ≠ 1 ∧ s.isActive = true ∧ s.Counted ∧ PullersOk d s) ∧
      (result = 1 → s.before = .rest)
  | .createChannel | .createCloseSem | .closeChannel =>
    d = true ∧ s.isActive = false ∧ s.Starting ∧ s.NoThreads ∧ s.created = 0
  | .createRendezVous => s.isActive = false ∧ NotYetStarted d s
  | .createNotifier | .createMutex | .initAttr | .createDistribution =>
    s.isActive = true ∧ s.value .rendezVousSem = 0 ∧ NotYetStarted d s
  | .createQueue i =>
    i ≤ maxSchedulerSubpriorityNumber ∧ s.isActive = true ∧ s.value .rendezVousSem = 0 ∧
      NotYetStarted d s
  | .createWorker j =>
    s.Starting ∧ s.isActive = true ∧ s.created = j ∧ s.load ≤ j ∧ PullersOk d s
  | .threadsStarted result =>
    s.Starting ∧ s.isActive = true ∧ s.created = result.natAbs ∧ s.load ≤ result.natAbs ∧
      PullersOk d s ∧ (d = true → 0 < result)
  | .flushChannel leave | .awaitDistribution leave =>
    leave = .stopped ∧ d = true ∧ s.bindingRefCounter = 0 ∧ s.isActive = true ∧ s.Counted ∧
      PullersOk d s
  | .destroyCloseSem leave | .destroyChannel leave =>
    leave = .stopped ∧ s.bindingRefCounter = 0 ∧ s.isActive = true ∧ s.Counted ∧ s.pullers = []
  | .deactivate leave => LeavingFor d s leave ∧ s.isActive = true ∧ s.Counted ∧ s.pullers = []
  | .wakeWorkers leave _ => LeavingFor d s leave ∧ s.isActive = false ∧ s.Counted ∧ s.pullers = []
  | .awaitWorkers leave i =>
    LeavingFor d s leave ∧ s.isActive = false ∧ s.threadNumber = s.created ∧
      s.load + i ≤ s.created ∧ s.pullers = []
  | .destroyQueue leave _ | .destroyMutex leave | .destroyNotifier leave | .destroyRendezVous leave =>
    LeavingFor d s leave ∧ s.NoThreads ∧ (leave = .stopped → s.isActive = false)
  | .giveUp => s.Starting ∧ s.NoThreads
  | .refuse => s.Starting ∧ s.NoThreads ∧ s.isActive = false
  | .panicked => False

/-- Once the distribution of the priority is started, nothing that follows fails. -/
def startsWhole (c : EeConfiguration) (priority : Nat) (s : Priority) : Action → Bool
  | .main fails => !c.isDistributionThread priority ||
    match s.main with
    | .createRendezVous | .createNotifier | .createMutex | .createQueue _ | .initAttr
    | .createDistribution => !fails
    | .createWorker _ =>
      !fails && (c.getCfgForPrio priority).all fun cfg => decide (0 < cfg.nWorkerThreads)
    | _ => true
  | _ => true

end Priority

structure Inv (d : Bool) (s : Priority) : Prop where
  roles : ∀ r, RoleOk d (decide (0 < s.bindingRefCounter)) r (s.handle r) s.main
  cleared : ∀ r, r.cleared = true → s.handle r ≠ .dangling
  leaked : s.leaked = 0
  phase : s.Phase d s.main

theorem inv_start (d : Bool) : Inv d .start where
  roles := by
    exact fun r => iff_of_false (fun h => nomatch h) Bool.false_ne_true
  cleared := fun _ _ => (fun h => nomatch h)
  leaked := rfl
  phase := ⟨fun _ => ⟨rfl, rfl, rfl⟩, fun h => absurd h (Nat.lt_irrefl 0), fun _ => rfl⟩

section Steps
variable {s t : Priority} {d : Bool} {pc pc' : MainPc} {r : Role}

/-- A call goes on without touching what exists. -/
theorem Inv.goto (hinv : Inv d s) (hhandle : t.handle = s.handle) (hleaked : t.leaked = s.leaked)
    (hroles : ∀ r h, RoleOk d (decide (0 < s.bindingRefCounter)) r h s.main →
      RoleOk d (decide (0 < t.bindingRefCounter)) r h t.main)
    (hphase : t.Phase d t.main) : Inv d t where
  roles := by
    intro r
    rw [hhandle]
    exact hroles r _ (hinv.roles r)
  cleared := by
    rw [hhandle]
    exact hinv.cleared
  leaked := hleaked.trans hinv.leaked
  phase := hphase

/-- What one field refers to changes. -/
theorem Inv.update (hinv : Inv d s) {h : Handle} (hhandle : t.handle = Function.update s.handle r h)
    (hleaked : t.leaked = 0) (hcleared : r.cleared = true → h ≠ .dangling)
    (hone : RoleOk d (decide (0 < t.bindingRefCounter)) r h t.main)
    (hothers : ∀ r' h, r' ≠ r → RoleOk d (decide (0 < s.bindingRefCounter)) r' h s.main →
      RoleOk d (decide (0 < t.bindingRefCounter)) r' h t.main)
    (hphase : t.Phase d t.main) : Inv d t where
  roles := by
    intro r'
    rw [hhandle]
    by_cases hr : r' = r
    · subst hr
      rw [Function.update_self]
      exact hone
    · rw [Function.update_of_ne hr]
      exact hothers r' _ hr (hinv.roles r')
  cleared := by
    intro r' hr'
    rw [hhandle]
    by_cases hr : r' = r
    · subst hr
      rw [Function.update_self]
      exact hcleared hr'
    · rw [Function.update_of_ne hr]
      exact hinv.cleared r' hr'
  leaked := hleaked
  phase := hphase

theorem assign_leaked (fails : Bool) (hleaked : s.leaked = 0) (h : s.handle r ≠ .live) :
    (s.assign r fails).leaked = 0 := by
  change (if s.handle r = .live then s.leaked + 1 else s.leaked) = 0
  rw [if_neg h, hleaked]

theorem Inv.created (hinv : Inv d s) (fails : Bool) (hnot : s.handle r ≠ .live)
    (hone : RoleOk d (decide (0 < s.bindingRefCounter)) r (if fails then .null else .live) pc)
    (hothers : ∀ r' h, r' ≠ r → RoleOk d (decide (0 < s.bindingRefCounter)) r' h s.main →
      RoleOk d (decide (0 < s.bindingRefCounter)) r' h pc)
    (hphase : ((s.assign r fails).goto pc).Phase d pc) : Inv d ((s.assign r fails).goto pc) := by
  refine hinv.update rfl (assign_leaked fails hinv.leaked hnot) ?_ hone hothers hphase
  intro _
  cases fails <;> exact fun h => nomatch h

theorem Inv.destroyed (hinv : Inv d s)
    (hone : ∀ h, h ≠ .live → RoleOk d (decide (0 < s.bindingRefCounter)) r h pc)
    (hothers : ∀ r' h, r' ≠ r → RoleOk d (decide (0 < s.bindingRefCounter)) r' h s.main →
      RoleOk d (decide (0 < s.bindingRefCounter)) r' h pc)
    (hphase : ((s.destroy r).goto pc).Phase d pc) : Inv d ((s.destroy r).goto pc) := by
  refine hinv.update rfl hinv.leaked ?_ (hone _ ?_) hothers hphase
  · intro hr
    rw [if_pos hr]
    exact fun h => nomatch h
  · split <;> exact fun h => nomatch h

theorem Inv.not_live (hinv : Inv d s) (hpc : s.main = pc)
    (howns : ∀ running h, RoleOk d running r h pc → h ≠ .live) : s.handle r ≠ .live := by
  have hrole := hinv.roles r
  rw [hpc] at hrole
  exact howns _ _ hrole

theorem create_channel_inv (fails : Bool) (hinv : Inv d s) (hpc : s.main = .createChannel) :
    s.handle .channel = .null ∧ Inv d (s.create .channel fails .createCloseSem .refuse) := by
  have hphase := hinv.phase
  rw [hpc] at hphase
  obtain ⟨hd, hactive, hstarting, hthreads, hcreated⟩ := hphase
  have hnot : s.handle .channel ≠ .live :=
    hinv.not_live hpc fun _ _ hrole h => Bool.false_ne_true (hrole.mp h)
  refine ⟨?_, ?_⟩
  · cases h : s.handle .channel with
    | null => rfl
    | live => exact absurd h hnot
    | dangling => exact absurd h (hinv.cleared _ rfl)
  · cases fails with
    | true =>
      refine hinv.created true hnot ?_ ?_ ⟨hstarting, hthreads, hactive⟩
      · exact iff_of_false (fun h => nomatch h) Bool.false_ne_true
      · intro r' h _ hr'
        rwa [hpc] at hr'
    | false =>
      refine hinv.created false hnot ?_ ?_ ⟨hd, hactive, hstarting, hthreads, hcreated⟩
      · exact iff_of_true rfl rfl
      · intro r' h hne hr'
        rw [hpc] at hr'
        cases r' with
        | channel => exact absurd rfl hne
        | _ => exact hr'

theorem create_close_sem_inv (fails : Bool) (hinv : Inv d s) (hpc : s.main = .createCloseSem) :
    Inv d (s.create .syncChannelCloseSem fails .createRendezVous .closeChannel) := by
  have hphase := hinv.phase
  rw [hpc] at hphase
  obtain ⟨rfl, hactive, hstarting, hthreads, hcreated⟩ := hphase
  have hnot : s.handle .syncChannelCloseSem ≠ .live :=
    hinv.not_live hpc fun _ _ hrole h => Bool.false_ne_true (hrole.mp h)
  cases fails with
  | true =>
    refine hinv.created true hnot ?_ ?_ ⟨rfl, hactive, hstarting, hthreads, hcreated⟩
    · exact iff_of_false (fun h => nomatch h) Bool.false_ne_true
    · intro r' h _ hr'
      rwa [hpc] at hr'
  | false =>
    refine hinv.created false hnot ?_ ?_ ⟨hactive, hstarting, hthreads, hcreated, fun _ => rfl⟩
    · exact iff_of_true rfl rfl
    · intro r' h hne hr'
      rw [hpc] at hr'
      cases r' with
      | syncChannelCloseSem => exact absurd rfl hne
      | _ => exact hr'

theorem close_channel_inv (hinv : Inv d s) (hpc : s.main = .closeChannel) :
    Inv d ((s.destroy .channel).goto .refuse) := by
  have hphase := hinv.phase
  rw [hpc] at hphase
  obtain ⟨-, hactive, hstarting, hthreads, -⟩ := hphase
  refine hinv.destroyed ?_ ?_ ⟨hstarting, hthreads, hactive⟩
  · exact fun h hne => iff_of_false hne Bool.false_ne_true
  · intro r' h hne hr'
    rw [hpc] at hr'
    cases r' with
    | channel => exact absurd rfl hne
    | _ => exact hr'

theorem without_distribution (hd : d = true → true = false) : d = false := by
  cases d with
  | true => cases hd rfl
  | false => rfl

theorem create_rendez_vous_inv (fails : Bool) (hinv : Inv d s) (hpc : s.main = .createRendezVous)
    (hd : d = true → fails = false) :
    Inv d ({ s with wakeUpCounter := 0, isActive := true }.create .rendezVousSem fails .createNotifier
      .giveUp) := by
  have hphase := hinv.phase
  rw [hpc] at hphase
  obtain ⟨hactive, hstarting, hthreads, hcreated, hsem⟩ := hphase
  have hnot : s.handle .rendezVousSem ≠ .live := by
    refine hinv.not_live hpc fun _ _ hrole h => ?_
    have howns := hrole.mp h
    simp [owns, Role.ofDistribution] at howns
  cases fails with
  | true =>
    obtain rfl := without_distribution hd
    refine hinv.update (r := .rendezVousSem) (h := .null) rfl (assign_leaked true hinv.leaked hnot)
      (fun h => nomatch h) ?_ ?_ ⟨hstarting, hthreads⟩
    · exact iff_of_false (fun h => nomatch h) Bool.false_ne_true
    · intro r' h _ hr'
      rwa [hpc] at hr'
  | false =>
    refine hinv.update (r := .rendezVousSem) (h := .live) rfl (assign_leaked false hinv.leaked hnot)
      (fun h => nomatch h) ?_ ?_ ⟨rfl, rfl, hstarting, hthreads, hcreated, hsem⟩
    · exact iff_of_true rfl rfl
    · intro r' h hne hr'
      rw [hpc] at hr'
      cases r' with
      | rendezVousSem => exact absurd rfl hne
      | _ => exact hr'

theorem create_notifier_inv (fails : Bool) (hinv : Inv d s) (hpc : s.main = .createNotifier)
    (hd : d = true → fails = false) :
    Inv d (s.create .semNotifier fails .createMutex (.destroyRendezVous .failed)) := by
  have hphase := hinv.phase
  rw [hpc] at hphase
  obtain ⟨hactive, hzero, hstarting, hthreads, hcreated, hsem⟩ := hphase
  have hnot : s.handle .semNotifier ≠ .live := by
    refine hinv.not_live hpc fun _ _ hrole h => ?_
    have howns := hrole.mp h
    simp [owns, Role.ofDistribution] at howns
  cases fails with
  | true =>
    obtain rfl := without_distribution hd
    refine hinv.created true hnot ?_ ?_ ⟨⟨rfl, hstarting⟩, hthreads, fun h => nomatch h⟩
    · exact iff_of_false (fun h => nomatch h) Bool.false_ne_true
    · intro r' h _ hr'
      rw [hpc] at hr'
      cases r' <;> exact hr'
  | false =>
    refine hinv.created false hnot ?_ ?_ ⟨hactive, hzero, hstarting, hthreads, hcreated, hsem⟩
    · exact iff_of_true rfl rfl
    · intro r' h hne hr'
      rw [hpc] at hr'
      cases r' with
      | semNotifier => exact absurd rfl hne
      | _ => exact hr'

theorem create_mutex_inv (fails : Bool) (hinv : Inv d s) (hpc : s.main = .createMutex)
    (hd : d = true → fails = false) :
    Inv d (s.create .priorityQueuesMutex fails (.createQueue 0) (.destroyNotifier .failed)) := by
  have hphase := hinv.phase
  rw [hpc] at hphase
  obtain ⟨hactive, hzero, hstarting, hthreads, hcreated, hsem⟩ := hphase
  have hnot : s.handle .priorityQueuesMutex ≠ .live := by
    refine hinv.not_live hpc fun _ _ hrole h => ?_
    have howns := hrole.mp h
    simp [owns, Role.ofDistribution] at howns
  cases fails with
  | true =>
    obtain rfl := without_distribution hd
    refine hinv.created true hnot ?_ ?_ ⟨⟨rfl, hstarting⟩, hthreads, fun h => nomatch h⟩
    · exact iff_of_false (fun h => nomatch h) Bool.false_ne_true
    · intro r' h _ hr'
      rw [hpc] at hr'
      cases r' <;> exact hr'
  | false =>
    refine hinv.created false hnot ?_ ?_
      ⟨Nat.zero_le _, hactive, hzero, hstarting, hthreads, hcreated, hsem⟩
    · exact iff_of_true rfl rfl
    · intro r' h hne hr'
      rw [hpc] at hr'
      cases r' with
      | priorityQueuesMutex => exact absurd rfl hne
      | firstEvent j =>
        refine hr'.trans (iff_of_false ?_ ?_)
        · simp [owns, Role.ofDistribution]
        · simp [owns]
      | _ => exact hr'

theorem create_queue_inv {i : Nat} (fails : Bool) (hinv : Inv d s) (hpc : s.main = .createQueue i)
    (hi : i < maxSchedulerSubpriorityNumber) (hd : d = true → fails = false) :
    Inv d (s.create (.firstEvent i) fails (.createQueue (i + 1)) (.destroyQueue .failed 0)) := by
  have hphase := hinv.phase
  rw [hpc] at hphase
  obtain ⟨-, hactive, hzero, hstarting, hthreads, hcreated, hsem⟩ := hphase
  have hnot : s.handle (.firstEvent i) ≠ .live := by
    refine hinv.not_live hpc fun _ _ hrole h => ?_
    have howns := hrole.mp h
    simp [owns] at howns
  cases fails with
  | true =>
    obtain rfl := without_distribution hd
    refine hinv.created true hnot ?_ ?_ ⟨⟨rfl, hstarting⟩, hthreads, fun h => nomatch h⟩
    · exact fun h => nomatch h
    · intro r' h _ hr'
      rw [hpc] at hr'
      cases r' with
      | firstEvent j =>
        intro hlive
        have hj : j < i := of_decide_eq_true (hr'.mp hlive)
        exact ⟨Nat.zero_le j, Nat.lt_trans hj hi⟩
      | _ => exact hr'
  | false =>
    refine hinv.created false hnot ?_ ?_ ⟨hi, hactive, hzero, hstarting, hthreads, hcreated, hsem⟩
    · exact iff_of_true rfl (decide_eq_true (Nat.lt_succ_self i))
    · intro r' h hne hr'
      rw [hpc] at hr'
      cases r' with
      | firstEvent j =>
        have hji : j ≠ i := fun heq => hne (congrArg _ heq)
        refine hr'.trans ?_
        change decide (j < i) = true ↔ decide (j < i + 1) = true
        simp only [decide_eq_true_eq]
        omega
      | _ => exact hr'

theorem queues_created_inv {i : Nat} (hinv : Inv d s) (hpc : s.main = .createQueue i)
    (hi : ¬ i < maxSchedulerSubpriorityNumber) : Inv d (s.goto .initAttr) := by
  have hphase := hinv.phase
  rw [hpc] at hphase
  obtain ⟨hle, hphase⟩ := hphase
  have hi : i = maxSchedulerSubpriorityNumber := Nat.le_antisymm hle (Nat.le_of_not_lt hi)
  refine hinv.goto rfl rfl ?_ hphase
  intro r h hr
  rw [hpc, hi] at hr
  cases r with
  | firstEvent j =>
    refine hr.trans ?_
    change _ ↔ (decide (j < maxSchedulerSubpriorityNumber) || (d && false)) = true
    rw [Bool.and_false, Bool.or_false]
    exact Iff.rfl
  | _ => exact hr

theorem load_append (s : Priority) (pc : WorkerPc) (k : Nat) :
    { s with workers := s.workers ++ [pc], created := k }.load = s.load + 1 := by
  change (s.workers ++ [pc]).length + _ = s.workers.length + _ + 1
  rw [List.length_append, List.length_singleton]
  exact Nat.add_right_comm _ _ _

/-- What a start knows before the first worker. -/
theorem not_yet_started_load (h : s.NotYetStarted d) (hzero : s.value .rendezVousSem = 0) :
    s.load = 0 := by
  rw [Priority.load, h.2.1.1, hzero]
  rfl

theorem pullers_ok_of_nil (h : s.pullers = []) : s.PullersOk d := fun hne => absurd h hne

theorem no_threads_started_inv (hinv : Inv d s)
    (hpc : s.main = .initAttr ∨ s.main = .createDistribution) (hd : d = false) :
    Inv d (s.goto (.threadsStarted 0)) := by
  have hphase : s.Phase d .initAttr := by
    have hphase := hinv.phase
    rcases hpc with hpc | hpc
    · rwa [hpc] at hphase
    · rwa [hpc] at hphase
  obtain ⟨hactive, hzero, hnot⟩ := hphase
  have hload := not_yet_started_load hnot hzero
  refine hinv.goto rfl rfl ?_ ⟨hnot.1, hactive, hnot.2.2.1, Nat.le_of_eq hload,
    pullers_ok_of_nil hnot.2.1.2, fun htrue => ?_⟩
  · intro r h hr
    rcases hpc with hpc | hpc
    · rwa [hpc] at hr
    · rwa [hpc] at hr
  · rw [hd] at htrue
    cases htrue

theorem init_attr_inv (hinv : Inv d s) (hpc : s.main = .initAttr) :
    Inv d (s.goto .createDistribution) := by
  have hphase := hinv.phase
  rw [hpc] at hphase
  refine hinv.goto rfl rfl ?_ hphase
  intro r h hr
  rwa [hpc] at hr

theorem create_distribution_inv (hinv : Inv d s) (hpc : s.main = .createDistribution) :
    (d = true → Inv d ({ s with pullers := s.pullers ++ [PullerPc.starting] }.goto (.createWorker 0))) ∧
      (d = false → Inv d (s.goto (.createWorker 0))) := by
  have hphase := hinv.phase
  rw [hpc] at hphase
  obtain ⟨hactive, hzero, hnot⟩ := hphase
  have hload := not_yet_started_load hnot hzero
  have hroles : ∀ r h, RoleOk d (decide (0 < s.bindingRefCounter)) r h s.main →
      RoleOk d (decide (0 < s.bindingRefCounter)) r h (.createWorker 0) := by
    intro r h hr
    rwa [hpc] at hr
  refine ⟨fun hd => ?_, fun _ => ?_⟩
  · refine hinv.goto rfl rfl hroles
      ⟨hnot.1, hactive, hnot.2.2.1, Nat.le_of_eq hload, fun _ => ⟨hd, ?_⟩⟩
    change (s.pullers ++ [PullerPc.starting]).length + s.value .syncChannelCloseSem ≤ 1
    rw [hnot.2.1.2, hnot.2.2.2 hd]
    exact Nat.le_refl 1
  · exact hinv.goto rfl rfl hroles ⟨hnot.1, hactive, hnot.2.2.1, Nat.le_of_eq hload,
      pullers_ok_of_nil hnot.2.1.2⟩

theorem start_worker_inv {j : Nat} {cfg : ThConfig} (fails : Bool) (hinv : Inv d s)
    (hpc : s.main = .createWorker j)
    (hd : d = true → fails = false ∧ 0 < cfg.nWorkerThreads) :
    Inv d (s.startWorker cfg j fails) := by
  have hphase := hinv.phase
  rw [hpc] at hphase
  obtain ⟨hstarting, hactive, hcreated, hload, hpullers⟩ := hphase
  have hroles : ∀ r h pc', (pc' = .createWorker (j + 1) ∨ ∃ result, pc' = .threadsStarted result) →
      RoleOk d (decide (0 < s.bindingRefCounter)) r h s.main →
        RoleOk d (decide (0 < s.bindingRefCounter)) r h pc' := by
    intro r h pc' hnext hr
    rw [hpc] at hr
    rcases hnext with rfl | ⟨result, rfl⟩
    · exact hr
    · exact hr
  unfold Priority.startWorker
  split
  · rename_i hj
    cases fails with
    | true =>
      rw [if_pos rfl]
      -- with a distribution thread no worker is refused
      obtain rfl : d = false := by
        cases d with
        | true => cases (hd rfl).1
        | false => rfl
      refine hinv.goto rfl rfl (fun r h => hroles r h _ (Or.inr ⟨_, rfl⟩))
        ⟨hstarting, hactive, ?_, ?_, hpullers, fun h => nomatch h⟩
      · rw [Int.natAbs_neg]
        exact hcreated
      · rw [Int.natAbs_neg]
        exact hload
    | false =>
      rw [if_neg Bool.false_ne_true]
      refine hinv.goto rfl rfl (fun r h => hroles r h _ (Or.inl rfl))
        ⟨hstarting, hactive, rfl, ?_, hpullers⟩
      change { s with workers := s.workers ++ [WorkerPc.starting], created := j + 1 }.load ≤ j + 1
      rw [load_append]
      exact Nat.succ_le_succ hload
  · rename_i hj
    refine hinv.goto rfl rfl (fun r h => hroles r h _ (Or.inr ⟨_, rfl⟩))
      ⟨hstarting, hactive, hcreated, hload, hpullers, fun htrue => ?_⟩
    have hpos := (hd htrue).2
    omega

theorem test_threads_inv {result : Int} (hinv : Inv d s) (hpc : s.main = .threadsStarted result) :
    Inv d (s.testThreads d result) := by
  have hphase := hinv.phase
  rw [hpc] at hphase
  obtain ⟨hstarting, hactive, hcreated, hload, hpullers, hpos⟩ := hphase
  unfold Priority.testThreads
  by_cases hneg : result ≤ 0
  · rw [if_pos hneg]
    -- an error without a distribution thread: the workers are awaited, all of them
    obtain rfl : d = false := by
      cases d with
      | true => exact absurd (hpos rfl) (Int.not_lt.mpr hneg)
      | false => rfl
    have hnone : s.pullers = [] := by
      by_contra hne
      exact Bool.false_ne_true (hpullers hne).1
    have habs : -result = (s.created : Int) := by
      rw [hcreated]
      omega
    refine hinv.goto rfl rfl ?_ ⟨⟨rfl, hstarting⟩, hactive, ⟨habs, ?_⟩, hnone⟩
    · intro r h hr
      rw [hpc] at hr
      refine hr.trans ?_
      change (r.ofContext || (false && r.ofDistribution)) = true ↔ r.ofContext = true
      rw [Bool.false_and, Bool.or_false]
    · rw [hcreated]
      exact hload
  · rw [if_neg hneg]
    have hcount : s.bindingRefCounter = 1 := hstarting.1
    have hone : result ≠ 0 := by omega
    refine hinv.goto rfl rfl ?_ ⟨fun hzero => ?_,
      fun _ => ⟨(fun h => nomatch h), hactive, ⟨?_, ?_⟩, hpullers⟩, fun h => nomatch h⟩
    · intro r h hr
      rw [hpc] at hr
      change RoleOk d (decide (0 < s.bindingRefCounter)) r h (.returned 0)
      rw [hcount]
      exact hr
    · exact absurd (hcount.symm.trans hzero) (by decide)
    · change result = (s.created : Int)
      rw [hcreated]
      omega
    · rw [hcreated]
      exact hload

theorem flush_channel_inv {leave : Leave} (hinv : Inv d s) (hpc : s.main = .flushChannel leave) :
    s.handle .channel ≠ .null ∧ Inv d ((s.semV .channel).goto (.awaitDistribution leave)) := by
  have hphase := hinv.phase
  have hrole := hinv.roles .channel
  rw [hpc] at hphase hrole
  have hlive : s.handle .channel = .live := hrole.mpr rfl
  refine ⟨fun hnull => ?_, hinv.goto rfl rfl ?_ hphase⟩
  · rw [hlive] at hnull
    cases hnull
  · intro r h hr
    rwa [hpc] at hr

theorem sem_p_eq {r : Role} (h : s.semP r = some t) :
    0 < s.value r ∧ t = { s with value := Function.update s.value r (s.value r - 1) } := by
  obtain ⟨hpos, heq⟩ := Option.ite_none_right_eq_some.mp h
  exact ⟨hpos, (Option.some.inj heq).symm⟩

theorem await_distribution_inv {leave : Leave} (hinv : Inv d s)
    (hpc : s.main = .awaitDistribution leave) (hsem : s.semP .syncChannelCloseSem = some t) :
    Inv d (t.goto (.destroyCloseSem leave)) := by
  have hphase := hinv.phase
  rw [hpc] at hphase
  obtain ⟨hleave, hd, hcount, hactive, hcounted, hpullers⟩ := hphase
  obtain ⟨hpos, rfl⟩ := sem_p_eq hsem
  have hnone : s.pullers = [] := by
    by_contra hne
    have hsum := (hpullers hne).2
    have hlength := List.length_pos_of_ne_nil hne
    omega
  refine hinv.goto rfl rfl ?_ ⟨hleave, hcount, hactive, hcounted, hnone⟩
  intro r h hr
  rwa [hpc] at hr

theorem destroy_close_sem_inv {leave : Leave} (hinv : Inv d s)
    (hpc : s.main = .destroyCloseSem leave) :
    Inv d ((s.destroy .syncChannelCloseSem).goto (.destroyChannel leave)) := by
  have hphase := hinv.phase
  rw [hpc] at hphase
  refine hinv.destroyed ?_ ?_ hphase
  · exact fun h hne => iff_of_false hne Bool.false_ne_true
  · intro r' h hne hr'
    rw [hpc] at hr'
    cases r' with
    | syncChannelCloseSem => exact absurd rfl hne
    | firstEvent j =>
      refine hr'.trans ?_
      change (decide (j < maxSchedulerSubpriorityNumber) || false) = true ↔
        (decide (j < maxSchedulerSubpriorityNumber) || false) = true
      exact Iff.rfl
    | _ => exact hr'

theorem destroy_channel_inv (hinv : Inv d s) (hpc : s.main = .destroyChannel .stopped) :
    Inv d ((s.destroy .channel).goto (.deactivate .stopped)) := by
  have hphase := hinv.phase
  rw [hpc] at hphase
  obtain ⟨-, hcount, hactive, hcounted, hnone⟩ := hphase
  refine hinv.destroyed ?_ ?_ ⟨hcount, hactive, hcounted, hnone⟩
  · exact fun h hne => iff_of_false hne Bool.false_ne_true
  · intro r' h hne hr'
    rw [hpc] at hr'
    cases r' with
    | channel => exact absurd rfl hne
    | firstEvent j =>
      refine hr'.trans ?_
      change (decide (j < maxSchedulerSubpriorityNumber) || false) = true ↔
        decide (j < maxSchedulerSubpriorityNumber) = true
      rw [Bool.or_false]
    | _ => exact hr'

theorem deactivate_inv {leave : Leave} (hinv : Inv d s) (hpc : s.main = .deactivate leave) :
    Inv d ({ s with isActive := false }.goto (.wakeWorkers leave 0)) := by
  have hphase := hinv.phase
  rw [hpc] at hphase
  obtain ⟨hleave, -, hrest⟩ := hphase
  refine hinv.goto rfl rfl ?_ ⟨?_, rfl, hrest⟩
  · intro r h hr
    rwa [hpc] at hr
  · cases leave <;> exact hleave

theorem wake_workers_inv {leave : Leave} {i : Nat} (hinv : Inv d s)
    (hpc : s.main = .wakeWorkers leave i) :
    Inv d ((s.semV .semNotifier).goto (.wakeWorkers leave (i + 1))) ∧
      Inv d (s.goto (.awaitWorkers leave 0)) := by
  have hphase := hinv.phase
  rw [hpc] at hphase
  obtain ⟨hleave, hactive, hcounted, hnone⟩ := hphase
  refine ⟨hinv.goto rfl rfl ?_ ⟨?_, hactive, hcounted, hnone⟩,
    hinv.goto rfl rfl ?_ ⟨?_, hactive, hcounted.1, hcounted.2, hnone⟩⟩
  · intro r h hr
    rwa [hpc] at hr
  · cases leave <;> exact hleave
  · intro r h hr
    rwa [hpc] at hr
  · cases leave <;> exact hleave

theorem await_worker_inv {leave : Leave} {i : Nat} (hinv : Inv d s)
    (hpc : s.main = .awaitWorkers leave i) (hsem : s.semP .rendezVousSem = some t) :
    Inv d (t.goto (.awaitWorkers leave (i + 1))) := by
  have hphase := hinv.phase
  rw [hpc] at hphase
  obtain ⟨hleave, hactive, hnumber, hload, hnone⟩ := hphase
  obtain ⟨hpos, rfl⟩ := sem_p_eq hsem
  refine hinv.goto rfl rfl ?_ ⟨?_, hactive, hnumber, ?_, hnone⟩
  · intro r h hr
    rwa [hpc] at hr
  · cases leave <;> exact hleave
  · change s.workers.length + (s.value .rendezVousSem - 1) + (i + 1) ≤ s.created
    unfold Priority.load at hload
    omega

/-- Every worker that was created has come to the rendezvous. -/
theorem workers_gone_inv {leave : Leave} {i : Nat} {number wake : Int} (hinv : Inv d s)
    (hpc : s.main = .awaitWorkers leave i) (hi : ¬ (i : Int) < s.threadNumber) :
    Inv d ({ s with threadNumber := number, wakeUpCounter := wake }.goto (.destroyQueue leave 0)) := by
  have hphase := hinv.phase
  rw [hpc] at hphase
  obtain ⟨hleave, hactive, hnumber, hload, hnone⟩ := hphase
  have hgone : s.workers = [] := by
    apply List.eq_nil_of_length_eq_zero
    rw [hnumber] at hi
    unfold Priority.load at hload
    omega
  refine hinv.goto rfl rfl ?_ ⟨?_, ⟨hgone, hnone⟩, fun _ => hactive⟩
  · intro r h hr
    rw [hpc] at hr
    cases r with
    | firstEvent j =>
      intro hlive
      exact ⟨Nat.zero_le j, of_decide_eq_true (hr.mp hlive)⟩
    | _ => exact hr
  · cases leave <;> exact hleave

theorem destroy_queue_inv {leave : Leave} {i : Nat} (hinv : Inv d s)
    (hpc : s.main = .destroyQueue leave i) :
    Inv d ((s.destroy (.firstEvent i)).goto (.destroyQueue leave (i + 1))) := by
  have hphase := hinv.phase
  rw [hpc] at hphase
  obtain ⟨hleave, hthreads, hactive⟩ := hphase
  refine hinv.destroyed ?_ ?_ ⟨?_, hthreads, hactive⟩
  · exact fun h hne hlive => absurd hlive hne
  · intro r' h hne hr'
    rw [hpc] at hr'
    cases r' with
    | firstEvent j =>
      intro hlive
      obtain ⟨hij, hj⟩ := hr' hlive
      have hji : j ≠ i := fun heq => hne (congrArg _ heq)
      exact ⟨Nat.lt_of_le_of_ne hij (Ne.symm hji), hj⟩
    | _ => exact hr'
  · cases leave <;> exact hleave

theorem queues_destroyed_inv {leave : Leave} {i : Nat} (hinv : Inv d s)
    (hpc : s.main = .destroyQueue leave i) (hi : ¬ i < maxSchedulerSubpriorityNumber) :
    Inv d (s.goto (.destroyMutex leave)) := by
  have hphase := hinv.phase
  rw [hpc] at hphase
  refine hinv.goto rfl rfl ?_ ?_
  · intro r h hr
    rw [hpc] at hr
    cases r with
    | firstEvent j =>
      refine iff_of_false (fun hlive => ?_) Bool.false_ne_true
      obtain ⟨hij, hj⟩ := hr hlive
      exact hi (Nat.lt_of_le_of_lt hij hj)
    | _ => exact hr
  · cases leave <;> exact hphase

theorem destroy_mutex_inv {leave : Leave} (hinv : Inv d s) (hpc : s.main = .destroyMutex leave) :
    Inv d ((s.destroy .priorityQueuesMutex).goto (.destroyNotifier leave)) := by
  have hphase := hinv.phase
  rw [hpc] at hphase
  refine hinv.destroyed ?_ ?_ ?_
  · exact fun h hne => iff_of_false hne Bool.false_ne_true
  · intro r' h hne hr'
    rw [hpc] at hr'
    cases r' with
    | priorityQueuesMutex => exact absurd rfl hne
    | _ => exact hr'
  · cases leave <;> exact hphase

theorem destroy_notifier_inv {leave : Leave} (hinv : Inv d s)
    (hpc : s.main = .destroyNotifier leave) :
    Inv d ((s.destroy .semNotifier).goto (.destroyRendezVous leave)) := by
  have hphase := hinv.phase
  rw [hpc] at hphase
  refine hinv.destroyed ?_ ?_ ?_
  · exact fun h hne => iff_of_false hne Bool.false_ne_true
  · intro r' h hne hr'
    rw [hpc] at hr'
    cases r' with
    | semNotifier => exact absurd rfl hne
    | _ => exact hr'
  · cases leave <;> exact hphase

theorem rendez_vous_destroyed_failed_inv (hinv : Inv d s) (hpc : s.main = .destroyRendezVous .failed) :
    Inv d ((s.destroy .rendezVousSem).goto .giveUp) := by
  have hphase := hinv.phase
  rw [hpc] at hphase
  obtain ⟨hleave, hthreads, -⟩ := hphase
  refine hinv.destroyed ?_ ?_ ⟨hleave.2, hthreads⟩
  · exact fun h hne => iff_of_false hne Bool.false_ne_true
  · intro r' h hne hr'
    rw [hpc] at hr'
    cases r' with
    | rendezVousSem => exact absurd rfl hne
    | _ => exact hr'

theorem rendez_vous_destroyed_stopped_inv (hinv : Inv d s)
    (hpc : s.main = .destroyRendezVous .stopped) :
    Inv d ((s.destroy .rendezVousSem).goto (.returned 0)) := by
  have hphase := hinv.phase
  rw [hpc] at hphase
  obtain ⟨hcount, hthreads, hactive⟩ := hphase
  have hzero : s.bindingRefCounter = 0 := hcount
  have hstopped : decide (0 < s.bindingRefCounter) = false := by
    rw [hzero]
    rfl
  refine hinv.destroyed ?_ ?_ ⟨fun _ => ⟨hactive rfl, hthreads⟩, fun hpos => ?_, fun h => nomatch h⟩
  · rw [hstopped]
    exact fun h hne => iff_of_false hne Bool.false_ne_true
  · intro r' h hne hr'
    rw [hpc] at hr'
    rw [hstopped]
    cases r' with
    | rendezVousSem => exact absurd rfl hne
    | _ => exact hr'
  · exact absurd hzero (Nat.ne_of_gt hpos)

theorem give_up_inv (hinv : Inv d s) (hpc : s.main = .giveUp) :
    Inv d ({ s with isActive := false }.goto .refuse) := by
  have hphase := hinv.phase
  rw [hpc] at hphase
  refine hinv.goto rfl rfl ?_ ⟨hphase.1, hphase.2, rfl⟩
  intro r h hr
  rwa [hpc] at hr

theorem refuse_inv (hinv : Inv d s) (hpc : s.main = .refuse) :
    Inv d ({ s with bindingRefCounter := s.bindingRefCounter - 1 }.goto (.returned 1)) := by
  have hphase := hinv.phase
  rw [hpc] at hphase
  obtain ⟨hstarting, hthreads, hactive⟩ := hphase
  have hzero : s.bindingRefCounter - 1 = 0 := by
    rw [hstarting.1]
  refine hinv.goto rfl rfl ?_ ⟨fun _ => ⟨hactive, hthreads⟩, fun hpos => ?_, fun _ => hstarting.2⟩
  · intro r h hr
    rw [hpc] at hr
    change RoleOk d (decide (0 < s.bindingRefCounter - 1)) r h (.returned 1)
    rw [hzero]
    exact hr
  · exact absurd hzero (Nat.ne_of_gt hpos)

/-- Where the priority has no components nothing exists. -/
theorem Inv.snapshot_rest {result : Nat} (hinv : Inv d s) (hpc : s.main = .returned result)
    (hzero : s.bindingRefCounter = 0) : s.snapshot = .rest := by
  have hphase := hinv.phase
  rw [hpc] at hphase
  obtain ⟨hactive, hworkers, hpullers⟩ := hphase.1 hzero
  have hhandle : (fun r => (s.handle r).settled r) = fun _ => .null := by
    funext r
    have hrole := hinv.roles r
    rw [hpc, hzero] at hrole
    cases h : s.handle r with
    | null => rfl
    | live => exact absurd (hrole.mp h) Bool.false_ne_true
    | dangling =>
      have hcleared : ¬ r.cleared = true := fun hr => hinv.cleared r hr h
      exact if_neg hcleared
  rw [Priority.snapshot, hzero, hactive, hhandle, hinv.leaked, hworkers, hpullers]
  rfl

theorem signal_creation_inv {result : Nat} (hinv : Inv d s) (hpc : s.main = .returned result) :
    Inv d (s.signalCreation d) := by
  have hphase := hinv.phase
  rw [hpc] at hphase
  unfold Priority.signalCreation
  by_cases hzero : s.bindingRefCounter = 0
  · rw [if_pos hzero]
    obtain ⟨hactive, hthreads⟩ := hphase.1 hzero
    have hstarting : ({ s with bindingRefCounter := 1, created := 0, before := s.snapshot }).Starting :=
      ⟨rfl, hinv.snapshot_rest hpc hzero⟩
    have hstopped : decide (0 < s.bindingRefCounter) = false := by
      rw [hzero]
      rfl
    cases d with
    | true =>
      refine hinv.goto rfl rfl ?_ ⟨rfl, hactive, hstarting, hthreads, rfl⟩
      intro r h hr
      rw [hpc, hstopped] at hr
      exact hr
    | false =>
      refine hinv.goto rfl rfl ?_ ⟨hactive, hstarting, hthreads, rfl, fun h => nomatch h⟩
      intro r h hr
      rw [hpc, hstopped] at hr
      exact hr
  · rw [if_neg hzero]
    have hpos := Nat.pos_of_ne_zero hzero
    obtain ⟨-, hrunning⟩ := hphase.2.1 hpos
    refine hinv.goto rfl rfl ?_ ⟨(fun h => nomatch h), fun _ => ⟨(fun h => nomatch h), hrunning⟩,
      fun h => nomatch h⟩
    intro r h hr
    rw [hpc, decide_eq_true hpos] at hr
    exact hr

theorem signal_destruction_inv {result : Nat} (hinv : Inv d s) (hpc : s.main = .returned result)
    (hpos : 0 < s.bindingRefCounter) : Inv d (s.signalDestruction d) := by
  have hphase := hinv.phase
  rw [hpc] at hphase
  obtain ⟨-, hactive, hcounted, hpullers⟩ := hphase.2.1 hpos
  unfold Priority.signalDestruction
  by_cases hone : s.bindingRefCounter = 1
  · rw [if_pos hone]
    cases d with
    | true =>
      refine hinv.goto rfl rfl ?_ ⟨rfl, rfl, rfl, hactive, hcounted, hpullers⟩
      intro r h hr
      rw [hpc, decide_eq_true hpos] at hr
      exact hr
    | false =>
      have hnone : s.pullers = [] := by
        by_contra hne
        exact Bool.false_ne_true (hpullers hne).1
      refine hinv.goto rfl rfl ?_ ⟨rfl, hactive, hcounted, hnone⟩
      intro r h hr
      rw [hpc, decide_eq_true hpos] at hr
      refine hr.trans ?_
      change (r.ofContext || (false && r.ofDistribution)) = true ↔ r.ofContext = true
      rw [Bool.false_and, Bool.or_false]
  · rw [if_neg hone]
    have hstill : 0 < s.bindingRefCounter - 1 := by omega
    refine hinv.goto rfl rfl ?_
      ⟨fun hzero => absurd hzero (Nat.ne_of_gt hstill), fun _ => ⟨(fun h => nomatch h), hactive,
      hcounted, hpullers⟩, fun h => nomatch h⟩
    intro r h hr
    rw [hpc, decide_eq_true hpos] at hr
    change RoleOk d (decide (0 < s.bindingRefCounter - 1)) r h (.returned 0)
    rw [decide_eq_true hstill]
    exact hr

/-- A thread of the priority goes on: the phase of the call is about how many there are. -/
theorem Inv.thread (hinv : Inv d s) (hhandle : t.handle = s.handle) (hleaked : t.leaked = s.leaked)
    (hcounter : t.bindingRefCounter = s.bindingRefCounter) (hmain : t.main = s.main)
    (hphase : t.Phase d s.main) : Inv d t := by
  refine hinv.goto hhandle hleaked ?_ ?_
  · rw [hcounter, hmain]
    exact fun _ _ hr => hr
  · rw [hmain]
    exact hphase

/-- A worker goes on: as many as before are there or have come to the rendezvous. -/
theorem phase_worker {wake : Int} {value : Role → Nat} {workers : List WorkerPc}
    (hphase : s.Phase d pc) (hsome : s.workers ≠ [])
    (hload : workers.length + value .rendezVousSem ≤ s.load)
    (hpulls : value .syncChannelCloseSem = s.value .syncChannelCloseSem) :
    { s with wakeUpCounter := wake, value := value, workers := workers }.Phase d pc := by
  have hpullers : s.PullersOk d →
      { s with wakeUpCounter := wake, value := value, workers := workers }.PullersOk d := by
    intro hok hne
    obtain ⟨hd, hsum⟩ := hok hne
    refine ⟨hd, ?_⟩
    change s.pullers.length + value .syncChannelCloseSem ≤ 1
    rw [hpulls]
    exact hsum
  -- where no thread may be there, `hsome` is the contradiction
  cases pc with
  | returned result =>
    obtain ⟨hrest, hrunning, hrefused⟩ := hphase
    refine ⟨fun hzero => absurd (hrest hzero).2.1 hsome, fun hpos => ?_, hrefused⟩
    obtain ⟨hne, hactive, hcounted, hok⟩ := hrunning hpos
    exact ⟨hne, hactive, ⟨hcounted.1, Nat.le_trans hload hcounted.2⟩, hpullers hok⟩
  | createChannel => exact absurd hphase.2.2.2.1.1 hsome
  | createCloseSem => exact absurd hphase.2.2.2.1.1 hsome
  | closeChannel => exact absurd hphase.2.2.2.1.1 hsome
  | createRendezVous => exact absurd hphase.2.2.1.1 hsome
  | createNotifier => exact absurd hphase.2.2.2.1.1 hsome
  | createMutex => exact absurd hphase.2.2.2.1.1 hsome
  | createQueue i => exact absurd hphase.2.2.2.2.1.1 hsome
  | initAttr => exact absurd hphase.2.2.2.1.1 hsome
  | createDistribution => exact absurd hphase.2.2.2.1.1 hsome
  | createWorker j =>
    obtain ⟨hstarting, hactive, hcreated, hbound, hok⟩ := hphase
    exact ⟨hstarting, hactive, hcreated, Nat.le_trans hload hbound, hpullers hok⟩
  | threadsStarted result =>
    obtain ⟨hstarting, hactive, hcreated, hbound, hok, hpos⟩ := hphase
    exact ⟨hstarting, hactive, hcreated, Nat.le_trans hload hbound, hpullers hok, hpos⟩
  | flushChannel leave =>
    obtain ⟨hleave, hd, hcount, hactive, hcounted, hok⟩ := hphase
    exact ⟨hleave, hd, hcount, hactive, ⟨hcounted.1, Nat.le_trans hload hcounted.2⟩, hpullers hok⟩
  | awaitDistribution leave =>
    obtain ⟨hleave, hd, hcount, hactive, hcounted, hok⟩ := hphase
    exact ⟨hleave, hd, hcount, hactive, ⟨hcounted.1, Nat.le_trans hload hcounted.2⟩, hpullers hok⟩
  | destroyCloseSem leave =>
    obtain ⟨hleave, hcount, hactive, hcounted, hnone⟩ := hphase
    exact ⟨hleave, hcount, hactive, ⟨hcounted.1, Nat.le_trans hload hcounted.2⟩, hnone⟩
  | destroyChannel leave =>
    obtain ⟨hleave, hcount, hactive, hcounted, hnone⟩ := hphase
    exact ⟨hleave, hcount, hactive, ⟨hcounted.1, Nat.le_trans hload hcounted.2⟩, hnone⟩
  | deactivate leave =>
    obtain ⟨hleave, hactive, hcounted, hnone⟩ := hphase
    refine ⟨?_, hactive, ⟨hcounted.1, Nat.le_trans hload hcounted.2⟩, hnone⟩
    cases leave <;> exact hleave
  | wakeWorkers leave i =>
    obtain ⟨hleave, hactive, hcounted, hnone⟩ := hphase
    refine ⟨?_, hactive, ⟨hcounted.1, Nat.le_trans hload hcounted.2⟩, hnone⟩
    cases leave <;> exact hleave
  | awaitWorkers leave i =>
    obtain ⟨hleave, hactive, hnumber, hbound, hnone⟩ := hphase
    refine ⟨?_, hactive, hnumber, Nat.le_trans (Nat.add_le_add_right hload i) hbound, hnone⟩
    cases leave <;> exact hleave
  | destroyQueue leave i => exact absurd hphase.2.1.1 hsome
  | destroyMutex leave => exact absurd hphase.2.1.1 hsome
  | destroyNotifier leave => exact absurd hphase.2.1.1 hsome
  | destroyRendezVous leave => exact absurd hphase.2.1.1 hsome
  | giveUp => exact absurd hphase.2.1 hsome
  | refuse => exact absurd hphase.2.1.1 hsome
  | panicked => exact hphase

theorem worker_inv {i : Nat} {choice : Bool} (hinv : Inv d s)
    (h : (s.workers[i]?.bind fun pc => s.workerStep i choice pc) = some t) : Inv d t := by
  obtain ⟨wpc, hwpc, hstep⟩ := Option.bind_eq_some_iff.mp h
  have hi : i < s.workers.length := (List.getElem?_eq_some_iff.mp hwpc).1
  have hsome : s.workers ≠ [] := List.ne_nil_of_length_pos (Nat.zero_lt_of_lt hi)
  have hset : ∀ next, (s.workers.set i next).length = s.workers.length := fun _ => List.length_set
  have hdrop : (s.workers.eraseIdx i).length + 1 = s.workers.length := by
    rw [List.length_eraseIdx_of_lt hi]
    omega
  unfold Priority.workerStep at hstep
  cases wpc with
  | starting =>
    cases choice with
    | true =>
      cases hstep
      refine hinv.thread rfl rfl rfl rfl (phase_worker hinv.phase hsome ?_ rfl)
      rw [hset]
      exact Nat.le_refl _
    | false =>
      cases hstep
      refine hinv.thread rfl rfl rfl rfl (phase_worker hinv.phase hsome ?_ rfl)
      change _ ≤ s.workers.length + _
      omega
  | testActive =>
    cases hstep
    refine hinv.thread rfl rfl rfl rfl (phase_worker hinv.phase hsome ?_ rfl)
    rw [hset]
    exact Nat.le_refl _
  | getNext =>
    cases choice with
    | true =>
      cases hstep
      refine hinv.thread rfl rfl rfl rfl (phase_worker hinv.phase hsome ?_ rfl)
      rw [hset]
      exact Nat.le_refl _
    | false =>
      cases hstep
      refine hinv.thread rfl rfl rfl rfl (phase_worker hinv.phase hsome ?_ rfl)
      rw [hset]
      exact Nat.le_refl _
  | reacting =>
    cases hstep
    refine hinv.thread rfl rfl rfl rfl (phase_worker hinv.phase hsome ?_ rfl)
    rw [hset]
    exact Nat.le_refl _
  | sleeping =>
    obtain ⟨u, hsem, rfl⟩ := Option.map_eq_some_iff.mp hstep
    obtain ⟨-, rfl⟩ := sem_p_eq hsem
    refine hinv.thread rfl rfl rfl rfl (phase_worker hinv.phase hsome ?_ rfl)
    rw [hset]
    exact Nat.le_refl _
  | leaving =>
    -- the worker is gone, and its post of the rendezvous stands for it
    cases hstep
    refine hinv.thread rfl rfl rfl rfl (phase_worker (s := s) hinv.phase hsome ?_ rfl)
    change (s.workers.eraseIdx i).length + (s.value .rendezVousSem + 1) ≤
      s.workers.length + s.value .rendezVousSem
    omega

/-- The distribution thread goes on. -/
theorem phase_puller {value : Role → Nat} {pullers : List PullerPc} (hphase : s.Phase d pc)
    (hsome : s.pullers ≠ [])
    (hpulls : pullers.length + value .syncChannelCloseSem ≤
      s.pullers.length + s.value .syncChannelCloseSem)
    (hload : value .rendezVousSem = s.value .rendezVousSem) :
    { s with value := value, pullers := pullers }.Phase d pc := by
  have hpullers : s.PullersOk d → { s with value := value, pullers := pullers }.PullersOk d := by
    intro hok _
    obtain ⟨hd, hsum⟩ := hok hsome
    exact ⟨hd, Nat.le_trans hpulls hsum⟩
  have hsame : { s with value := value, pullers := pullers }.load = s.load :=
    congrArg (s.workers.length + ·) hload
  have hcount : s.Counted → { s with value := value, pullers := pullers }.Counted := by
    rintro ⟨hnumber, hbound⟩
    refine ⟨hnumber, ?_⟩
    rw [hsame]
    exact hbound
  cases pc with
  | returned result =>
    obtain ⟨hrest, hrunning, hrefused⟩ := hphase
    refine ⟨fun hzero => absurd (hrest hzero).2.2 hsome, fun hpos => ?_, hrefused⟩
    obtain ⟨hne, hactive, hcounted, hok⟩ := hrunning hpos
    exact ⟨hne, hactive, hcount hcounted, hpullers hok⟩
  | createChannel => exact absurd hphase.2.2.2.1.2 hsome
  | createCloseSem => exact absurd hphase.2.2.2.1.2 hsome
  | closeChannel => exact absurd hphase.2.2.2.1.2 hsome
  | createRendezVous => exact absurd hphase.2.2.1.2 hsome
  | createNotifier => exact absurd hphase.2.2.2.1.2 hsome
  | createMutex => exact absurd hphase.2.2.2.1.2 hsome
  | createQueue i => exact absurd hphase.2.2.2.2.1.2 hsome
  | initAttr => exact absurd hphase.2.2.2.1.2 hsome
  | createDistribution => exact absurd hphase.2.2.2.1.2 hsome
  | createWorker j =>
    obtain ⟨hstarting, hactive, hcreated, hbound, hok⟩ := hphase
    refine ⟨hstarting, hactive, hcreated, ?_, hpullers hok⟩
    rw [hsame]
    exact hbound
  | threadsStarted result =>
    obtain ⟨hstarting, hactive, hcreated, hbound, hok, hpos⟩ := hphase
    refine ⟨hstarting, hactive, hcreated, ?_, hpullers hok, hpos⟩
    rw [hsame]
    exact hbound
  | flushChannel leave =>
    obtain ⟨hleave, hd, hzero, hactive, hcounted, hok⟩ := hphase
    exact ⟨hleave, hd, hzero, hactive, hcount hcounted, hpullers hok⟩
  | awaitDistribution leave =>
    obtain ⟨hleave, hd, hzero, hactive, hcounted, hok⟩ := hphase
    exact ⟨hleave, hd, hzero, hactive, hcount hcounted, hpullers hok⟩
  | destroyCloseSem leave => exact absurd hphase.2.2.2.2 hsome
  | destroyChannel leave => exact absurd hphase.2.2.2.2 hsome
  | deactivate leave => exact absurd hphase.2.2.2 hsome
  | wakeWorkers leave i => exact absurd hphase.2.2.2 hsome
  | awaitWorkers leave i => exact absurd hphase.2.2.2.2 hsome
  | destroyQueue leave i => exact absurd hphase.2.1.2 hsome
  | destroyMutex leave => exact absurd hphase.2.1.2 hsome
  | destroyNotifier leave => exact absurd hphase.2.1.2 hsome
  | destroyRendezVous leave => exact absurd hphase.2.1.2 hsome
  | giveUp => exact absurd hphase.2.2 hsome
  | refuse => exact absurd hphase.2.1.2 hsome
  | panicked => exact hphase

theorem puller_inv {i : Nat} {choice : Bool} (hinv : Inv d s)
    (h : (s.pullers[i]?.bind fun pc => s.pullerStep i choice pc) = some t) : Inv d t := by
  obtain ⟨ppc, hppc, hstep⟩ := Option.bind_eq_some_iff.mp h
  have hi : i < s.pullers.length := (List.getElem?_eq_some_iff.mp hppc).1
  have hsome : s.pullers ≠ [] := List.ne_nil_of_length_pos (Nat.zero_lt_of_lt hi)
  have hset : ∀ next, (s.pullers.set i next).length = s.pullers.length := fun _ => List.length_set
  have hdrop : (s.pullers.eraseIdx i).length + 1 = s.pullers.length := by
    rw [List.length_eraseIdx_of_lt hi]
    omega
  unfold Priority.pullerStep at hstep
  cases ppc with
  | starting =>
    cases choice with
    | true =>
      cases hstep
      refine hinv.thread rfl rfl rfl rfl (phase_puller hinv.phase hsome ?_ rfl)
      exact Nat.le_of_eq (congrArg (· + _) (hset _))
    | false =>
      cases hstep
      refine hinv.thread rfl rfl rfl rfl (phase_puller hinv.phase hsome ?_ rfl)
      omega
  | pulling =>
    obtain ⟨u, hsem, rfl⟩ := Option.map_eq_some_iff.mp hstep
    obtain ⟨-, rfl⟩ := sem_p_eq hsem
    refine hinv.thread rfl rfl rfl rfl (phase_puller hinv.phase hsome ?_ rfl)
    exact Nat.le_of_eq (congrArg (· + _) (hset _))
  | leaving =>
    cases hstep
    refine hinv.thread rfl rfl rfl rfl (phase_puller (s := s) hinv.phase hsome ?_ rfl)
    change (s.pullers.eraseIdx i).length + (s.value .syncChannelCloseSem + 1) ≤ _
    omega

theorem post_inv {result : Nat} (hinv : Inv d s) (hpc : s.main = .returned result) :
    Inv d s.wakeUpIfNeeded := by
  unfold Priority.wakeUpIfNeeded
  split
  · refine hinv.goto rfl rfl (fun _ _ hr => hr) ?_
    have hphase := hinv.phase
    change Priority.Phase d _ s.main
    rw [hpc] at hphase ⊢
    exact hphase
  · exact hinv

theorem implies_of_or {b : Bool} (h : (!d || b) = true) (hd : d = true) : b = true := by
  rwa [hd, Bool.not_true, Bool.false_or] at h

theorem not_fails {fails : Bool} (h : (!fails) = true) : fails = false := by
  cases fails with
  | true => cases h
  | false => rfl

theorem main_inv {c : EeConfiguration} {priority : Nat} {fails : Bool}
    (hinv : Inv (c.isDistributionThread priority) s)
    (hok : s.startsWhole c priority (.main fails) = true) (h : s.advance c priority fails = some t) :
    Inv (c.isDistributionThread priority) t := by
  unfold Priority.advance at h
  replace hok := implies_of_or hok
  cases hpc : s.main with
  | returned result =>
    rw [hpc] at h
    cases h
  | panicked =>
    rw [hpc] at h
    cases h
  | createChannel =>
    obtain ⟨hnull, hnext⟩ := create_channel_inv fails hinv hpc
    rw [hpc] at h
    simp only [hnull, ne_eq, not_true_eq_false, if_false] at h
    cases h
    exact hnext
  | createCloseSem =>
    rw [hpc] at h
    cases h
    exact create_close_sem_inv fails hinv hpc
  | closeChannel =>
    rw [hpc] at h
    cases h
    exact close_channel_inv hinv hpc
  | createRendezVous =>
    rw [hpc] at h hok
    cases h
    exact create_rendez_vous_inv fails hinv hpc fun hd => not_fails (hok hd)
  | createNotifier =>
    rw [hpc] at h hok
    cases h
    exact create_notifier_inv fails hinv hpc fun hd => not_fails (hok hd)
  | createMutex =>
    rw [hpc] at h hok
    cases h
    exact create_mutex_inv fails hinv hpc fun hd => not_fails (hok hd)
  | createQueue i =>
    rw [hpc] at h hok
    by_cases hi : i < maxSchedulerSubpriorityNumber
    · simp only [hi, if_true] at h
      cases h
      exact create_queue_inv fails hinv hpc hi fun hd => not_fails (hok hd)
    · simp only [hi, if_false] at h
      cases h
      exact queues_created_inv hinv hpc hi
  | initAttr =>
    rw [hpc] at h hok
    by_cases hfail : (c.getCfgForPrio priority).isNone = true ∨ fails = true
    · simp only [hfail, if_true] at h
      cases h
      refine no_threads_started_inv hinv (Or.inl hpc) ?_
      cases hd : c.isDistributionThread priority with
      | false => rfl
      | true =>
        rcases hfail with hnone | hfails
        · rw [EeConfiguration.isDistributionThread, Option.isNone_iff_eq_none.mp hnone] at hd
          simp at hd
        · rw [not_fails (hok hd)] at hfails
          cases hfails
    · simp only [hfail, if_false] at h
      cases h
      exact init_attr_inv hinv hpc
  | createDistribution =>
    rw [hpc] at h hok
    obtain ⟨hwith, hwithout⟩ := create_distribution_inv hinv hpc
    cases hd : c.isDistributionThread priority with
    | true =>
      rw [hd] at hwith
      simp only [hd, not_fails (hok hd), if_true, Bool.false_eq_true, if_false] at h
      cases h
      exact hwith rfl
    | false =>
      rw [hd] at hwithout
      simp only [hd, Bool.false_eq_true, if_false] at h
      cases h
      exact hwithout rfl
  | createWorker j =>
    rw [hpc] at h hok
    obtain ⟨cfg, hcfg, rfl⟩ := Option.map_eq_some_iff.mp h
    refine start_worker_inv fails hinv hpc fun hd => ?_
    obtain ⟨hfails, hall⟩ := (Bool.and_eq_true _ _).mp (hok hd)
    rw [hcfg] at hall
    exact ⟨not_fails hfails, of_decide_eq_true hall⟩
  | threadsStarted result =>
    rw [hpc] at h
    cases h
    exact test_threads_inv hinv hpc
  | flushChannel leave =>
    obtain ⟨hsome, hnext⟩ := flush_channel_inv hinv hpc
    rw [hpc] at h
    simp only [hsome, if_false] at h
    cases h
    exact hnext
  | awaitDistribution leave =>
    rw [hpc] at h
    obtain ⟨u, hsem, rfl⟩ := Option.map_eq_some_iff.mp h
    exact await_distribution_inv hinv hpc hsem
  | destroyCloseSem leave =>
    rw [hpc] at h
    cases h
    exact destroy_close_sem_inv hinv hpc
  | destroyChannel leave =>
    have hphase := hinv.phase
    rw [hpc] at h hphase
    obtain rfl := hphase.1
    cases h
    exact destroy_channel_inv hinv hpc
  | deactivate leave =>
    rw [hpc] at h
    cases h
    exact deactivate_inv hinv hpc
  | wakeWorkers leave i =>
    rw [hpc] at h
    obtain ⟨hone, hdone⟩ := wake_workers_inv hinv hpc
    by_cases hi : (i : Int) < s.threadNumber
    · simp only [hi, if_true] at h
      cases h
      exact hone
    · simp only [hi, if_false] at h
      cases h
      exact hdone
  | awaitWorkers leave i =>
    rw [hpc] at h
    by_cases hi : (i : Int) < s.threadNumber
    · simp only [hi, if_true] at h
      obtain ⟨u, hsem, rfl⟩ := Option.map_eq_some_iff.mp h
      exact await_worker_inv hinv hpc hsem
    · simp only [hi, if_false] at h
      cases leave with
      | failed =>
        cases h
        exact workers_gone_inv hinv hpc hi
      | stopped =>
        cases h
        exact workers_gone_inv hinv hpc hi
  | destroyQueue leave i =>
    rw [hpc] at h
    by_cases hi : i < maxSchedulerSubpriorityNumber
    · simp only [hi, if_true] at h
      cases h
      exact destroy_queue_inv hinv hpc
    · simp only [hi, if_false] at h
      cases h
      exact queues_destroyed_inv hinv hpc hi
  | destroyMutex leave =>
    rw [hpc] at h
    cases h
    exact destroy_mutex_inv hinv hpc
  | destroyNotifier leave =>
    rw [hpc] at h
    cases h
    exact destroy_notifier_inv hinv hpc
  | destroyRendezVous leave =>
    rw [hpc] at h
    cases leave with
    | failed =>
      cases h
      exact rendez_vous_destroyed_failed_inv hinv hpc
    | stopped =>
      cases h
      exact rendez_vous_destroyed_stopped_inv hinv hpc
  | giveUp =>
    rw [hpc] at h
    cases h
    exact give_up_inv hinv hpc
  | refuse =>
    rw [hpc] at h
    cases h
    exact refuse_inv hinv hpc

theorem returned_of_at_rest (h : pc.atRest = true) : ∃ result, pc = .returned result := by
  cases pc with
  | returned result => exact ⟨result, rfl⟩
  | _ => cases h

theorem startup_step {c : EeConfiguration} {priority : Nat} {a : Action}
    (hinv : Inv (c.isDistributionThread priority) s) (hok : s.startsWhole c priority a = true)
    (h : s.step c priority a = some t) : Inv (c.isDistributionThread priority) t := by
  cases a with
  | create =>
    obtain ⟨hrest, heq⟩ := Option.ite_none_right_eq_some.mp h
    obtain ⟨result, hpc⟩ := returned_of_at_rest hrest
    cases heq
    exact signal_creation_inv hinv hpc
  | destroy =>
    obtain ⟨⟨hrest, hpos⟩, heq⟩ := Option.ite_none_right_eq_some.mp h
    obtain ⟨result, hpc⟩ := returned_of_at_rest hrest
    cases heq
    exact signal_destruction_inv hinv hpc hpos
  | main fails => exact main_inv hinv hok h
  | worker i choice => exact worker_inv hinv h
  | puller i choice => exact puller_inv hinv h
  | post =>
    obtain ⟨⟨hrest, hpos⟩, heq⟩ := Option.ite_none_right_eq_some.mp h
    obtain ⟨result, hpc⟩ := returned_of_at_rest hrest
    cases heq
    exact post_inv hinv hpc

end Steps

/-- A start that has failed has left nothing behind; a worker finds what it uses; and the call waits
for as many workers as were created. -/
structure Priority.Orderly (s : Priority) : Prop where
  restored : s.main = .returned 1 → s.snapshot = s.before
  used : s.workers ≠ [] → ∀ r, r.ofContext = true → s.handle r = .live
  awaited : ∀ leave i, s.main = .wakeWorkers leave i ∨ s.main = .awaitWorkers leave i →
    s.threadNumber = s.created

/-- The steps at which there may be workers. -/
def MainPc.mayHaveWorkers : MainPc → Bool
  | .returned _ | .createWorker _ | .threadsStarted _ | .flushChannel _ | .awaitDistribution _
  | .destroyCloseSem _ | .destroyChannel _ | .deactivate _ | .wakeWorkers _ _ | .awaitWorkers _ _ => true
  | _ => false

theorem no_workers {s : Priority} {d : Bool} {pc : MainPc} (hphase : s.Phase d pc)
    (hpc : pc.mayHaveWorkers = false) : s.workers = [] := by
  cases pc with
  | createChannel => exact hphase.2.2.2.1.1
  | createCloseSem => exact hphase.2.2.2.1.1
  | closeChannel => exact hphase.2.2.2.1.1
  | createRendezVous => exact hphase.2.2.1.1
  | createNotifier => exact hphase.2.2.2.1.1
  | createMutex => exact hphase.2.2.2.1.1
  | createQueue i => exact hphase.2.2.2.2.1.1
  | initAttr => exact hphase.2.2.2.1.1
  | createDistribution => exact hphase.2.2.2.1.1
  | destroyQueue leave i => exact hphase.2.1.1
  | destroyMutex leave => exact hphase.2.1.1
  | destroyNotifier leave => exact hphase.2.1.1
  | destroyRendezVous leave => exact hphase.2.1.1
  | giveUp => exact hphase.2.1
  | refuse => exact hphase.2.1.1
  | panicked => exact hphase.elim
  | _ => cases hpc

theorem Inv.orderly {s : Priority} {d : Bool} (hinv : Inv d s) : s.Orderly := by
  have hphase := hinv.phase
  refine ⟨?_, ?_, ?_⟩
  · intro hpc
    rw [hpc] at hphase
    have hzero : s.bindingRefCounter = 0 := by
      by_contra hne
      exact (hphase.2.1 (Nat.pos_of_ne_zero hne)).1 rfl
    rw [hinv.snapshot_rest hpc hzero, hphase.2.2 rfl]
  · intro hsome r hr
    have hrole := hinv.roles r
    have hor : ∀ b, (r.ofContext || b) = true := fun b => by rw [hr, Bool.true_or]
    cases hpc : s.main with
    | returned result =>
      rw [hpc] at hphase hrole
      refine hrole.mpr ?_
      by_cases hzero : s.bindingRefCounter = 0
      · exact absurd (hphase.1 hzero).2.1 hsome
      · rw [decide_eq_true (Nat.pos_of_ne_zero hzero)]
        exact hor _
    | createWorker j =>
      rw [hpc] at hrole
      exact hrole.mpr (hor _)
    | threadsStarted result =>
      rw [hpc] at hrole
      exact hrole.mpr (hor _)
    | flushChannel leave =>
      rw [hpc] at hrole
      exact hrole.mpr (hor _)
    | awaitDistribution leave =>
      rw [hpc] at hrole
      exact hrole.mpr (hor _)
    | destroyCloseSem leave =>
      rw [hpc] at hrole
      exact hrole.mpr (hor _)
    | destroyChannel leave =>
      rw [hpc] at hrole
      exact hrole.mpr (hor _)
    | deactivate leave =>
      rw [hpc] at hrole
      exact hrole.mpr hr
    | wakeWorkers leave i =>
      rw [hpc] at hrole
      exact hrole.mpr hr
    | awaitWorkers leave i =>
      rw [hpc] at hrole
      exact hrole.mpr hr
    | _ =>
      rw [hpc] at hphase
      exact absurd (no_workers hphase (by simp [MainPc.mayHaveWorkers])) hsome
  · rintro leave i (hpc | hpc)
    · rw [hpc] at hphase
      exact hphase.2.2.1.1
    · rw [hpc] at hphase
      exact hphase.2.2.1

/-- The priorities do not touch each other. -/
def system (c : EeConfiguration) : (Nat → Priority) → Nat × Action → Option (Nat → Priority) :=
  each fun priority s a => s.step c priority a

theorem failed_start_is_undone (c : EeConfiguration) (as : List (Nat × Action)) (t : Nat → Priority)
    (hok : Meets (system c) (fun s a => (s a.1).startsWhole c a.1 a.2 = true) (fun _ => .start) as)
    (h : run (system c) (fun _ => .start) as = some t) (priority : Nat) : (t priority).Orderly := by
  obtain ⟨hmeets, hrun⟩ := @run_of_each Priority Action Nat _ (fun p s a => s.step c p a)
    (fun p s a => s.startsWhole c p a = true) _ t as priority hok h
  have hinv : Inv (c.isDistributionThread priority) (t priority) :=
    run_induction_of_meets (fun _ _ _ hinv hok hstep => startup_step hinv hok hstep) (inv_start _)
      hmeets hrun
  exact hinv.orderly

/-- Priority 0 has a distribution thread and two workers, and priority 6 two workers. -/
def sampleConfiguration : EeConfiguration := ⟨false, [⟨0, 2, true⟩, ⟨6, 2, false⟩]⟩

def mainSteps (priority n : Nat) (fails : Bool) : List (Nat × Action) :=
  List.replicate n (priority, .main false) ++ [(priority, .main fails)]

/-- Priority 0 has its channel refused, and priority 6 its second worker, while the first sleeps. -/
def sampleStarts : List (Nat × Action) :=
  [(0, .create)] ++ mainSteps 0 0 true ++ mainSteps 0 0 false ++ [(6, .create)] ++
    mainSteps 6 11 true ++ [(6, .worker 0 true), (6, .worker 0 true), (6, .worker 0 false)] ++
    mainSteps 6 3 false ++ [(6, .worker 0 false), (6, .worker 0 false), (6, .worker 0 false)] ++
    mainSteps 6 11 false

theorem failed_start_is_undone_sample :
    ∃ t, run (system sampleConfiguration) (fun _ => .start) sampleStarts = some t ∧
      (t 0).main = .returned 1 ∧ (t 6).main = .returned 1 ∧ (t 6).created = 1 ∧
      (t 0).Orderly ∧ (t 6).Orderly := by
  have hrun : ∃ t, run (system sampleConfiguration) (fun _ => .start) sampleStarts = some t ∧
      (t 0).main = .returned 1 ∧ (t 6).main = .returned 1 ∧ (t 6).created = 1 :=
    ⟨_, rfl, rfl, rfl, rfl⟩
  obtain ⟨t, hrun, hzero, hsix, hcreated⟩ := hrun
  have hok : Meets (system sampleConfiguration)
      (fun s a => (s a.1).startsWhole sampleConfiguration a.1 a.2 = true) (fun _ => .start)
      sampleStarts := by decide
  exact ⟨t, hrun, hzero, hsix, hcreated, failed_start_is_undone _ _ t hok hrun 0,
    failed_start_is_undone _ _ t hok hrun 6⟩

/-- The semaphore of the rendezvous is refused once the distribution is started, and the channel
stays; and the second worker is refused: the call waits for no worker and destroys the mutex of the
first. -/
theorem failed_start_leaves_distribution :
    (∃ t, run (system sampleConfiguration) (fun _ => .start)
        ([(0, .create)] ++ mainSteps 0 2 true ++ mainSteps 0 1 false) = some t ∧
      (t 0).main = .returned 1 ∧ (t 0).snapshot.handle .channel = .live ∧
      (t 0).before.handle .channel = .null) ∧
    ∃ t, run (system sampleConfiguration) (fun _ => .start)
        ([(0, .create)] ++ mainSteps 0 13 true ++ mainSteps 0 1 false ++
          [(0, .puller 0 true), (0, .puller 0 true), (0, .puller 0 true)] ++ mainSteps 0 11 false) =
        some t ∧
      (t 0).created = 1 ∧ (t 0).workers = [.starting] ∧
      (t 0).handle .priorityQueuesMutex = .dangling :=
  ⟨⟨_, rfl, rfl, rfl, rfl⟩, _, rfl, rfl, rfl, rfl⟩

end Codinalte.HostEE.Startup
