import Codinalte.Lib.Count
import Codinalte.Lib.Machine
import Codinalte.HostEE.Queue

/-! The scheduler of the host execution engine: one context for each priority with its queues,
its wake-up counter and its semaphore, the mutexes of the targets, and worker threads that run
`schedLoop`. A scan of the queues tries one target mutex at a time. -/

namespace Codinalte.HostEE
open Codinalte.Machine

def maxSchedulerPriorityNumber : Nat := 32
def maxSchedulerSubpriorityNumber : Nat := 4

structure SchedEvent where
  this : Nat
  mutexHandle : Nat
  priority : Nat
  subpriority : Nat
deriving DecidableEq

/-- A posting of an event; `stamp` is its number among all postings. -/
structure Entry where
  stamp : Nat
  event : SchedEvent
deriving DecidableEq

/-- Where a worker stands in `schedLoop`. While it scans subpriority `sub` it has found the
targets of `passed` busy and has `rest` to look at. -/
inductive SchedPc where
  | getNext
  | scanning (sub : Nat) (passed rest : List Entry)
  | running (entry : Entry)
  | finished (entry : Entry)
  | releasing (entry : Entry)
  | sleeping
deriving DecidableEq

/-- `owner` is the worker that holds a target mutex; `posted`, `started` and `removed` record
what has become of the postings. -/
structure Scheduler (W : Type) where
  queue : Nat → Nat → List Entry
  wakeUpCounter : Nat → Int
  semNotifier : Nat → Nat
  queuesMutex : Nat → Option W
  owner : Nat → Option W
  pc : W → SchedPc
  posted : List Entry
  started : List Entry
  removed : List Entry

def Scheduler.opened (W : Type) : Scheduler W where
  queue := fun _ _ => []
  wakeUpCounter := fun _ => 0
  semNotifier := fun _ => 0
  queuesMutex := fun _ => none
  owner := fun _ => none
  pc := fun _ => .getNext
  posted := []
  started := []
  removed := []

inductive SchedAction (W : Type) where
  | post (event : SchedEvent)
  | remove (targetTHIS priority subpriority : Nat)
  | worker (w : W)

variable {W : Type} [DecidableEq W]

namespace Scheduler

def setQueue (s : Scheduler W) (p sub : Nat) (xs : List Entry) : Scheduler W :=
  { s with queue := Function.update s.queue p (Function.update (s.queue p) sub xs) }

def setPc (s : Scheduler W) (w : W) (pc : SchedPc) : Scheduler W :=
  { s with pc := Function.update s.pc w pc }

def wakeUpIfNeeded (s : Scheduler W) (p : Nat) : Scheduler W :=
  if s.wakeUpCounter p < 0 then
    { s with
      wakeUpCounter := Function.update s.wakeUpCounter p (s.wakeUpCounter p + 1)
      semNotifier := Function.update s.semNotifier p (s.semNotifier p + 1) }
  else s

def nextEntry (s : Scheduler W) (event : SchedEvent) : Entry := ⟨s.posted.length, event⟩

/-- `nmfSchedulerSchedEvent` under the mutex of the queues. -/
def schedEvent (s : Scheduler W) (event : SchedEvent) : Scheduler W :=
  { (s.setQueue event.priority event.subpriority
      (s.queue event.priority event.subpriority ++ [s.nextEntry event])) with
    posted := s.posted ++ [s.nextEntry event] }.wakeUpIfNeeded event.priority

def schedulerRemove (s : Scheduler W) (targetTHIS p sub : Nat) : Scheduler W :=
  let popped := popMatching (fun entry => entry.event.this == targetTHIS) (s.queue p sub)
  { s.setQueue p sub popped.2 with removed := s.removed ++ popped.1.toList }

/-- `getNextEvent` takes the mutex of the queues and starts with the highest subpriority. -/
def enter (s : Scheduler W) (p : Nat) (w : W) : Scheduler W :=
  let sub := maxSchedulerSubpriorityNumber - 1
  { s.setPc w (.scanning sub [] (s.queue p sub)) with
    queuesMutex := Function.update s.queuesMutex p (some w) }

/-- The trylock succeeded: the entry is unlinked and `getNextEvent` returns it. -/
def take (s : Scheduler W) (p : Nat) (w : W) (sub : Nat) (passed rest : List Entry)
    (entry : Entry) : Scheduler W :=
  { (s.setQueue p sub (passed ++ rest)).setPc w (.running entry) with
    owner := Function.update s.owner entry.event.mutexHandle (some w)
    queuesMutex := Function.update s.queuesMutex p none
    started := s.started ++ [entry] }

/-- Nothing was found: `controlSleep`, and `getNextEvent` returns 0. -/
def sleep (s : Scheduler W) (p : Nat) (w : W) : Scheduler W :=
  { s.setPc w .sleeping with
    wakeUpCounter := Function.update s.wakeUpCounter p (s.wakeUpCounter p - 1)
    queuesMutex := Function.update s.queuesMutex p none }

def lockAfter (s : Scheduler W) (p : Nat) (w : W) (entry : Entry) : Scheduler W :=
  { s.setPc w (.releasing entry) with
    queuesMutex := Function.update s.queuesMutex p (some w) }

def release (s : Scheduler W) (p : Nat) (w : W) (entry : Entry) : Scheduler W :=
  { s.setPc w .getNext with
    owner := Function.update s.owner entry.event.mutexHandle none
    queuesMutex := Function.update s.queuesMutex p none }

def wake (s : Scheduler W) (p : Nat) (w : W) : Scheduler W :=
  { s.setPc w .getNext with
    semNotifier := Function.update s.semNotifier p (s.semNotifier p - 1) }

/-- One step of a worker of priority `p`. -/
def stepWorker (s : Scheduler W) (p : Nat) (w : W) : Option (Scheduler W) :=
  match s.pc w with
  | .getNext => if s.queuesMutex p = none then some (s.enter p w) else none
  | .scanning sub passed (entry :: rest) =>
    if s.owner entry.event.mutexHandle = none then some (s.take p w sub passed rest entry)
    else some (s.setPc w (.scanning sub (passed ++ [entry]) rest))
  | .scanning (sub + 1) _ [] => some (s.setPc w (.scanning sub [] (s.queue p sub)))
  | .scanning 0 _ [] => some (s.sleep p w)
  | .running entry => some (s.setPc w (.finished entry))
  | .finished entry => if s.queuesMutex p = none then some (s.lockAfter p w entry) else none
  | .releasing entry => some (s.release p w entry)
  | .sleeping => if s.semNotifier p = 0 then none else some (s.wake p w)

/-- A posting needs a started priority, so one with a worker; out of range it panics. -/
def step [Fintype W] (prio : W → Nat) (s : Scheduler W) : SchedAction W → Option (Scheduler W)
  | .post event =>
    if event.priority < maxSchedulerPriorityNumber ∧
        event.subpriority < maxSchedulerSubpriorityNumber ∧
        (∃ w, prio w = event.priority) ∧ s.queuesMutex event.priority = none then
      some (s.schedEvent event)
    else none
  | .remove targetTHIS p sub =>
    if p < maxSchedulerPriorityNumber ∧ sub < maxSchedulerSubpriorityNumber ∧
        s.queuesMutex p = none then
      some (s.schedulerRemove targetTHIS p sub)
    else none
  | .worker w => s.stepWorker (prio w) w

end Scheduler

/-- The nine steps of a worker. -/
theorem step_worker_cases {s t : Scheduler W} {p : Nat} {w : W}
    (h : s.stepWorker p w = some t) :
    (s.pc w = .getNext ∧ s.queuesMutex p = none ∧ t = s.enter p w) ∨
    (∃ sub passed entry rest, s.pc w = .scanning sub passed (entry :: rest) ∧
      s.owner entry.event.mutexHandle = none ∧ t = s.take p w sub passed rest entry) ∨
    (∃ sub passed entry rest, s.pc w = .scanning sub passed (entry :: rest) ∧
      s.owner entry.event.mutexHandle ≠ none ∧
      t = s.setPc w (.scanning sub (passed ++ [entry]) rest)) ∨
    (∃ sub passed, s.pc w = .scanning (sub + 1) passed [] ∧
      t = s.setPc w (.scanning sub [] (s.queue p sub))) ∨
    (∃ passed, s.pc w = .scanning 0 passed [] ∧ t = s.sleep p w) ∨
    (∃ entry, s.pc w = .running entry ∧ t = s.setPc w (.finished entry)) ∨
    (∃ entry, s.pc w = .finished entry ∧ s.queuesMutex p = none ∧ t = s.lockAfter p w entry) ∨
    (∃ entry, s.pc w = .releasing entry ∧ t = s.release p w entry) ∨
    (s.pc w = .sleeping ∧ s.semNotifier p ≠ 0 ∧ t = s.wake p w) := by
  unfold Scheduler.stepWorker at h
  split at h
  · next hpc =>
    split_ifs at h with hfree
    cases h
    exact .inl ⟨hpc, hfree, rfl⟩
  · next sub passed entry rest hpc =>
    split_ifs at h with hfree
    · cases h
      exact .inr (.inl ⟨sub, passed, entry, rest, hpc, hfree, rfl⟩)
    · cases h
      exact .inr (.inr (.inl ⟨sub, passed, entry, rest, hpc, hfree, rfl⟩))
  · next sub passed hpc =>
    cases h
    exact .inr (.inr (.inr (.inl ⟨sub, passed, hpc, rfl⟩)))
  · next passed hpc =>
    cases h
    exact .inr (.inr (.inr (.inr (.inl ⟨passed, hpc, rfl⟩))))
  · next entry hpc =>
    cases h
    exact .inr (.inr (.inr (.inr (.inr (.inl ⟨entry, hpc, rfl⟩)))))
  · next entry hpc =>
    split_ifs at h with hfree
    cases h
    exact .inr (.inr (.inr (.inr (.inr (.inr (.inl ⟨entry, hpc, hfree, rfl⟩))))))
  · next entry hpc =>
    cases h
    exact .inr (.inr (.inr (.inr (.inr (.inr (.inr (.inl ⟨entry, hpc, rfl⟩)))))))
  · next hpc =>
    split_ifs at h with hsem
    cases h
    exact .inr (.inr (.inr (.inr (.inr (.inr (.inr (.inr ⟨hpc, hsem, rfl⟩)))))))

/-- The mutex of the queues is held from the start of a scan to its end, and while the target is
unlocked after a reaction. -/
def SchedPc.locksQueues : SchedPc → Bool
  | .scanning _ _ _ | .releasing _ => true
  | _ => false

/-- The entry whose target mutex the worker holds. -/
def SchedPc.target : SchedPc → Option Entry
  | .running entry | .finished entry | .releasing entry => some entry
  | _ => none

/-- The holder of each mutex of queues is the worker that stands inside. -/
def QueuesHeld (prio : W → Nat) (mutex : Nat → Option W) (pc : W → SchedPc) : Prop :=
  ∀ p w, mutex p = some w ↔ prio w = p ∧ (pc w).locksQueues = true

/-- The holder of each target mutex is the worker that has an entry for it. -/
def TargetsHeld (owner : Nat → Option W) (pc : W → SchedPc) : Prop :=
  ∀ m w, owner m = some w ↔ ∃ entry, (pc w).target = some entry ∧ entry.event.mutexHandle = m

section Held
variable {prio : W → Nat} {mutex owner : Nat → Option W} {pc : W → SchedPc} {w : W}
  {next : SchedPc}

theorem queues_held_keep (h : QueuesHeld prio mutex pc)
    (hnext : next.locksQueues = (pc w).locksQueues) :
    QueuesHeld prio mutex (Function.update pc w next) := by
  intro p v
  rw [h p v]
  by_cases hv : v = w
  · subst hv
    rw [Function.update_self, hnext]
  · rw [Function.update_of_ne hv]

theorem queues_held_lock (h : QueuesHeld prio mutex pc) (hfree : mutex (prio w) = none)
    (hnext : next.locksQueues = true) :
    QueuesHeld prio (Function.update mutex (prio w) (some w)) (Function.update pc w next) := by
  intro p v
  by_cases hp : p = prio w
  · subst hp
    rw [Function.update_self, Option.some.injEq]
    constructor
    · rintro rfl
      exact ⟨rfl, by rw [Function.update_self, hnext]⟩
    · rintro ⟨hprio, hlocks⟩
      by_contra hne
      rw [Function.update_of_ne (Ne.symm hne)] at hlocks
      cases hfree.symm.trans ((h _ v).mpr ⟨hprio, hlocks⟩)
  · rw [Function.update_of_ne hp, h p v]
    by_cases hv : v = w
    · subst hv
      constructor
      · exact fun hl => absurd hl.1.symm hp
      · exact fun hl => absurd hl.1.symm hp
    · rw [Function.update_of_ne hv]

theorem queues_held_unlock (h : QueuesHeld prio mutex pc) (hheld : mutex (prio w) = some w)
    (hnext : next.locksQueues = false) :
    QueuesHeld prio (Function.update mutex (prio w) none) (Function.update pc w next) := by
  intro p v
  by_cases hp : p = prio w
  · subst hp
    rw [Function.update_self]
    constructor
    · intro hnone
      cases hnone
    · rintro ⟨hprio, hlocks⟩
      by_cases hv : v = w
      · subst hv
        rw [Function.update_self, hnext] at hlocks
        cases hlocks
      · rw [Function.update_of_ne hv] at hlocks
        have hother := (h _ v).mpr ⟨hprio, hlocks⟩
        exact absurd (Option.some.inj (hother.symm.trans hheld)) hv
  · rw [Function.update_of_ne hp, h p v]
    by_cases hv : v = w
    · subst hv
      constructor
      · exact fun hl => absurd hl.1.symm hp
      · exact fun hl => absurd hl.1.symm hp
    · rw [Function.update_of_ne hv]

theorem targets_held_keep (h : TargetsHeld owner pc) (hnext : next.target = (pc w).target) :
    TargetsHeld owner (Function.update pc w next) := by
  intro m v
  rw [h m v]
  by_cases hv : v = w
  · subst hv
    rw [Function.update_self, hnext]
  · rw [Function.update_of_ne hv]

theorem targets_held_take (h : TargetsHeld owner pc) (hnone : (pc w).target = none)
    {entry : Entry} (hfree : owner entry.event.mutexHandle = none)
    (hnext : next.target = some entry) :
    TargetsHeld (Function.update owner entry.event.mutexHandle (some w))
      (Function.update pc w next) := by
  intro m v
  by_cases hv : v = w
  · subst hv
    rw [Function.update_self, hnext]
    by_cases hm : m = entry.event.mutexHandle
    · subst hm
      simp
    · rw [Function.update_of_ne hm, h m v, hnone]
      simpa using Ne.symm hm
  · rw [Function.update_of_ne hv, ← h m v]
    by_cases hm : m = entry.event.mutexHandle
    · subst hm
      rw [Function.update_self, hfree]
      simpa using Ne.symm hv
    · rw [Function.update_of_ne hm]

theorem targets_held_release (h : TargetsHeld owner pc) {entry : Entry}
    (hheld : (pc w).target = some entry) (hnext : next.target = none) :
    TargetsHeld (Function.update owner entry.event.mutexHandle none)
      (Function.update pc w next) := by
  have howner : owner entry.event.mutexHandle = some w := (h _ w).mpr ⟨entry, hheld, rfl⟩
  intro m v
  by_cases hv : v = w
  · subst hv
    rw [Function.update_self, hnext]
    by_cases hm : m = entry.event.mutexHandle
    · subst hm
      simp
    · rw [Function.update_of_ne hm, h m v, hheld]
      simpa using Ne.symm hm
  · rw [Function.update_of_ne hv, ← h m v]
    by_cases hm : m = entry.event.mutexHandle
    · subst hm
      rw [Function.update_self, howner]
      simpa using Ne.symm hv
    · rw [Function.update_of_ne hm]

end Held

structure LockInv (prio : W → Nat) (s : Scheduler W) : Prop where
  queues : QueuesHeld prio s.queuesMutex s.pc
  targets : TargetsHeld s.owner s.pc

omit [DecidableEq W] in
theorem lock_inv_opened (prio : W → Nat) : LockInv prio (Scheduler.opened W) := by
  constructor
  · intro p w
    simp [Scheduler.opened, SchedPc.locksQueues]
  · intro m w
    simp [Scheduler.opened, SchedPc.target]

theorem lock_inv_worker {prio : W → Nat} {s t : Scheduler W} (hinv : LockInv prio s) {w : W}
    (h : s.stepWorker (prio w) w = some t) : LockInv prio t := by
  have hlocked : (s.pc w).locksQueues = true → s.queuesMutex (prio w) = some w :=
    fun hlocks => (hinv.queues _ w).mpr ⟨rfl, hlocks⟩
  rcases step_worker_cases h with
    ⟨hpc, hfree, rfl⟩ | ⟨sub, passed, entry, rest, hpc, hfree, rfl⟩ |
    ⟨sub, passed, entry, rest, hpc, -, rfl⟩ | ⟨sub, passed, hpc, rfl⟩ | ⟨passed, hpc, rfl⟩ |
    ⟨entry, hpc, rfl⟩ | ⟨entry, hpc, hfree, rfl⟩ | ⟨entry, hpc, rfl⟩ | ⟨hpc, -, rfl⟩
  all_goals rw [hpc] at hlocked
  · exact ⟨queues_held_lock hinv.queues hfree rfl,
      targets_held_keep hinv.targets (by rw [hpc]; rfl)⟩
  · exact ⟨queues_held_unlock hinv.queues (hlocked rfl) rfl,
      targets_held_take hinv.targets (by rw [hpc]; rfl) hfree rfl⟩
  · exact ⟨queues_held_keep hinv.queues (by rw [hpc]; rfl),
      targets_held_keep hinv.targets (by rw [hpc]; rfl)⟩
  · exact ⟨queues_held_keep hinv.queues (by rw [hpc]; rfl),
      targets_held_keep hinv.targets (by rw [hpc]; rfl)⟩
  · exact ⟨queues_held_unlock hinv.queues (hlocked rfl) rfl,
      targets_held_keep hinv.targets (by rw [hpc]; rfl)⟩
  · exact ⟨queues_held_keep hinv.queues (by rw [hpc]; rfl),
      targets_held_keep hinv.targets (by rw [hpc]; rfl)⟩
  · exact ⟨queues_held_lock hinv.queues hfree rfl,
      targets_held_keep hinv.targets (by rw [hpc]; rfl)⟩
  · exact ⟨queues_held_unlock hinv.queues (hlocked rfl) rfl,
      targets_held_release hinv.targets (by rw [hpc]; rfl) rfl⟩
  · exact ⟨queues_held_keep hinv.queues (by rw [hpc]; rfl),
      targets_held_keep hinv.targets (by rw [hpc]; rfl)⟩

namespace Scheduler

omit [DecidableEq W] in
@[simp] theorem set_queue_same (s : Scheduler W) (p sub : Nat) (xs : List Entry) :
    (s.setQueue p sub xs).queue p sub = xs := by
  simp [setQueue]

omit [DecidableEq W] in
theorem set_queue_other (s : Scheduler W) {p sub p' sub' : Nat} (xs : List Entry)
    (h : ¬ (p' = p ∧ sub' = sub)) : (s.setQueue p sub xs).queue p' sub' = s.queue p' sub' := by
  by_cases hp : p' = p
  · subst hp
    have hsub : sub' ≠ sub := fun hsub => h ⟨rfl, hsub⟩
    simp [setQueue, Function.update_of_ne hsub]
  · simp [setQueue, Function.update_of_ne hp]

omit [DecidableEq W] in
/-- Waking up touches the counter and the semaphore of its priority only. -/
theorem wake_up_frame (s : Scheduler W) (p : Nat) :
    (s.wakeUpIfNeeded p).queue = s.queue ∧ (s.wakeUpIfNeeded p).queuesMutex = s.queuesMutex ∧
    (s.wakeUpIfNeeded p).owner = s.owner ∧ (s.wakeUpIfNeeded p).pc = s.pc ∧
    (s.wakeUpIfNeeded p).posted = s.posted ∧ (s.wakeUpIfNeeded p).started = s.started ∧
    (s.wakeUpIfNeeded p).removed = s.removed := by
  unfold wakeUpIfNeeded
  split_ifs <;> exact ⟨rfl, rfl, rfl, rfl, rfl, rfl, rfl⟩

end Scheduler

/-- Every posting is counted in exactly one place; the queues are in posting order; a scan holds
the queue as it is; a started entry belongs to the priority of its worker. -/
structure QueueInv (prio : W → Nat) (s : Scheduler W) : Prop where
  placed : ∀ p sub, ∀ e ∈ s.queue p sub, e.event.priority = p ∧ e.event.subpriority = sub ∧
    sub < maxSchedulerSubpriorityNumber
  sorted : ∀ p sub, (s.queue p sub).Pairwise fun d e => d.stamp < e.stamp
  scanned : ∀ w sub passed rest, s.pc w = .scanning sub passed rest →
    sub < maxSchedulerSubpriorityNumber ∧ s.queue (prio w) sub = passed ++ rest
  held : ∀ w e, (s.pc w).target = some e → e ∈ s.started ∧ e.event.priority = prio w
  stamped : ∀ (i : Nat) (e : Entry), s.posted[i]? = some e → e.stamp = i
  counted : ∀ e : Entry, s.posted.count e =
    (s.queue e.event.priority e.event.subpriority).count e + s.started.count e +
      s.removed.count e

omit [DecidableEq W] in
theorem queue_inv_opened (prio : W → Nat) : QueueInv prio (Scheduler.opened W) := by
  constructor <;> simp [Scheduler.opened, SchedPc.target]

omit [DecidableEq W] in
theorem posted_nodup {prio : W → Nat} {s : Scheduler W} (hinv : QueueInv prio s) :
    s.posted.Nodup := by
  rw [List.nodup_iff_getElem?_ne_getElem?]
  intro i j hij hj heq
  have hi : i < s.posted.length := hij.trans hj
  have hei := hinv.stamped i _ (List.getElem?_eq_getElem hi)
  have hej := hinv.stamped j _ (List.getElem?_eq_getElem hj)
  rw [List.getElem?_eq_getElem hi, List.getElem?_eq_getElem hj, Option.some.injEq] at heq
  rw [heq] at hei
  omega

omit [DecidableEq W] in
theorem mem_posted_of_queued {prio : W → Nat} {s : Scheduler W} (hinv : QueueInv prio s)
    {p sub : Nat} {e : Entry} (he : e ∈ s.queue p sub) : e ∈ s.posted := by
  obtain ⟨hp, hsub, -⟩ := hinv.placed p sub e he
  have hcount := hinv.counted e
  have hpos : 0 < (s.queue e.event.priority e.event.subpriority).count e := by
    rw [hp, hsub]
    exact List.count_pos_iff.mpr he
  exact List.count_pos_iff.mp (by omega)

omit [DecidableEq W] in
theorem mem_posted_of_started {prio : W → Nat} {s : Scheduler W} (hinv : QueueInv prio s)
    {e : Entry} (he : e ∈ s.started) : e ∈ s.posted := by
  have hcount := hinv.counted e
  have hpos := List.count_pos_iff.mpr he
  exact List.count_pos_iff.mp (by omega)

omit [DecidableEq W] in
theorem stamp_lt_length {prio : W → Nat} {s : Scheduler W} (hinv : QueueInv prio s)
    {e : Entry} (he : e ∈ s.posted) : e.stamp < s.posted.length := by
  obtain ⟨i, hi⟩ := List.mem_iff_getElem?.mp he
  rw [hinv.stamped i e hi]
  exact (List.getElem?_eq_some_iff.mp hi).1

/-- A step of a worker that leaves the queues and the records alone. -/
theorem queue_inv_of_pc {prio : W → Nat} {s t : Scheduler W} (hinv : QueueInv prio s) {w : W}
    {next : SchedPc} (hqueue : t.queue = s.queue) (hpc : t.pc = Function.update s.pc w next)
    (hposted : t.posted = s.posted) (hstarted : t.started = s.started)
    (hremoved : t.removed = s.removed)
    (hscan : ∀ sub passed rest, next = .scanning sub passed rest →
      sub < maxSchedulerSubpriorityNumber ∧ s.queue (prio w) sub = passed ++ rest)
    (htarget : next.target = none ∨ next.target = (s.pc w).target) : QueueInv prio t where
  placed := by
    rw [hqueue]
    exact hinv.placed
  sorted := by
    rw [hqueue]
    exact hinv.sorted
  scanned := by
    rw [hqueue, hpc]
    intro v sub passed rest hv
    by_cases hvw : v = w
    · subst hvw
      rw [Function.update_self] at hv
      exact hscan sub passed rest hv
    · rw [Function.update_of_ne hvw] at hv
      exact hinv.scanned v sub passed rest hv
  held := by
    rw [hpc, hstarted]
    intro v e hv
    by_cases hvw : v = w
    · subst hvw
      rw [Function.update_self] at hv
      rcases htarget with hnone | hsame
      · cases hnone.symm.trans hv
      · exact hinv.held v e (hsame ▸ hv)
    · rw [Function.update_of_ne hvw] at hv
      exact hinv.held v e hv
  stamped := by
    rw [hposted]
    exact hinv.stamped
  counted := by
    rw [hposted, hqueue, hstarted, hremoved]
    exact hinv.counted

omit [DecidableEq W] in
/-- While nobody stands inside the queues of `p` they may be changed. -/
theorem scanned_of_free {prio : W → Nat} {s : Scheduler W} (hlock : LockInv prio s)
    {p : Nat} (hfree : s.queuesMutex p = none) {w : W} {sub : Nat} {passed rest : List Entry}
    (hpc : s.pc w = .scanning sub passed rest) : prio w ≠ p := by
  rintro rfl
  have hheld := (hlock.queues (prio w) w).mpr ⟨rfl, by rw [hpc]; rfl⟩
  cases hfree.symm.trans hheld

omit [DecidableEq W] in
theorem sched_event_frame (s : Scheduler W) (event : SchedEvent) :
    (s.schedEvent event).queue = (s.setQueue event.priority event.subpriority
      (s.queue event.priority event.subpriority ++ [s.nextEntry event])).queue ∧
    (s.schedEvent event).queuesMutex = s.queuesMutex ∧ (s.schedEvent event).owner = s.owner ∧
    (s.schedEvent event).pc = s.pc ∧
    (s.schedEvent event).posted = s.posted ++ [s.nextEntry event] ∧
    (s.schedEvent event).started = s.started ∧ (s.schedEvent event).removed = s.removed :=
  Scheduler.wake_up_frame _ _

omit [DecidableEq W] in
/-- Changing one queue to a list in posting order whose entries belong there. -/
theorem set_queue_placed {prio : W → Nat} {s : Scheduler W} (hinv : QueueInv prio s)
    {p sub : Nat} {xs : List Entry}
    (hplaced : ∀ e ∈ xs, e.event.priority = p ∧ e.event.subpriority = sub ∧
      sub < maxSchedulerSubpriorityNumber)
    (hsorted : xs.Pairwise fun d e => d.stamp < e.stamp) :
    (∀ p' sub', ∀ e ∈ (s.setQueue p sub xs).queue p' sub', e.event.priority = p' ∧
      e.event.subpriority = sub' ∧ sub' < maxSchedulerSubpriorityNumber) ∧
    ∀ p' sub', ((s.setQueue p sub xs).queue p' sub').Pairwise fun d e => d.stamp < e.stamp := by
  constructor
  · intro p' sub' e he
    by_cases hhere : p' = p ∧ sub' = sub
    · obtain ⟨rfl, rfl⟩ := hhere
      rw [Scheduler.set_queue_same] at he
      exact hplaced e he
    · rw [Scheduler.set_queue_other _ _ hhere] at he
      exact hinv.placed p' sub' e he
  · intro p' sub'
    by_cases hhere : p' = p ∧ sub' = sub
    · obtain ⟨rfl, rfl⟩ := hhere
      rw [Scheduler.set_queue_same]
      exact hsorted
    · rw [Scheduler.set_queue_other _ _ hhere]
      exact hinv.sorted p' sub'

omit [DecidableEq W] in
theorem queue_inv_post {prio : W → Nat} {s : Scheduler W} (hlock : LockInv prio s)
    (hinv : QueueInv prio s) {event : SchedEvent}
    (hsub : event.subpriority < maxSchedulerSubpriorityNumber)
    (hfree : s.queuesMutex event.priority = none) : QueueInv prio (s.schedEvent event) := by
  obtain ⟨hqueue, -, -, hpc, hposted, hstarted, hremoved⟩ := sched_event_frame s event
  have hxs : ∀ e ∈ s.queue event.priority event.subpriority ++ [s.nextEntry event],
      e.event.priority = event.priority ∧ e.event.subpriority = event.subpriority ∧
        event.subpriority < maxSchedulerSubpriorityNumber := by
    intro e he
    rcases List.mem_append.mp he with he | he
    · exact hinv.placed _ _ e he
    · rw [List.mem_singleton.mp he]
      exact ⟨rfl, rfl, hsub⟩
  have hsorted : (s.queue event.priority event.subpriority ++
      [s.nextEntry event]).Pairwise fun d e => d.stamp < e.stamp := by
    refine List.pairwise_append.mpr ⟨hinv.sorted _ _, List.pairwise_singleton _ _, ?_⟩
    intro d hd e he
    rw [List.mem_singleton.mp he]
    exact stamp_lt_length hinv (mem_posted_of_queued hinv hd)
  obtain ⟨hplaced', hsorted'⟩ := set_queue_placed hinv hxs hsorted
  refine ⟨hqueue ▸ hplaced', hqueue ▸ hsorted', ?_, ?_, ?_, ?_⟩
  · rw [hqueue, hpc]
    intro w sub passed rest hw
    have hother := scanned_of_free hlock hfree hw
    rw [Scheduler.set_queue_other _ _ (fun h => hother h.1)]
    exact hinv.scanned w sub passed rest hw
  · rw [hpc, hstarted]
    exact hinv.held
  · rw [hposted]
    intro i e he
    rw [List.getElem?_append] at he
    split_ifs at he with hi
    · exact hinv.stamped i e he
    · rw [List.getElem?_singleton] at he
      split_ifs at he with hzero
      cases he
      show s.posted.length = i
      omega
  · rw [hposted, hqueue, hstarted, hremoved]
    intro e
    have hcount := hinv.counted e
    rw [List.count_append]
    by_cases hhere : e.event.priority = event.priority ∧ e.event.subpriority = event.subpriority
    · rw [hhere.1, hhere.2, Scheduler.set_queue_same, List.count_append]
      rw [hhere.1, hhere.2] at hcount
      omega
    · rw [Scheduler.set_queue_other _ _ hhere]
      have hother : [s.nextEntry event].count e = 0 := by
        rw [List.count_eq_zero, List.mem_singleton]
        rintro rfl
        exact hhere ⟨rfl, rfl⟩
      omega

omit [DecidableEq W] in
theorem remove_queue_subset (s : Scheduler W) (targetTHIS p sub : Nat) :
    ∀ p' sub', ∀ e ∈ (s.schedulerRemove targetTHIS p sub).queue p' sub', e ∈ s.queue p' sub' := by
  intro p' sub' e he
  change e ∈ (s.setQueue p sub _).queue p' sub' at he
  by_cases hhere : p' = p ∧ sub' = sub
  · obtain ⟨rfl, rfl⟩ := hhere
    rw [Scheduler.set_queue_same] at he
    exact (pop_matching_sublist _ _).subset he
  · rwa [Scheduler.set_queue_other _ _ hhere] at he

omit [DecidableEq W] in
theorem queue_inv_remove {prio : W → Nat} {s : Scheduler W} (hlock : LockInv prio s)
    (hinv : QueueInv prio s) {targetTHIS p sub : Nat} (hfree : s.queuesMutex p = none) :
    QueueInv prio (s.schedulerRemove targetTHIS p sub) := by
  have hpop := pop_matching_cases (fun e : Entry => e.event.this == targetTHIS) (s.queue p sub)
  have hsublist := pop_matching_sublist (fun e : Entry => e.event.this == targetTHIS)
    (s.queue p sub)
  obtain ⟨hplaced', hsorted'⟩ := set_queue_placed hinv
    (fun e he => hinv.placed p sub e (hsublist.subset he)) ((hinv.sorted p sub).sublist hsublist)
  refine ⟨hplaced', hsorted', ?_, hinv.held, hinv.stamped, ?_⟩
  · intro w sub' passed rest hw
    have hother := scanned_of_free hlock hfree hw
    show sub' < _ ∧ (s.setQueue p sub _).queue (prio w) sub' = _
    rw [Scheduler.set_queue_other _ _ (fun h => hother h.1)]
    exact hinv.scanned w sub' passed rest hw
  · intro e
    have hcount := hinv.counted e
    show s.posted.count e = ((s.setQueue p sub _).queue _ _).count e + s.started.count e +
      (s.removed ++ _).count e
    rw [List.count_append]
    by_cases hhere : e.event.priority = p ∧ e.event.subpriority = sub
    · rw [hhere.1, hhere.2] at hcount ⊢
      rw [Scheduler.set_queue_same]
      rcases hpop with ⟨-, heq⟩ | ⟨front, x, back, hqueue, -, -, heq⟩
      · rw [heq]
        simpa using hcount
      · rw [heq]
        rw [hqueue] at hcount
        simp only [List.count_append, List.count_cons, Option.toList_some, List.count_nil]
          at hcount ⊢
        omega
    · rw [Scheduler.set_queue_other _ _ hhere]
      have hother : (popMatching (fun e : Entry => e.event.this == targetTHIS)
          (s.queue p sub)).1.toList.count e = 0 := by
        rw [List.count_eq_zero]
        intro hmem
        rcases hpop with ⟨-, heq⟩ | ⟨front, x, back, hqueue, -, -, heq⟩
        · simp [heq] at hmem
        · have hx : e = x := by simpa [heq] using hmem
          have hplaced := hinv.placed p sub x (by simp [hqueue])
          exact hhere (hx ▸ ⟨hplaced.1, hplaced.2.1⟩)
      omega

omit [DecidableEq W] in
theorem scanning_alone {prio : W → Nat} {s : Scheduler W} (hlock : LockInv prio s) {v w : W}
    (hw : (s.pc w).locksQueues = true) (hv : (s.pc v).locksQueues = true)
    (hprio : prio v = prio w) : v = w := by
  have hheld := (hlock.queues (prio w) w).mpr ⟨rfl, hw⟩
  have hheld' := (hlock.queues (prio w) v).mpr ⟨hprio, hv⟩
  exact Option.some.inj (hheld'.symm.trans hheld)

theorem queue_inv_take {prio : W → Nat} {s : Scheduler W} (hlock : LockInv prio s)
    (hinv : QueueInv prio s) {w : W} {sub : Nat} {passed rest : List Entry} {entry : Entry}
    (hpc : s.pc w = .scanning sub passed (entry :: rest)) :
    QueueInv prio (s.take (prio w) w sub passed rest entry) := by
  obtain ⟨hsub, hqueue⟩ := hinv.scanned w sub passed (entry :: rest) hpc
  have hentry := hinv.placed (prio w) sub entry (by simp [hqueue])
  have hsublist : (passed ++ rest).Sublist (s.queue (prio w) sub) := by
    rw [hqueue]
    exact List.Sublist.append_left (List.sublist_cons_self entry rest) passed
  obtain ⟨hplaced', hsorted'⟩ := set_queue_placed hinv
    (fun e he => hinv.placed (prio w) sub e (hsublist.subset he))
    ((hinv.sorted (prio w) sub).sublist hsublist)
  refine ⟨hplaced', hsorted', ?_, ?_, hinv.stamped, ?_⟩
  · intro v sub' passed' rest' hv
    by_cases hvw : v = w
    · subst hvw
      change Function.update s.pc v _ v = _ at hv
      rw [Function.update_self] at hv
      cases hv
    · change Function.update s.pc w _ v = _ at hv
      rw [Function.update_of_ne hvw] at hv
      have hother : prio v ≠ prio w := fun hprio =>
        hvw (scanning_alone hlock (by rw [hpc]; rfl) (by rw [hv]; rfl) hprio)
      show sub' < _ ∧ (s.setQueue (prio w) sub _).queue (prio v) sub' = _
      rw [Scheduler.set_queue_other _ _ (fun h => hother h.1)]
      exact hinv.scanned v sub' passed' rest' hv
  · intro v e hv
    show e ∈ s.started ++ [entry] ∧ _
    rw [List.mem_append, List.mem_singleton]
    by_cases hvw : v = w
    · subst hvw
      change (Function.update s.pc v _ v).target = _ at hv
      rw [Function.update_self] at hv
      cases hv
      exact ⟨.inr rfl, hentry.1⟩
    · change (Function.update s.pc w _ v).target = _ at hv
      rw [Function.update_of_ne hvw] at hv
      obtain ⟨hstarted, hprio⟩ := hinv.held v e hv
      exact ⟨.inl hstarted, hprio⟩
  · intro e
    have hcount := hinv.counted e
    show s.posted.count e = ((s.setQueue (prio w) sub _).queue _ _).count e +
      (s.started ++ [entry]).count e + s.removed.count e
    rw [List.count_append]
    by_cases hhere : e.event.priority = prio w ∧ e.event.subpriority = sub
    · rw [hhere.1, hhere.2, hqueue] at hcount
      rw [hhere.1, hhere.2, Scheduler.set_queue_same]
      simp only [List.count_append, List.count_cons, List.count_nil] at hcount ⊢
      omega
    · rw [Scheduler.set_queue_other _ _ hhere]
      have hother : [entry].count e = 0 := by
        rw [List.count_eq_zero, List.mem_singleton]
        rintro rfl
        exact hhere ⟨hentry.1, hentry.2.1⟩
      omega

theorem queue_inv_worker {prio : W → Nat} {s t : Scheduler W} (hlock : LockInv prio s)
    (hinv : QueueInv prio s) {w : W} (h : s.stepWorker (prio w) w = some t) :
    QueueInv prio t := by
  rcases step_worker_cases h with
    ⟨hpc, hfree, rfl⟩ | ⟨sub, passed, entry, rest, hpc, hfree, rfl⟩ |
    ⟨sub, passed, entry, rest, hpc, -, rfl⟩ | ⟨sub, passed, hpc, rfl⟩ | ⟨passed, hpc, rfl⟩ |
    ⟨entry, hpc, rfl⟩ | ⟨entry, hpc, hfree, rfl⟩ | ⟨entry, hpc, rfl⟩ | ⟨hpc, -, rfl⟩
  · refine queue_inv_of_pc hinv rfl rfl rfl rfl rfl ?_ (.inl rfl)
    rintro sub passed rest ⟨⟩
    exact ⟨by decide, rfl⟩
  · exact queue_inv_take hlock hinv hpc
  · refine queue_inv_of_pc hinv rfl rfl rfl rfl rfl ?_ (.inl rfl)
    rintro sub' passed' rest' ⟨⟩
    obtain ⟨hsub, hqueue⟩ := hinv.scanned w sub passed (entry :: rest) hpc
    exact ⟨hsub, by rw [hqueue, List.append_assoc]; rfl⟩
  · refine queue_inv_of_pc hinv rfl rfl rfl rfl rfl ?_ (.inl rfl)
    rintro sub' passed' rest' ⟨⟩
    obtain ⟨hsub, -⟩ := hinv.scanned w (sub + 1) passed [] hpc
    exact ⟨by omega, rfl⟩
  · exact queue_inv_of_pc hinv rfl rfl rfl rfl rfl (fun _ _ _ h => by cases h) (.inl rfl)
  · exact queue_inv_of_pc hinv rfl rfl rfl rfl rfl (fun _ _ _ h => by cases h)
      (.inr (by rw [hpc]; rfl))
  · exact queue_inv_of_pc hinv rfl rfl rfl rfl rfl (fun _ _ _ h => by cases h)
      (.inr (by rw [hpc]; rfl))
  · exact queue_inv_of_pc hinv rfl rfl rfl rfl rfl (fun _ _ _ h => by cases h) (.inl rfl)
  · exact queue_inv_of_pc hinv rfl rfl rfl rfl rfl (fun _ _ _ h => by cases h) (.inl rfl)

structure SchedInv (prio : W → Nat) (s : Scheduler W) : Prop where
  lock : LockInv prio s
  queue : QueueInv prio s

/-- The three kinds of step with what their guards say. -/
theorem sched_step_cases [Fintype W] {prio : W → Nat} {s t : Scheduler W} {a : SchedAction W}
    (h : s.step prio a = some t) :
    (∃ event, a = .post event ∧ event.subpriority < maxSchedulerSubpriorityNumber ∧
      (∃ w, prio w = event.priority) ∧ s.queuesMutex event.priority = none ∧
      t = s.schedEvent event) ∨
    (∃ targetTHIS p sub, a = .remove targetTHIS p sub ∧ s.queuesMutex p = none ∧
      t = s.schedulerRemove targetTHIS p sub) ∨
    ∃ w, a = .worker w ∧ s.stepWorker (prio w) w = some t := by
  cases a with
  | post event =>
    simp only [Scheduler.step] at h
    split_ifs at h with hguard
    cases h
    exact .inl ⟨event, rfl, hguard.2.1, hguard.2.2.1, hguard.2.2.2, rfl⟩
  | remove targetTHIS p sub =>
    simp only [Scheduler.step] at h
    split_ifs at h with hguard
    cases h
    exact .inr (.inl ⟨targetTHIS, p, sub, rfl, hguard.2.2, rfl⟩)
  | worker w => exact .inr (.inr ⟨w, rfl, h⟩)

theorem sched_inv_step [Fintype W] {prio : W → Nat} (s : Scheduler W) (a : SchedAction W)
    (t : Scheduler W) (hinv : SchedInv prio s) (h : s.step prio a = some t) :
    SchedInv prio t := by
  rcases sched_step_cases h with
    ⟨event, -, hsub, -, hfree, rfl⟩ | ⟨targetTHIS, p, sub, -, hfree, rfl⟩ | ⟨w, -, h⟩
  · refine ⟨?_, queue_inv_post hinv.lock hinv.queue hsub hfree⟩
    obtain ⟨-, hmutex, howner, hpc, -⟩ := sched_event_frame s event
    constructor
    · rw [hmutex, hpc]
      exact hinv.lock.queues
    · rw [howner, hpc]
      exact hinv.lock.targets
  · exact ⟨⟨hinv.lock.queues, hinv.lock.targets⟩, queue_inv_remove hinv.lock hinv.queue hfree⟩
  · exact ⟨lock_inv_worker hinv.lock h, queue_inv_worker hinv.lock hinv.queue h⟩

omit [DecidableEq W] in
theorem sched_inv_opened (prio : W → Nat) : SchedInv prio (Scheduler.opened W) :=
  ⟨lock_inv_opened prio, queue_inv_opened prio⟩

theorem sched_inv_run [Fintype W] {prio : W → Nat} {s : Scheduler W} {as : List (SchedAction W)}
    (h : run (Scheduler.step prio) (.opened W) as = some s) : SchedInv prio s :=
  run_induction sched_inv_step (sched_inv_opened prio) h

/-- Where a target mutex is shared, all its events have one priority. -/
def onePriority (s : Scheduler W) : SchedAction W → Prop
  | .post event => ∀ e ∈ s.posted, e.event.mutexHandle = event.mutexHandle →
      e.event.priority = event.priority
  | _ => True

instance (s : Scheduler W) (a : SchedAction W) : Decidable (onePriority s a) := by
  cases a <;> unfold onePriority <;> infer_instance

/-- The postings so far share target mutexes within one priority only. -/
def SharedWithin (s : Scheduler W) : Prop :=
  ∀ d ∈ s.posted, ∀ e ∈ s.posted, d.event.mutexHandle = e.event.mutexHandle →
    d.event.priority = e.event.priority

theorem worker_posted {s t : Scheduler W} {p : Nat} {w : W} (h : s.stepWorker p w = some t) :
    t.posted = s.posted := by
  rcases step_worker_cases h with
    ⟨-, -, rfl⟩ | ⟨_, _, _, _, -, -, rfl⟩ | ⟨_, _, _, _, -, -, rfl⟩ | ⟨_, _, -, rfl⟩ |
    ⟨_, -, rfl⟩ | ⟨_, -, rfl⟩ | ⟨_, -, -, rfl⟩ | ⟨_, -, rfl⟩ | ⟨-, -, rfl⟩ <;> rfl

theorem shared_within_step [Fintype W] {prio : W → Nat} {s t : Scheduler W} {a : SchedAction W}
    (hinv : SharedWithin s) (hok : onePriority s a) (h : s.step prio a = some t) :
    SharedWithin t := by
  rcases sched_step_cases h with ⟨event, rfl, -, -, -, rfl⟩ | ⟨_, _, _, -, -, rfl⟩ | ⟨w, -, h⟩
  · obtain ⟨-, -, -, -, hposted, -⟩ := sched_event_frame s event
    intro d hd e he hsame
    rw [hposted, List.mem_append, List.mem_singleton] at hd he
    rcases hd with hd | rfl
    · rcases he with he | rfl
      · exact hinv d hd e he hsame
      · exact hok d hd hsame
    · rcases he with he | rfl
      · exact (hok e he hsame.symm).symm
      · rfl
  · exact hinv
  · have hposted := worker_posted h
    intro d hd e he
    rw [hposted] at hd he
    exact hinv d hd e he

end Codinalte.HostEE
