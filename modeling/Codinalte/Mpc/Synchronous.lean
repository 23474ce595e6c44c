import Codinalte.Lib.Machine
import Codinalte.Mpc.LowScheduler

/-! The synchronous scheduler of the media processor. `enter` scans the lists from the highest
priority down, starts again after each reaction, and stops the core once a scan has found nothing.
Interrupts and reactions post at any point where the interrupts are not masked by the scan. -/

namespace Codinalte.Mpc
open Codinalte.Machine

/-- Where `main` and `enter` stand. -/
inductive SynchronousPc (E : Type) where
  | starting
  | masking
  | scanning (priority : Int)
  | reaction (event : E)
  | toSleep
  | idle

/-- `nesting` is the number of interrupts being served; `posted` and `started` record what became
of the events. -/
structure SynchronousScheduler (E : Type) where
  lists : EventLists E
  activePriority : Int
  masked : Bool
  nesting : Nat
  pc : SynchronousPc E
  posted : List E
  started : List E

def SynchronousScheduler.reset (E : Type) : SynchronousScheduler E where
  lists := ⟨fun _ => none, fun _ => none, fun _ => none⟩
  activePriority := -1
  masked := false
  nesting := 0
  pc := .starting
  posted := []
  started := []

inductive SynchronousAction (E : Type) where
  | schedEvent (event : E)
  | mask
  | unmask
  | interrupt
  | interruptReturn
  | reactionReturn
  | abortCurrentTask
  | enterLoop

variable {E : Type} [DecidableEq E]

def SynchronousAction.posts : SynchronousAction E → Option E
  | .schedEvent event => some event
  | _ => none

namespace SynchronousScheduler

omit [DecidableEq E] in
/-- Code other than the scheduler runs: an interrupt, a reaction, or `construct` and `start` of the
components. -/
def inUserCode (s : SynchronousScheduler E) : Bool :=
  s.nesting ≠ 0 ||
    match s.pc with
    | .starting => true
    | .reaction _ => true
    | _ => false

/-- `Sched_Event`. -/
def schedEvent (priority : E → Int) (s : SynchronousScheduler E) (event : E) :
    Option (SynchronousScheduler E) :=
  (lowSchedEvent s.lists event (priority event)).map fun lists =>
    { s with lists, posted := s.posted ++ [event] }

omit [DecidableEq E] in
/-- One turn of the inner loop of `enter`. -/
def scan (s : SynchronousScheduler E) (priority : Int) : SynchronousScheduler E :=
  if 0 ≤ priority then
    match takeFirstEvent s.lists priority with
    | some (event, lists) =>
      { s with
        lists
        activePriority := priority
        pc := .reaction event
        started := s.started ++ [event] }
    | none => { s with activePriority := priority, pc := .scanning (priority - 1) }
  else { s with activePriority := -1, pc := .toSleep }

omit [DecidableEq E] in
/-- `toSleep` is what follows the scan up to the end of `SWITCH_IDLE_MODE`, which unmasks the
interrupts; a retention in `ulp.enter` ends in `enter` too. -/
def enterLoop (s : SynchronousScheduler E) : Option (SynchronousScheduler E) :=
  match s.pc with
  | .starting => some { s with pc := .masking }
  | .masking => some { s with masked := true, pc := .scanning (maxSchedPriority - 1) }
  | .scanning priority => some (s.scan priority)
  | .reaction _ => none
  | .toSleep => some { s with masked := false, pc := .idle }
  | .idle => some { s with pc := .masking }

def step (priority : E → Int) (s : SynchronousScheduler E) :
    SynchronousAction E → Option (SynchronousScheduler E)
  | .schedEvent event =>
    if s.inUserCode = true ∧ s.masked = true ∧ 0 ≤ priority event ∧
        priority event < maxSchedPriority then
      s.schedEvent priority event
    else none
  | .mask => if s.inUserCode = true then some { s with masked := true } else none
  | .unmask => if s.inUserCode = true then some { s with masked := false } else none
  | .interrupt => if s.masked = false then some { s with nesting := s.nesting + 1 } else none
  | .interruptReturn =>
    if s.nesting ≠ 0 ∧ s.masked = false then some { s with nesting := s.nesting - 1 } else none
  | .reactionReturn =>
    match s.pc with
    | .reaction _ =>
      if s.nesting = 0 then
        some { s with masked := true, pc := .scanning (maxSchedPriority - 1) }
      else none
    | _ => none
  | .abortCurrentTask =>
    if s.inUserCode = true then some { s with nesting := 0, pc := .masking } else none
  | .enterLoop => if s.nesting = 0 then s.enterLoop else none

end SynchronousScheduler

/-- Posting, masking and serving interrupts, the two ends of a reaction, and the loop. -/
theorem synchronous_step_cases {priority : E → Int} {s t : SynchronousScheduler E}
    {a : SynchronousAction E} (h : s.step priority a = some t) :
    (∃ event lists, a = .schedEvent event ∧ s.inUserCode = true ∧ 0 ≤ priority event ∧
      priority event < maxSchedPriority ∧
      lowSchedEvent s.lists event (priority event) = some lists ∧
      t = { s with lists, posted := s.posted ++ [event] }) ∨
    (∃ masked nesting, (s.inUserCode = true ∨ s.masked = false) ∧
      t = { s with masked := masked, nesting := nesting }) ∨
    (s.nesting = 0 ∧ t = { s with masked := true, pc := .scanning (maxSchedPriority - 1) }) ∨
    t = { s with nesting := 0, pc := .masking } ∨
    (s.nesting = 0 ∧ s.enterLoop = some t) := by
  cases a with
  | schedEvent event =>
    obtain ⟨⟨huser, -, hlow, hhigh⟩, hpost⟩ := Option.ite_none_right_eq_some.mp h
    obtain ⟨lists, hlists, rfl⟩ := Option.map_eq_some_iff.mp hpost
    exact .inl ⟨event, lists, rfl, huser, hlow, hhigh, hlists, rfl⟩
  | mask =>
    obtain ⟨huser, heq⟩ := Option.ite_none_right_eq_some.mp h
    exact .inr (.inl ⟨true, _, .inl huser, (Option.some.inj heq).symm⟩)
  | unmask =>
    obtain ⟨huser, heq⟩ := Option.ite_none_right_eq_some.mp h
    exact .inr (.inl ⟨false, _, .inl huser, (Option.some.inj heq).symm⟩)
  | interrupt =>
    obtain ⟨hmasked, heq⟩ := Option.ite_none_right_eq_some.mp h
    exact .inr (.inl ⟨_, s.nesting + 1, .inr hmasked, (Option.some.inj heq).symm⟩)
  | interruptReturn =>
    obtain ⟨⟨-, hmasked⟩, heq⟩ := Option.ite_none_right_eq_some.mp h
    exact .inr (.inl ⟨_, s.nesting - 1, .inr hmasked, (Option.some.inj heq).symm⟩)
  | reactionReturn =>
    unfold SynchronousScheduler.step at h
    dsimp only at h
    split at h
    · obtain ⟨hnesting, heq⟩ := Option.ite_none_right_eq_some.mp h
      exact .inr (.inr (.inl ⟨hnesting, (Option.some.inj heq).symm⟩))
    · cases h
  | abortCurrentTask =>
    obtain ⟨-, heq⟩ := Option.ite_none_right_eq_some.mp h
    exact .inr (.inr (.inr (.inl (Option.some.inj heq).symm)))
  | enterLoop =>
    obtain ⟨hnesting, henter⟩ := Option.ite_none_right_eq_some.mp h
    exact .inr (.inr (.inr (.inr ⟨hnesting, henter⟩)))

/-- What holds of the lists `queue` in the memory: while `enter` scans, nothing is queued above the
priority it looks at, and nothing at all once the core goes to sleep. -/
structure ScanInv (priority : E → Int) (s : SynchronousScheduler E) (queue : Int → List E) :
    Prop where
  lists : HoldsEvents s.lists queue
  range : ∀ p, queue p ≠ [] → 0 ≤ p ∧ p < maxSchedPriority
  order : ∀ p, s.posted.filter (fun event => priority event = p) =
    s.started.filter (fun event => priority event = p) ++ queue p
  scanning : ∀ p, s.pc = .scanning p →
    s.masked = true ∧ s.nesting = 0 ∧ ∀ q, p < q → queue q = []
  toSleep : s.pc = .toSleep → s.masked = true ∧ s.nesting = 0 ∧ ∀ q, queue q = []

section Invariant
variable {priority : E → Int} {s t : SynchronousScheduler E} {queue : Int → List E}

omit [DecidableEq E] in
theorem ScanInv.priority_eq (h : ScanInv priority s queue) {p : Int} {event : E}
    (hevent : event ∈ queue p) : priority event = p := by
  have hmem : event ∈ s.posted.filter fun event => priority event = p := by
    rw [h.order p]
    exact List.mem_append_right _ hevent
  exact of_decide_eq_true (List.mem_filter.mp hmem).2

omit [DecidableEq E] in
/-- Code other than the scheduler does not run during a scan. -/
theorem ScanInv.user_code (h : ScanInv priority s queue)
    (huser : s.inUserCode = true ∨ s.masked = false) :
    (∀ p, s.pc ≠ .scanning p) ∧ s.pc ≠ .toSleep := by
  have hbusy : s.masked = true → s.nesting = 0 → s.inUserCode = true := by
    intro hmasked hnesting
    rcases huser with huser | hunmasked
    · exact huser
    · rw [hunmasked] at hmasked
      cases hmasked
  constructor
  · intro p hpc
    obtain ⟨hmasked, hnesting, -⟩ := h.scanning p hpc
    have hcode := hbusy hmasked hnesting
    unfold SynchronousScheduler.inUserCode at hcode
    rw [hnesting, hpc] at hcode
    cases hcode
  · intro hpc
    obtain ⟨hmasked, hnesting, -⟩ := h.toSleep hpc
    have hcode := hbusy hmasked hnesting
    unfold SynchronousScheduler.inUserCode at hcode
    rw [hnesting, hpc] at hcode
    cases hcode

omit [DecidableEq E] in
/-- A step that touches no list and does not begin a scan. -/
theorem ScanInv.quiet (h : ScanInv priority s queue) (hlists : t.lists = s.lists)
    (hposted : t.posted = s.posted) (hstarted : t.started = s.started)
    (hpc : (∀ p, t.pc ≠ .scanning p) ∧ t.pc ≠ .toSleep) : ScanInv priority t queue := by
  refine ⟨hlists ▸ h.lists, h.range, ?_, ?_, ?_⟩
  · intro p
    rw [hposted, hstarted]
    exact h.order p
  · exact fun p heq => absurd heq (hpc.1 p)
  · exact fun heq => absurd heq hpc.2

omit [DecidableEq E] in
/-- A scan that begins: nothing lies above the highest priority. -/
theorem ScanInv.begin_scan (h : ScanInv priority s queue) (hnesting : s.nesting = 0) :
    ScanInv priority { s with masked := true, pc := .scanning (maxSchedPriority - 1) } queue := by
  refine ⟨h.lists, h.range, h.order, ?_, fun heq => by cases heq⟩
  intro p hpc
  refine ⟨rfl, hnesting, fun q hq => ?_⟩
  have hp : maxSchedPriority - 1 = p := SynchronousPc.scanning.inj hpc
  by_contra hne
  have hrange := (h.range q hne).2
  omega

theorem count_same_priority (event : E) (l : List E) :
    (l.filter fun event' => priority event' = priority event).count event = l.count event :=
  List.count_filter (decide_eq_true rfl)

/-- Posted events that all have been dispatched are in no list. -/
theorem ScanInv.fresh (h : ScanInv priority s queue) {event : E}
    (hcount : s.posted.count event = s.started.count event) (p : Int) : event ∉ queue p := by
  intro hevent
  obtain rfl := h.priority_eq hevent
  have hboth := congrArg (List.count event) (h.order (priority event))
  rw [List.count_append, count_same_priority, count_same_priority] at hboth
  have hpos := List.count_pos_iff.mpr hevent
  omega

theorem scan_inv_sched_event (h : ScanInv priority s queue) {event : E} {lists : EventLists E}
    (huser : s.inUserCode = true) (hlow : 0 ≤ priority event)
    (hhigh : priority event < maxSchedPriority) (hnew : ∀ p, event ∉ queue p)
    (hlists : lowSchedEvent s.lists event (priority event) = some lists) :
    ScanInv priority { s with lists, posted := s.posted ++ [event] }
      (Function.update queue (priority event) (queue (priority event) ++ [event])) := by
  obtain ⟨lists', hlists', hholds⟩ := low_sched_event_holds (priority event) h.lists hnew
  obtain rfl : lists = lists' := Option.some.inj (hlists.symm.trans hlists')
  obtain ⟨hscanning, hsleep⟩ := h.user_code (.inl huser)
  refine ⟨hholds, ?_, ?_, fun p heq => absurd heq (hscanning p), fun heq => absurd heq hsleep⟩
  · intro p hne
    by_cases hp : p = priority event
    · subst hp
      exact ⟨hlow, hhigh⟩
    · rw [Function.update_of_ne hp] at hne
      exact h.range p hne
  · intro p
    show (s.posted ++ [event]).filter _ = _
    rw [List.filter_append, h.order p, List.append_assoc]
    congr 1
    by_cases hp : p = priority event
    · subst hp
      rw [Function.update_self, List.filter_singleton, decide_eq_true rfl]
      rfl
    · rw [Function.update_of_ne hp, List.filter_singleton, decide_eq_false (Ne.symm hp)]
      exact List.append_nil _

omit [DecidableEq E] in
/-- The event that a scan takes was the first of its list, below lists that are empty. -/
theorem scan_inv_dispatch (h : ScanInv priority s queue) {p : Int} {event : E} {rest : List E}
    {lists : EventLists E} (hqueue : queue p = event :: rest)
    (hlists : HoldsEvents lists (Function.update queue p rest)) :
    ScanInv priority
      { s with
        lists
        activePriority := p
        pc := .reaction event
        started := s.started ++ [event] }
      (Function.update queue p rest) := by
  have hpriority : priority event = p := h.priority_eq (hqueue ▸ List.mem_cons_self ..)
  refine ⟨hlists, ?_, ?_, fun q heq => (by cases heq), fun heq => (by cases heq)⟩
  · intro q hne
    apply h.range q
    by_cases hq : q = p
    · subst hq
      rw [hqueue]
      exact List.cons_ne_nil event rest
    · rw [Function.update_of_ne hq] at hne
      exact hne
  · intro q
    show s.posted.filter _ = (s.started ++ [event]).filter _ ++ _
    rw [h.order q, List.filter_append, List.append_assoc, List.filter_singleton, hpriority]
    congr 1
    by_cases hq : q = p
    · subst hq
      rw [Function.update_self, decide_eq_true rfl, hqueue]
      rfl
    · rw [Function.update_of_ne hq, decide_eq_false (Ne.symm hq)]
      rfl

omit [DecidableEq E] in
theorem first_event_none (h : ScanInv priority s queue) {p : Int} (hempty : queue p = []) :
    s.lists.firstEvent p = none := by
  have hchain := h.lists.chain p
  rw [hempty] at hchain
  exact hchain

omit [DecidableEq E] in
/-- One turn of the scan: the first event of the highest list that is not empty, a priority that
is empty, or the end. -/
theorem scan_cases (h : ScanInv priority s queue) (p : Int) :
    (∃ event rest lists, 0 ≤ p ∧ queue p = event :: rest ∧
      HoldsEvents lists (Function.update queue p rest) ∧
      s.scan p = { s with
        lists
        activePriority := p
        pc := .reaction event
        started := s.started ++ [event] }) ∨
    (0 ≤ p ∧ queue p = [] ∧
      s.scan p = { s with activePriority := p, pc := .scanning (p - 1) }) ∨
    (p < 0 ∧ s.scan p = { s with activePriority := -1, pc := .toSleep }) := by
  unfold SynchronousScheduler.scan
  by_cases hp : 0 ≤ p
  · rw [if_pos hp]
    cases hqueue : queue p with
    | nil =>
      have htake : takeFirstEvent s.lists p = none := by
        unfold takeFirstEvent
        rw [first_event_none h hqueue]
        rfl
      rw [htake]
      exact .inr (.inl ⟨hp, rfl, rfl⟩)
    | cons event rest =>
      obtain ⟨lists, htake, hlists⟩ := take_first_event_holds p h.lists hqueue
      rw [htake]
      exact .inl ⟨event, rest, lists, hp, rfl, hlists, rfl⟩
  · rw [if_neg hp]
    exact .inr (.inr ⟨Int.not_le.mp hp, rfl⟩)

omit [DecidableEq E] in
/-- A priority that is found empty. -/
theorem scan_inv_lower (h : ScanInv priority s queue) {p : Int} (hpc : s.pc = .scanning p)
    (hempty : queue p = []) :
    ScanInv priority { s with activePriority := p, pc := .scanning (p - 1) } queue := by
  obtain ⟨hmasked, hnesting, habove⟩ := h.scanning p hpc
  refine ⟨h.lists, h.range, h.order, ?_, fun hsleep => by cases hsleep⟩
  intro q hq
  refine ⟨hmasked, hnesting, fun r hr => ?_⟩
  have hlower : p - 1 = q := SynchronousPc.scanning.inj hq
  by_cases hrp : r = p
  · rw [hrp]
    exact hempty
  · exact habove r (by omega)

omit [DecidableEq E] in
theorem scan_inv_scan (h : ScanInv priority s queue) {p : Int} (hpc : s.pc = .scanning p) :
    ∃ queue', ScanInv priority (s.scan p) queue' := by
  obtain ⟨hmasked, hnesting, habove⟩ := h.scanning p hpc
  rcases scan_cases h p with ⟨event, rest, lists, -, hqueue, hlists, heq⟩ | ⟨-, hempty, heq⟩ |
    ⟨hend, heq⟩
  · rw [heq]
    exact ⟨_, scan_inv_dispatch h hqueue hlists⟩
  · rw [heq]
    exact ⟨queue, scan_inv_lower h hpc hempty⟩
  · rw [heq]
    refine ⟨queue, h.lists, h.range, h.order, fun q hq => (by cases hq), fun _ => ?_⟩
    refine ⟨hmasked, hnesting, fun q => ?_⟩
    by_contra hne
    exact hne (habove q (Int.lt_of_lt_of_le hend (h.range q hne).1))

/-- An event is posted again only after it has been dispatched. -/
def PostsDispatched (s : SynchronousScheduler E) (a : SynchronousAction E) : Prop :=
  ∀ event ∈ a.posts, s.posted.count event = s.started.count event

instance (s : SynchronousScheduler E) (a : SynchronousAction E) : Decidable (PostsDispatched s a) :=
  inferInstanceAs (Decidable (∀ event ∈ a.posts, _))

omit [DecidableEq E] in
theorem scan_inv_enter_loop (h : ScanInv priority s queue) (hnesting : s.nesting = 0)
    (hstep : s.enterLoop = some t) : ∃ queue', ScanInv priority t queue' := by
  unfold SynchronousScheduler.enterLoop at hstep
  split at hstep
  · cases hstep
    exact ⟨queue, h.quiet rfl rfl rfl ⟨fun p heq => (by cases heq), fun heq => (by cases heq)⟩⟩
  · cases hstep
    exact ⟨queue, h.begin_scan hnesting⟩
  · next p hpc =>
    cases hstep
    exact scan_inv_scan h hpc
  · cases hstep
  · cases hstep
    exact ⟨queue, h.quiet rfl rfl rfl ⟨fun p heq => (by cases heq), fun heq => (by cases heq)⟩⟩
  · cases hstep
    exact ⟨queue, h.quiet rfl rfl rfl ⟨fun p heq => (by cases heq), fun heq => (by cases heq)⟩⟩

theorem scan_inv_step {a : SynchronousAction E} (h : ScanInv priority s queue)
    (hposts : PostsDispatched s a) (hstep : s.step priority a = some t) :
    ∃ queue', ScanInv priority t queue' := by
  rcases synchronous_step_cases hstep with
    ⟨event, lists, ha, huser, hlow, hhigh, hlists, rfl⟩ | ⟨masked, nesting, huser, rfl⟩ |
    ⟨hnesting, rfl⟩ | rfl | ⟨hnesting, henter⟩
  · have hnew := h.fresh (hposts event (ha ▸ rfl))
    exact ⟨_, scan_inv_sched_event h huser hlow hhigh hnew hlists⟩
  · exact ⟨queue, h.quiet rfl rfl rfl (h.user_code huser)⟩
  · exact ⟨queue, h.begin_scan hnesting⟩
  · exact ⟨queue, h.quiet rfl rfl rfl ⟨fun p heq => (by cases heq), fun heq => (by cases heq)⟩⟩
  · exact scan_inv_enter_loop h hnesting henter

omit [DecidableEq E] in
theorem scan_inv_reset : ScanInv priority (.reset E) fun _ => [] where
  lists := by
    refine ⟨fun p => rfl, ?_, fun p => List.nodup_nil, ?_⟩
    · intro p x hx
      cases hx
    · intro p q x hx
      cases hx
  range := fun p hne => absurd rfl hne
  order := fun p => rfl
  scanning := fun p heq => by cases heq
  toSleep := fun heq => by cases heq

theorem scan_inv_run {as : List (SynchronousAction E)}
    (hposts : Meets (SynchronousScheduler.step priority) PostsDispatched (.reset E) as)
    (hrun : run (SynchronousScheduler.step priority) (.reset E) as = some s) :
    ∃ queue, ScanInv priority s queue := by
  refine run_induction_of_meets (P := fun s => ∃ queue, ScanInv priority s queue)
    ?_ ⟨_, scan_inv_reset⟩ hposts hrun
  rintro s a t ⟨queue, h⟩ hnew hstep
  exact scan_inv_step h hnew hstep

omit [DecidableEq E] in
/-- The event that a step of `enter` dispatches, and the lists at that instant. -/
theorem dispatch_highest (h : ScanInv priority s queue) {event : E}
    (hstep : s.enterLoop = some t) (hpc : t.pc = .reaction event) :
    s.masked = true ∧ s.lists.firstEvent (priority event) = some event ∧
      t.started = s.started ++ [event] ∧
      ∀ p, priority event < p → s.lists.firstEvent p = none := by
  unfold SynchronousScheduler.enterLoop at hstep
  split at hstep
  · cases hstep
    cases hpc
  · cases hstep
    cases hpc
  · next p hscanning =>
    obtain ⟨hmasked, -, habove⟩ := h.scanning p hscanning
    have ht : s.scan p = t := Option.some.inj hstep
    rcases scan_cases h p with ⟨event', rest, lists, -, hqueue, -, heq⟩ | ⟨-, -, heq⟩ |
      ⟨-, heq⟩
    · rw [← ht, heq] at hpc ⊢
      obtain rfl : event' = event := SynchronousPc.reaction.inj hpc
      have hpriority : priority event' = p := h.priority_eq (hqueue ▸ List.mem_cons_self ..)
      have hchain := h.lists.chain p
      rw [hqueue] at hchain
      rw [hpriority]
      exact ⟨hmasked, hchain.1, rfl, fun q hq => first_event_none h (habove q hq)⟩
    · rw [← ht, heq] at hpc
      cases hpc
    · rw [← ht, heq] at hpc
      cases hpc
  · cases hstep
  · cases hstep
    cases hpc
  · cases hstep
    cases hpc

/-- With nothing queued, what was posted is what was dispatched. -/
theorem all_dispatched (h : ScanInv priority s queue) (hempty : ∀ p, queue p = []) :
    s.started.Perm s.posted := by
  rw [List.perm_iff_count]
  intro event
  have hboth := congrArg (List.count event) (h.order (priority event))
  rw [hempty, List.append_nil, count_same_priority, count_same_priority] at hboth
  exact hboth.symm

theorem enter_loop_scan (hnesting : s.nesting = 0) {p : Int} (hpc : s.pc = .scanning p) :
    s.step priority .enterLoop = some (s.scan p) := by
  show (if s.nesting = 0 then s.enterLoop else none) = _
  rw [if_pos hnesting]
  unfold SynchronousScheduler.enterLoop
  rw [hpc]

/-- The end of a scan. -/
def Found (s : SynchronousScheduler E) : Prop := s.pc = .toSleep ∨ ∃ event, s.pc = .reaction event

/-- A scan dispatches an event or lets the core sleep; it goes down a priority at each turn. -/
theorem scan_ends (h : ScanInv priority s queue) {p : Int} (hpc : s.pc = .scanning p) :
    ∃ n t, run (SynchronousScheduler.step priority) s (List.replicate n .enterLoop) = some t ∧
      Found t := by
  induction hleft : (p + 1).toNat generalizing s p with
  | zero =>
    have hturn : s.step priority .enterLoop = some (s.scan p) :=
      enter_loop_scan (h.scanning p hpc).2.1 hpc
    rcases scan_cases h p with ⟨event, rest, lists, hp, -, -, -⟩ | ⟨hp, -, -⟩ | ⟨-, heq⟩
    · omega
    · omega
    · refine ⟨1, _, run_cons_eq_some.mpr ⟨_, hturn, rfl⟩, ?_⟩
      rw [heq]
      exact .inl rfl
  | succ left ih =>
    have hturn : s.step priority .enterLoop = some (s.scan p) :=
      enter_loop_scan (h.scanning p hpc).2.1 hpc
    rcases scan_cases h p with ⟨event, rest, lists, -, -, -, heq⟩ | ⟨hp, hempty, heq⟩ | ⟨-, heq⟩
    · refine ⟨1, _, run_cons_eq_some.mpr ⟨_, hturn, rfl⟩, ?_⟩
      rw [heq]
      exact .inr ⟨event, rfl⟩
    · obtain ⟨n, t, hrun, hend⟩ := ih (scan_inv_lower h hpc hempty) rfl (by omega)
      exact ⟨n + 1, t, run_cons_eq_some.mpr ⟨_, hturn, heq ▸ hrun⟩, hend⟩
    · refine ⟨1, _, run_cons_eq_some.mpr ⟨_, hturn, rfl⟩, ?_⟩
      rw [heq]
      exact .inl rfl

/-- `LowSchedEvent` never follows a last pointer that is NULL. -/
theorem sched_event_stores (h : ScanInv priority s queue) {event : E}
    (hposts : PostsDispatched s (.schedEvent event)) :
    (s.schedEvent priority event).isSome = true := by
  obtain ⟨lists, hlists, -⟩ :=
    low_sched_event_holds (priority event) h.lists (h.fresh (hposts event rfl))
  unfold SynchronousScheduler.schedEvent
  rw [hlists]
  rfl

/-- While the reaction of an event of priority 0 runs, an interrupt posts one of priority 2; both
have been dispatched when the core goes to sleep. -/
def sampleReactions : List (SynchronousAction Nat) :=
  [.mask, .schedEvent 0, .unmask, .enterLoop, .enterLoop, .enterLoop, .enterLoop, .enterLoop,
    .unmask, .interrupt, .mask, .schedEvent 2, .unmask, .interruptReturn, .reactionReturn,
    .enterLoop, .unmask, .reactionReturn, .enterLoop, .enterLoop, .enterLoop, .enterLoop]

end Invariant

end Codinalte.Mpc
