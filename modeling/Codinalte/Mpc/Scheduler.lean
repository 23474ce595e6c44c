import Codinalte.Lib.Machine
import Codinalte.Mpc.LowScheduler

/-! The hybrid scheduler of the media processor. `Schedule` runs from the idle loop and, through
the lowest interrupt IT2, on top of a reaction; each activation empties the queues from the highest
priority down to the one it has preempted. -/

namespace Codinalte.Mpc
open Codinalte.Machine

/-- A call of `Schedule` that has not returned, with the reaction it is in. -/
structure Activation (E : Type) where
  preemptedPriority : Int
  fromIT2 : Bool
  running : Option E
deriving DecidableEq

/-- Where `main` and `enter` stand below the activations. -/
inductive EnterPc where
  | starting
  | looping
  | inSchedule
  | toSleep
  | idle
deriving DecidableEq

/-- `it2` is the request written to `HOST[0x16]`, `nesting` the number of higher interrupts being
served; `posted`, `started` and `finished` record what became of the events. -/
structure HybridScheduler (E : Type) where
  activePriority : Int
  switchOnGoing : Bool
  it2 : Bool
  masked : Bool
  nesting : Nat
  queue : Int → List E
  stack : List (Activation E)
  enter : EnterPc
  posted : List E
  started : List E
  finished : List E

def HybridScheduler.reset (E : Type) : HybridScheduler E where
  activePriority := -1
  switchOnGoing := false
  it2 := false
  masked := true
  nesting := 0
  queue := fun _ => []
  stack := []
  enter := .starting
  posted := []
  started := []
  finished := []

inductive HybridAction (E : Type) where
  | schedEvent (event : E)
  | mask
  | unmask
  | interrupt
  | interruptReturn
  | takeIT2
  | reactionReturn
  | schedule
  | enterLoop
deriving DecidableEq

variable {E : Type}

namespace HybridScheduler

/-- Code other than the scheduler runs: a higher interrupt, a reaction, or `construct` and `start`
of the components. -/
def inUserCode (s : HybridScheduler E) : Bool :=
  s.nesting ≠ 0 ||
    match s.stack with
    | [] => s.enter = .starting
    | activation :: _ => activation.running.isSome

/-- `Sched_Event`. -/
def schedEvent (priority : E → Int) (s : HybridScheduler E) (event : E) : HybridScheduler E :=
  let s' := { s with
    queue := Function.update s.queue (priority event) (s.queue (priority event) ++ [event])
    posted := s.posted ++ [event] }
  if s.activePriority < priority event ∧ s.switchOnGoing = false then
    { s' with switchOnGoing := true, it2 := true }
  else s'

/-- The head of `Schedule`. -/
def callSchedule (s : HybridScheduler E) (fromIT2 : Bool) : HybridScheduler E :=
  { s with
    switchOnGoing := false
    activePriority := 2
    stack := ⟨s.activePriority, fromIT2, none⟩ :: s.stack }

/-- IT2 masks the interrupts and returns into the trampoline. -/
def takeIT2 (s : HybridScheduler E) : HybridScheduler E :=
  { s with it2 := false, masked := true }.callSchedule true

/-- `RawSchedule` takes an event and calls its reaction. -/
def dispatch (s : HybridScheduler E) (activation : Activation E) (below : List (Activation E))
    (event : E) (rest : List E) : HybridScheduler E :=
  { s with
    queue := Function.update s.queue s.activePriority rest
    stack := { activation with running := some event } :: below
    started := s.started ++ [event] }

/-- `Schedule` returns to the trampoline, which unmasks the interrupts, or to `enter`. -/
def returnSchedule (s : HybridScheduler E) (activation : Activation E)
    (below : List (Activation E)) : HybridScheduler E :=
  if activation.fromIT2 then { s with stack := below, masked := false }
  else { s with stack := below, enter := .toSleep }

/-- One step of the two loops. -/
def schedule (s : HybridScheduler E) (activation : Activation E) (below : List (Activation E)) :
    HybridScheduler E :=
  if s.activePriority > activation.preemptedPriority then
    match s.queue s.activePriority with
    | event :: rest => s.dispatch activation below event rest
    | [] => { s with activePriority := s.activePriority - 1 }
  else s.returnSchedule activation below

/-- `enter` around `Schedule`; `SWITCH_IDLE_MODE` unmasks the interrupts and waits for one. -/
def enterLoop (s : HybridScheduler E) : Option (HybridScheduler E) :=
  match s.enter with
  | .starting => some { s with masked := true, activePriority := -1, enter := .looping }
  | .looping => some { s.callSchedule false with enter := .inSchedule }
  | .inSchedule => none
  | .toSleep => some { s with masked := false, enter := .idle }
  | .idle => some { s with masked := true, enter := .looping }

def step (priority : E → Int) (s : HybridScheduler E) :
    HybridAction E → Option (HybridScheduler E)
  | .schedEvent event =>
    if s.inUserCode = true ∧ s.masked = true ∧ 0 ≤ priority event ∧
        priority event < maxSchedPriority then
      some (s.schedEvent priority event)
    else none
  | .mask => if s.inUserCode = true then some { s with masked := true } else none
  | .unmask => if s.inUserCode = true then some { s with masked := false } else none
  | .interrupt => if s.masked = false then some { s with nesting := s.nesting + 1 } else none
  | .interruptReturn =>
    if s.nesting ≠ 0 ∧ s.masked = false then some { s with nesting := s.nesting - 1 } else none
  | .takeIT2 =>
    if s.it2 = true ∧ s.masked = false ∧ s.nesting = 0 then some s.takeIT2 else none
  | .reactionReturn =>
    match s.stack with
    | ⟨preemptedPriority, fromIT2, some event⟩ :: below =>
      if s.nesting = 0 then
        some { s with
          masked := true
          stack := ⟨preemptedPriority, fromIT2, none⟩ :: below
          finished := s.finished ++ [event] }
      else none
    | _ => none
  | .schedule =>
    match s.stack with
    | ⟨preemptedPriority, fromIT2, none⟩ :: below =>
      some (s.schedule ⟨preemptedPriority, fromIT2, none⟩ below)
    | _ => none
  | .enterLoop => if s.stack = [] ∧ s.nesting = 0 then s.enterLoop else none

end HybridScheduler

/-- Posting, masking and serving interrupts, IT2, the end of a reaction, and the two loops. -/
theorem hybrid_step_cases {priority : E → Int} {s t : HybridScheduler E} {a : HybridAction E}
    (h : s.step priority a = some t) :
    (∃ event, a = .schedEvent event ∧ s.inUserCode = true ∧ 0 ≤ priority event ∧
      priority event < maxSchedPriority ∧ t = s.schedEvent priority event) ∨
    (∃ masked nesting, (s.inUserCode = true ∨ s.masked = false) ∧ s.nesting ≤ nesting + 1 ∧
      t = { s with masked := masked, nesting := nesting }) ∨
    (s.masked = false ∧ s.nesting = 0 ∧ t = s.takeIT2) ∨
    (∃ preemptedPriority fromIT2 event below,
      s.stack = ⟨preemptedPriority, fromIT2, some event⟩ :: below ∧ s.nesting = 0 ∧
      t = { s with
        masked := true
        stack := ⟨preemptedPriority, fromIT2, none⟩ :: below
        finished := s.finished ++ [event] }) ∨
    (∃ preemptedPriority fromIT2 below, a = .schedule ∧
      s.stack = ⟨preemptedPriority, fromIT2, none⟩ :: below ∧
      t = s.schedule ⟨preemptedPriority, fromIT2, none⟩ below) ∨
    (s.stack = [] ∧ s.nesting = 0 ∧ s.enterLoop = some t) := by
  cases a with
  | schedEvent event =>
    obtain ⟨⟨huser, -, hlow, hhigh⟩, heq⟩ := Option.ite_none_right_eq_some.mp h
    exact .inl ⟨event, rfl, huser, hlow, hhigh, (Option.some.inj heq).symm⟩
  | mask =>
    obtain ⟨huser, heq⟩ := Option.ite_none_right_eq_some.mp h
    exact .inr (.inl ⟨true, _, .inl huser, Nat.le_succ _, (Option.some.inj heq).symm⟩)
  | unmask =>
    obtain ⟨huser, heq⟩ := Option.ite_none_right_eq_some.mp h
    exact .inr (.inl ⟨false, _, .inl huser, Nat.le_succ _, (Option.some.inj heq).symm⟩)
  | interrupt =>
    obtain ⟨hmasked, heq⟩ := Option.ite_none_right_eq_some.mp h
    exact .inr (.inl ⟨_, s.nesting + 1, .inr hmasked, by omega, (Option.some.inj heq).symm⟩)
  | interruptReturn =>
    obtain ⟨⟨-, hmasked⟩, heq⟩ := Option.ite_none_right_eq_some.mp h
    exact .inr (.inl ⟨_, s.nesting - 1, .inr hmasked, by omega, (Option.some.inj heq).symm⟩)
  | takeIT2 =>
    obtain ⟨⟨-, hmasked, hnesting⟩, heq⟩ := Option.ite_none_right_eq_some.mp h
    exact .inr (.inr (.inl ⟨hmasked, hnesting, (Option.some.inj heq).symm⟩))
  | reactionReturn =>
    unfold HybridScheduler.step at h
    dsimp only at h
    split at h
    · next preemptedPriority fromIT2 event below hstack =>
      obtain ⟨hnesting, heq⟩ := Option.ite_none_right_eq_some.mp h
      exact .inr (.inr (.inr (.inl ⟨preemptedPriority, fromIT2, event, below, hstack, hnesting,
        (Option.some.inj heq).symm⟩)))
    · cases h
  | schedule =>
    unfold HybridScheduler.step at h
    dsimp only at h
    split at h
    · next preemptedPriority fromIT2 below hstack =>
      exact .inr (.inr (.inr (.inr (.inl ⟨preemptedPriority, fromIT2, below, rfl, hstack,
        (Option.some.inj h).symm⟩))))
    · cases h
  | enterLoop =>
    obtain ⟨⟨hstack, hnesting⟩, henter⟩ := Option.ite_none_right_eq_some.mp h
    exact .inr (.inr (.inr (.inr (.inr ⟨hstack, hnesting, henter⟩))))

/-- A step of the loops takes an event, goes down a priority, or returns. -/
theorem schedule_cases (s : HybridScheduler E) (activation : Activation E)
    (below : List (Activation E)) :
    (∃ event rest, activation.preemptedPriority < s.activePriority ∧
      s.queue s.activePriority = event :: rest ∧
      s.schedule activation below = s.dispatch activation below event rest) ∨
    (activation.preemptedPriority < s.activePriority ∧ s.queue s.activePriority = [] ∧
      s.schedule activation below = { s with activePriority := s.activePriority - 1 }) ∨
    (s.activePriority ≤ activation.preemptedPriority ∧
      ∃ masked enter, (enter = s.enter ∨ enter = .toSleep) ∧
        s.schedule activation below =
          { s with stack := below, masked := masked, enter := enter }) := by
  unfold HybridScheduler.schedule
  split_ifs with hactive
  · split
    · next event rest hqueue => exact .inl ⟨event, rest, hactive, hqueue, rfl⟩
    · next hqueue => exact .inr (.inl ⟨hactive, hqueue, rfl⟩)
  · refine .inr (.inr ⟨Int.not_lt.mp hactive, ?_⟩)
    unfold HybridScheduler.returnSchedule
    split_ifs
    · exact ⟨false, s.enter, .inl rfl, rfl⟩
    · exact ⟨s.masked, .toSleep, .inr rfl, rfl⟩

theorem enter_loop_keeps {s t : HybridScheduler E} (h : s.enterLoop = some t) :
    t.queue = s.queue ∧ t.nesting = s.nesting := by
  unfold HybridScheduler.enterLoop at h
  split at h
  · cases h
    exact ⟨rfl, rfl⟩
  · cases h
    exact ⟨rfl, rfl⟩
  · cases h
  · cases h
    exact ⟨rfl, rfl⟩
  · cases h
    exact ⟨rfl, rfl⟩

/-- One step leaves at most one interrupt. -/
theorem nesting_le_succ {priority : E → Int} {s t : HybridScheduler E} {a : HybridAction E}
    (h : s.step priority a = some t) : s.nesting ≤ t.nesting + 1 := by
  rcases hybrid_step_cases h with ⟨event, -, -, -, -, rfl⟩ | ⟨masked, nesting, -, hle, rfl⟩ |
    ⟨-, -, rfl⟩ | ⟨preemptedPriority, fromIT2, event, below, -, -, rfl⟩ |
    ⟨preemptedPriority, fromIT2, below, -, -, rfl⟩ | ⟨-, -, henter⟩
  · unfold HybridScheduler.schedEvent
    split_ifs
    · exact Nat.le_succ _
    · exact Nat.le_succ _
  · exact hle
  · exact Nat.le_succ _
  · exact Nat.le_succ _
  · rcases schedule_cases s ⟨preemptedPriority, fromIT2, none⟩ below with
      ⟨event, rest, -, -, heq⟩ | ⟨-, -, heq⟩ | ⟨-, masked, enter, -, heq⟩
    · rw [heq]
      exact Nat.le_succ _
    · rw [heq]
      exact Nat.le_succ _
    · rw [heq]
      exact Nat.le_succ _
  · rw [(enter_loop_keeps henter).2]
    exact Nat.le_succ _

/-- The priorities of the activations that are in a reaction, innermost first; `active` is that of
the innermost activation. -/
def runningPriorities : Int → List (Activation E) → List Int
  | _, [] => []
  | active, activation :: below =>
    (if activation.running.isSome then [active] else []) ++
      runningPriorities activation.preemptedPriority below

/-- The activations below an interrupted point: each is in a reaction above what it preempted. -/
def Interrupted : Int → List (Activation E) → Prop
  | active, [] => active = -1
  | active, activation :: below =>
    activation.running.isSome = true ∧ activation.preemptedPriority < active ∧
      Interrupted activation.preemptedPriority below

/-- The innermost activation may be between two reactions, and at the priority it preempted just
before it returns. -/
def Nested (active : Int) : List (Activation E) → Prop
  | [] => active = -1
  | activation :: below =>
    activation.preemptedPriority ≤ active ∧
      (activation.running.isSome = true → activation.preemptedPriority < active) ∧
      Interrupted activation.preemptedPriority below

/-- Between reactions, and where `enter` calls `Schedule`, the interrupts are masked. -/
structure AtomicLoop (s : HybridScheduler E) : Prop where
  between : ∀ activation below, s.stack = activation :: below → activation.running = none →
    s.masked = true ∧ s.nesting = 0
  looping : s.enter = .looping → s.masked = true ∧ s.nesting = 0 ∧ s.stack = []

/-- An event queued above the active priority has switching under way and IT2 requested. -/
structure SwitchInv (s : HybridScheduler E) : Prop where
  requested : s.switchOnGoing = true → s.it2 = true
  above : ∀ p, s.activePriority < p → s.queue p ≠ [] → s.switchOnGoing = true
  range : ∀ p, s.queue p ≠ [] → 0 ≤ p ∧ p < maxSchedPriority
  top : s.activePriority ≤ 2
  nested : Nested s.activePriority s.stack
  atomicLoop : AtomicLoop s

/-- Each list is what was posted at its priority and not started, in posting order. -/
structure PostedInv [DecidableEq E] (priority : E → Int) (s : HybridScheduler E) : Prop where
  order : ∀ p, s.posted.filter (fun event => priority event = p) =
    s.started.filter (fun event => priority event = p) ++ s.queue p
  once : s.started.Perm (s.finished ++ s.stack.filterMap Activation.running)

section Invariant
variable {priority : E → Int} {s t : HybridScheduler E}

theorem interrupted_pairwise {active : Int} {stack : List (Activation E)}
    (h : Interrupted active stack) : (runningPriorities active stack).Pairwise (· > ·) ∧
      ∀ p ∈ runningPriorities active stack, p ≤ active := by
  induction stack generalizing active with
  | nil => exact ⟨List.Pairwise.nil, fun p hp => by cases hp⟩
  | cons activation below ih =>
    obtain ⟨hrunning, hlt, hbelow⟩ := h
    obtain ⟨hpairwise, hbound⟩ := ih hbelow
    simp only [runningPriorities, hrunning, if_true, List.singleton_append, List.pairwise_cons,
      List.mem_cons]
    refine ⟨⟨?_, hpairwise⟩, ?_⟩
    · intro p hp
      exact Int.lt_of_le_of_lt (hbound p hp) hlt
    · rintro p (rfl | hp)
      · exact Int.le_refl _
      · exact Int.le_trans (hbound p hp) (Int.le_of_lt hlt)

theorem nested_pairwise {active : Int} {stack : List (Activation E)} (h : Nested active stack) :
    (runningPriorities active stack).Pairwise (· > ·) := by
  cases stack with
  | nil => exact List.Pairwise.nil
  | cons activation below =>
    obtain ⟨-, hstrict, hbelow⟩ := h
    obtain ⟨hpairwise, hbound⟩ := interrupted_pairwise hbelow
    unfold runningPriorities
    split_ifs with hrunning
    · rw [List.singleton_append, List.pairwise_cons]
      exact ⟨fun p hp => Int.lt_of_le_of_lt (hbound p hp) (hstrict hrunning), hpairwise⟩
    · exact hpairwise

/-- Where an interrupt can be taken every activation is in a reaction. -/
theorem nested_interrupted (h : SwitchInv s) (hmasked : s.masked = false) :
    Interrupted s.activePriority s.stack := by
  have hnested := h.nested
  cases hstack : s.stack with
  | nil =>
    rw [hstack] at hnested
    exact hnested
  | cons activation below =>
    rw [hstack] at hnested
    obtain ⟨-, hstrict, hbelow⟩ := hnested
    cases hrunning : activation.running with
    | none =>
      have hloop := h.atomicLoop.between activation below hstack hrunning
      rw [hmasked] at hloop
      cases hloop.1
    | some event =>
      have hsome : activation.running.isSome = true := by rw [hrunning]; rfl
      exact ⟨hsome, hstrict hsome, hbelow⟩

theorem in_user_code_not_looping (h : SwitchInv s) (huser : s.inUserCode = true) :
    s.enter ≠ .looping := by
  intro henter
  obtain ⟨-, hnesting, hstack⟩ := h.atomicLoop.looping henter
  unfold HybridScheduler.inUserCode at huser
  rw [hnesting, hstack, henter] at huser
  cases huser

/-- User code runs, so the innermost activation is in a reaction. -/
theorem in_user_code_loop (h : SwitchInv s) (huser : s.inUserCode = true)
    (hstack : t.stack = s.stack) (henter : t.enter = s.enter) : AtomicLoop t := by
  constructor
  · intro activation below hcons hrunning
    rw [hstack] at hcons
    obtain ⟨-, hnest⟩ := h.atomicLoop.between activation below hcons hrunning
    unfold HybridScheduler.inUserCode at huser
    rw [hnest, hcons] at huser
    change (false || activation.running.isSome) = true at huser
    rw [hrunning] at huser
    cases huser
  · intro hlooping
    exact absurd (henter.symm.trans hlooping) (in_user_code_not_looping h huser)

/-- Where an interrupt can be taken neither loop is at work. -/
theorem unmasked_loop (h : SwitchInv s) (hmasked : s.masked = false) (hstack : t.stack = s.stack)
    (henter : t.enter = s.enter) : AtomicLoop t := by
  constructor
  · intro activation below hcons hrunning
    rw [hstack] at hcons
    have hloop := (h.atomicLoop.between activation below hcons hrunning).1
    rw [hmasked] at hloop
    cases hloop
  · intro hlooping
    have hloop := (h.atomicLoop.looping (henter.symm.trans hlooping)).1
    rw [hmasked] at hloop
    cases hloop

theorem switch_sched_event (h : SwitchInv s) {event : E} (huser : s.inUserCode = true)
    (hlow : 0 ≤ priority event) (hhigh : priority event < maxSchedPriority) :
    SwitchInv (s.schedEvent priority event) := by
  have hrange : ∀ p, Function.update s.queue (priority event)
      (s.queue (priority event) ++ [event]) p ≠ [] → 0 ≤ p ∧ p < maxSchedPriority := by
    intro p hp
    by_cases heq : p = priority event
    · subst heq
      exact ⟨hlow, hhigh⟩
    · rw [Function.update_of_ne heq] at hp
      exact h.range p hp
  unfold HybridScheduler.schedEvent
  split_ifs with hswitch
  · exact ⟨fun _ => rfl, fun _ _ _ => rfl, hrange, h.top, h.nested,
      in_user_code_loop h huser rfl rfl⟩
  · refine ⟨h.requested, ?_, hrange, h.top, h.nested, in_user_code_loop h huser rfl rfl⟩
    intro p hp hqueue
    by_cases heq : p = priority event
    · -- The event is above the active priority, so switching was under way before.
      by_contra hflag
      exact hswitch ⟨heq ▸ hp, Bool.eq_false_iff.mpr hflag⟩
    · change Function.update s.queue _ _ p ≠ [] at hqueue
      rw [Function.update_of_ne heq] at hqueue
      exact h.above p hp hqueue

/-- `Schedule` starts at the highest priority, so that nothing is queued above. -/
theorem switch_call_schedule {fromIT2 : Bool} {stack : List (Activation E)} {enter : EnterPc}
    {it2 : Bool} (h : SwitchInv s) (hnesting : s.nesting = 0)
    (hstack : Interrupted s.activePriority s.stack) (henter : enter ≠ .looping)
    (hcons : stack = ⟨s.activePriority, fromIT2, none⟩ :: s.stack) :
    SwitchInv { s with
      switchOnGoing := false
      it2 := it2
      masked := true
      activePriority := 2
      stack := stack
      enter := enter } := by
  subst hcons
  refine ⟨?_, ?_, h.range, Int.le_refl _, ⟨h.top, ?_, hstack⟩, ?_, ?_⟩
  · intro hflag
    cases hflag
  · intro p hp hqueue
    have hbelow := (h.range p hqueue).2
    have habove : 2 < p := hp
    unfold maxSchedPriority at hbelow
    omega
  · intro hrunning
    cases hrunning
  · intro activation below hcons hrunning
    exact ⟨rfl, hnesting⟩
  · intro hlooping
    exact absurd hlooping henter

theorem switch_take_it2 (h : SwitchInv s) (hmasked : s.masked = false) (hnesting : s.nesting = 0) :
    SwitchInv s.takeIT2 := by
  have hstack := nested_interrupted h hmasked
  have henter : s.enter ≠ .looping := by
    intro henter
    have hloop := (h.atomicLoop.looping henter).1
    rw [hmasked] at hloop
    cases hloop
  exact @switch_call_schedule E s true _ s.enter false h hnesting hstack henter rfl

theorem switch_reaction_return (h : SwitchInv s) {preemptedPriority : Int} {fromIT2 : Bool}
    {event : E} {below : List (Activation E)}
    (hstack : s.stack = ⟨preemptedPriority, fromIT2, some event⟩ :: below)
    (hnesting : s.nesting = 0) :
    SwitchInv { s with
      masked := true
      stack := ⟨preemptedPriority, fromIT2, none⟩ :: below
      finished := s.finished ++ [event] } := by
  have hnested := h.nested
  rw [hstack] at hnested
  obtain ⟨hle, -, hbelow⟩ := hnested
  refine ⟨h.requested, h.above, h.range, h.top, ⟨hle, ?_, hbelow⟩, ?_, ?_⟩
  · intro hrunning
    cases hrunning
  · intro activation rest hcons hrunning
    exact ⟨rfl, hnesting⟩
  · intro hlooping
    have hempty := (h.atomicLoop.looping hlooping).2.2
    rw [hstack] at hempty
    cases hempty

/-- The list of the active priority gets shorter, those above are as they were. -/
theorem switch_dispatch (h : SwitchInv s) {activation : Activation E}
    {below : List (Activation E)} {event : E} {rest : List E}
    (hstack : s.stack = activation :: below)
    (hactive : activation.preemptedPriority < s.activePriority)
    (hqueue : s.queue s.activePriority = event :: rest) :
    SwitchInv (s.dispatch activation below event rest) := by
  have hnested := h.nested
  rw [hstack] at hnested
  obtain ⟨hle, -, hbelow⟩ := hnested
  refine ⟨h.requested, ?_, ?_, h.top, ⟨hle, fun _ => hactive, hbelow⟩, ?_, ?_⟩
  · intro p hp hne
    have hp' : s.activePriority < p := hp
    apply h.above p hp'
    change Function.update s.queue s.activePriority rest p ≠ [] at hne
    rwa [Function.update_of_ne (Int.ne_of_gt hp')] at hne
  · intro p hne
    change Function.update s.queue s.activePriority rest p ≠ [] at hne
    by_cases heq : p = s.activePriority
    · subst heq
      apply h.range
      rw [hqueue]
      exact List.cons_ne_nil event rest
    · rw [Function.update_of_ne heq] at hne
      exact h.range p hne
  · intro other rest' hcons hnone
    cases hcons
    cases hnone
  · intro hlooping
    have hempty := (h.atomicLoop.looping hlooping).2.2
    rw [hstack] at hempty
    cases hempty

/-- Going down a priority leaves an empty list above. -/
theorem switch_lower (h : SwitchInv s) {activation : Activation E} {below : List (Activation E)}
    (hstack : s.stack = activation :: below) (hrunning : activation.running = none)
    (hactive : activation.preemptedPriority < s.activePriority)
    (hqueue : s.queue s.activePriority = []) :
    SwitchInv { s with activePriority := s.activePriority - 1 } := by
  have hnested := h.nested
  have htop := h.top
  rw [hstack] at hnested
  obtain ⟨-, -, hbelow⟩ := hnested
  refine ⟨h.requested, ?_, h.range, ?_, ?_, h.atomicLoop.between, h.atomicLoop.looping⟩
  · intro p hp hne
    have hlower : s.activePriority - 1 < p := hp
    have hother : p ≠ s.activePriority := by
      rintro rfl
      exact hne hqueue
    apply h.above p _ hne
    omega
  · show s.activePriority - 1 ≤ 2
    omega
  · show Nested (s.activePriority - 1) s.stack
    rw [hstack]
    refine ⟨by omega, ?_, hbelow⟩
    rw [hrunning]
    intro hsome
    cases hsome

/-- `Schedule` returns at the priority it has preempted. -/
theorem switch_return (h : SwitchInv s) {activation : Activation E} {below : List (Activation E)}
    {masked : Bool} {enter : EnterPc} (hstack : s.stack = activation :: below)
    (hactive : s.activePriority = activation.preemptedPriority)
    (henter : enter = s.enter ∨ enter = .toSleep) :
    SwitchInv { s with stack := below, masked := masked, enter := enter } := by
  have hnested := h.nested
  rw [hstack] at hnested
  obtain ⟨-, -, hbelow⟩ := hnested
  refine ⟨h.requested, h.above, h.range, h.top, ?_, ?_, ?_⟩
  · show Nested s.activePriority below
    rw [hactive]
    cases below with
    | nil => exact hbelow
    | cons next rest => exact ⟨Int.le_of_lt hbelow.2.1, fun _ => hbelow.2.1, hbelow.2.2⟩
  · rintro other rest rfl hnone
    have hsome : other.running.isSome = true := hbelow.1
    rw [hnone] at hsome
    cases hsome
  · intro hlooping
    rcases henter with heq | heq
    · have hempty := (h.atomicLoop.looping (heq.symm.trans hlooping)).2.2
      rw [hstack] at hempty
      cases hempty
    · cases heq.symm.trans hlooping

theorem preempted_le (h : SwitchInv s) {activation : Activation E} {below : List (Activation E)}
    (hstack : s.stack = activation :: below) :
    activation.preemptedPriority ≤ s.activePriority := by
  have hnested := h.nested
  rw [hstack] at hnested
  exact hnested.1

theorem switch_schedule (h : SwitchInv s) {activation : Activation E}
    {below : List (Activation E)} (hstack : s.stack = activation :: below)
    (hrunning : activation.running = none) : SwitchInv (s.schedule activation below) := by
  rcases schedule_cases s activation below with ⟨event, rest, hactive, hqueue, heq⟩ |
    ⟨hactive, hqueue, heq⟩ | ⟨hactive, masked, enter, henter, heq⟩
  · rw [heq]
    exact switch_dispatch h hstack hactive hqueue
  · rw [heq]
    exact switch_lower h hstack hrunning hactive hqueue
  · rw [heq]
    exact switch_return h hstack (Int.le_antisymm hactive (preempted_le h hstack)) henter

theorem switch_enter_loop (h : SwitchInv s) (hstack : s.stack = []) (hnesting : s.nesting = 0)
    (hstep : s.enterLoop = some t) : SwitchInv t := by
  have hactive : s.activePriority = -1 := by
    have hnested := h.nested
    rw [hstack] at hnested
    exact hnested
  have hbetween : ∀ activation below, s.stack = activation :: below → False := by
    intro activation below hcons
    rw [hstack] at hcons
    cases hcons
  unfold HybridScheduler.enterLoop at hstep
  split at hstep
  · cases hstep
    refine ⟨h.requested, hactive ▸ h.above, h.range, ?_, ?_, ?_, ?_⟩
    · show (-1 : Int) ≤ 2
      decide
    · show Nested (-1) s.stack
      rw [hstack]
      rfl
    · intro activation below hcons
      exact absurd hcons (hbetween activation below)
    · intro hlooping
      exact ⟨rfl, hnesting, hstack⟩
  · next henter =>
    cases hstep
    have hmasked := (h.atomicLoop.looping henter).1
    have hcalled :
        SwitchInv { s.callSchedule false with masked := true, enter := .inSchedule } := by
      apply switch_call_schedule h hnesting _ (by decide) rfl
      rw [hstack]
      exact hactive
    have hsame : { s.callSchedule false with masked := true, enter := .inSchedule } =
        { s.callSchedule false with enter := .inSchedule } := by
      rw [← hmasked]
      rfl
    rwa [hsame] at hcalled
  · cases hstep
  · cases hstep
    refine ⟨h.requested, h.above, h.range, h.top, h.nested, ?_, ?_⟩
    · intro activation below hcons
      exact absurd hcons (hbetween activation below)
    · intro hlooping
      cases hlooping
  · cases hstep
    refine ⟨h.requested, h.above, h.range, h.top, h.nested, ?_, ?_⟩
    · intro activation below hcons
      exact absurd hcons (hbetween activation below)
    · intro hlooping
      exact ⟨rfl, hnesting, hstack⟩

theorem switch_inv_step {a : HybridAction E} (h : SwitchInv s)
    (hstep : s.step priority a = some t) : SwitchInv t := by
  rcases hybrid_step_cases hstep with ⟨event, -, huser, hlow, hhigh, rfl⟩ |
    ⟨masked, nesting, huser | hmasked, -, rfl⟩ | ⟨hmasked, hnesting, rfl⟩ |
    ⟨preemptedPriority, fromIT2, event, below, hstack, hnesting, rfl⟩ |
    ⟨preemptedPriority, fromIT2, below, -, hstack, rfl⟩ | ⟨hstack, hnesting, henter⟩
  · exact switch_sched_event h huser hlow hhigh
  · exact ⟨h.requested, h.above, h.range, h.top, h.nested, in_user_code_loop h huser rfl rfl⟩
  · exact ⟨h.requested, h.above, h.range, h.top, h.nested, unmasked_loop h hmasked rfl rfl⟩
  · exact switch_take_it2 h hmasked hnesting
  · exact switch_reaction_return h hstack hnesting
  · exact switch_schedule h hstack rfl
  · exact switch_enter_loop h hstack hnesting henter

variable [DecidableEq E]

theorem PostedInv.priority_eq (h : PostedInv priority s) {p : Int} {event : E}
    (hmem : event ∈ s.queue p) : priority event = p := by
  have hin : event ∈ s.posted.filter (fun event => priority event = p) := by
    rw [h.order p]
    exact List.mem_append_right _ hmem
  exact of_decide_eq_true (List.mem_filter.mp hin).2

/-- A step that posts and starts nothing. -/
theorem PostedInv.quiet (h : PostedInv priority s) (hqueue : t.queue = s.queue)
    (hposted : t.posted = s.posted) (hstarted : t.started = s.started)
    (hfinished : t.finished = s.finished)
    (hrunning : t.stack.filterMap Activation.running = s.stack.filterMap Activation.running) :
    PostedInv priority t := by
  constructor
  · intro p
    rw [hposted, hstarted, hqueue]
    exact h.order p
  · rw [hstarted, hfinished, hrunning]
    exact h.once

theorem posted_sched_event (h : PostedInv priority s) (event : E) :
    PostedInv priority (s.schedEvent priority event) := by
  have horder : ∀ p, (s.posted ++ [event]).filter (fun event => priority event = p) =
      s.started.filter (fun event => priority event = p) ++
        Function.update s.queue (priority event) (s.queue (priority event) ++ [event]) p := by
    intro p
    rw [List.filter_append, h.order p, List.append_assoc]
    congr 1
    by_cases heq : p = priority event
    · subst heq
      rw [Function.update_self, List.filter_singleton, decide_eq_true rfl]
      rfl
    · rw [Function.update_of_ne heq, List.filter_singleton, decide_eq_false (Ne.symm heq)]
      exact List.append_nil _
  unfold HybridScheduler.schedEvent
  split_ifs
  · exact ⟨horder, h.once⟩
  · exact ⟨horder, h.once⟩

theorem posted_dispatch (h : PostedInv priority s) {activation : Activation E}
    {below : List (Activation E)} {event : E} {rest : List E}
    (hstack : s.stack = activation :: below) (hrunning : activation.running = none)
    (hqueue : s.queue s.activePriority = event :: rest) :
    PostedInv priority (s.dispatch activation below event rest) := by
  have hpriority : priority event = s.activePriority :=
    h.priority_eq (hqueue ▸ List.mem_cons_self ..)
  constructor
  · intro p
    show s.posted.filter _ = (s.started ++ [event]).filter _ ++
      Function.update s.queue s.activePriority rest p
    rw [h.order p, List.filter_append, List.append_assoc, List.filter_singleton, hpriority]
    congr 1
    by_cases heq : p = s.activePriority
    · subst heq
      rw [Function.update_self, decide_eq_true rfl, hqueue]
      rfl
    · rw [Function.update_of_ne heq, decide_eq_false (Ne.symm heq)]
      rfl
  · show (s.started ++ [event]).Perm (s.finished ++ event :: below.filterMap Activation.running)
    have honce := h.once
    rw [hstack, List.filterMap_cons_none hrunning] at honce
    have hfront : (s.started ++ [event]).Perm (event :: s.started) :=
      List.perm_append_singleton event s.started
    exact hfront.trans ((honce.cons event).trans List.perm_middle.symm)

theorem posted_reaction_return (h : PostedInv priority s) {preemptedPriority : Int}
    {fromIT2 : Bool} {event : E} {below : List (Activation E)}
    (hstack : s.stack = ⟨preemptedPriority, fromIT2, some event⟩ :: below) :
    PostedInv priority { s with
      masked := true
      stack := ⟨preemptedPriority, fromIT2, none⟩ :: below
      finished := s.finished ++ [event] } := by
  refine ⟨h.order, ?_⟩
  show s.started.Perm ((s.finished ++ [event]) ++ below.filterMap Activation.running)
  have honce := h.once
  rw [hstack] at honce
  rw [List.append_assoc]
  exact honce

theorem posted_schedule (h : PostedInv priority s) {activation : Activation E}
    {below : List (Activation E)} (hstack : s.stack = activation :: below)
    (hrunning : activation.running = none) :
    PostedInv priority (s.schedule activation below) := by
  have hbelow : below.filterMap Activation.running = s.stack.filterMap Activation.running := by
    rw [hstack, List.filterMap_cons_none hrunning]
  rcases schedule_cases s activation below with ⟨event, rest, -, hqueue, heq⟩ |
    ⟨-, -, heq⟩ | ⟨-, masked, enter, -, heq⟩
  · rw [heq]
    exact posted_dispatch h hstack hrunning hqueue
  · rw [heq]
    exact h.quiet rfl rfl rfl rfl rfl
  · rw [heq]
    exact h.quiet rfl rfl rfl rfl hbelow

theorem posted_enter_loop (h : PostedInv priority s) (hstep : s.enterLoop = some t) :
    PostedInv priority t := by
  unfold HybridScheduler.enterLoop at hstep
  split at hstep
  · cases hstep
    exact h.quiet rfl rfl rfl rfl rfl
  · cases hstep
    exact h.quiet rfl rfl rfl rfl rfl
  · cases hstep
  · cases hstep
    exact h.quiet rfl rfl rfl rfl rfl
  · cases hstep
    exact h.quiet rfl rfl rfl rfl rfl

theorem posted_inv_step {a : HybridAction E} (h : PostedInv priority s)
    (hstep : s.step priority a = some t) : PostedInv priority t := by
  rcases hybrid_step_cases hstep with ⟨event, -, -, -, -, rfl⟩ | ⟨masked, nesting, -, -, rfl⟩ |
    ⟨-, -, rfl⟩ | ⟨preemptedPriority, fromIT2, event, below, hstack, -, rfl⟩ |
    ⟨preemptedPriority, fromIT2, below, -, hstack, rfl⟩ | ⟨-, -, henter⟩
  · exact posted_sched_event h event
  · exact h.quiet rfl rfl rfl rfl rfl
  · exact h.quiet rfl rfl rfl rfl rfl
  · exact posted_reaction_return h hstack
  · exact posted_schedule h hstack rfl
  · exact posted_enter_loop h henter

omit [DecidableEq E] in
theorem switch_inv_reset : SwitchInv (.reset E) := by
  refine ⟨?_, ?_, ?_, ?_, rfl, ?_, ?_⟩
  · intro hflag
    cases hflag
  · intro p hp hne
    exact absurd rfl hne
  · intro p hne
    exact absurd rfl hne
  · show (-1 : Int) ≤ 2
    decide
  · intro activation below hcons
    cases hcons
  · intro hlooping
    cases hlooping

theorem hybrid_inv_run {as : List (HybridAction E)}
    (hrun : run (HybridScheduler.step priority) (.reset E) as = some s) :
    SwitchInv s ∧ PostedInv priority s := by
  refine run_induction (P := fun s => SwitchInv s ∧ PostedInv priority s) ?_ ?_ hrun
  · rintro s a t ⟨hswitch, hposted⟩ hstep
    exact ⟨switch_inv_step hswitch hstep, posted_inv_step hposted hstep⟩
  · exact ⟨switch_inv_reset, fun _ => rfl, List.Perm.refl []⟩

omit [DecidableEq E] in
theorem switch_requested (h : SwitchInv s) {p : Int} (hp : s.activePriority < p)
    (hqueue : s.queue p ≠ []) : s.switchOnGoing = true ∧ s.it2 = true := by
  have hflag := h.above p hp hqueue
  exact ⟨hflag, h.requested hflag⟩

omit [DecidableEq E] in
theorem schedule_returns (h : SwitchInv s) (hstep : s.step priority .schedule = some t)
    (hreturn : t.stack.length < s.stack.length) :
    ∃ activation, s.stack = activation :: t.stack ∧
      t.activePriority = activation.preemptedPriority := by
  unfold HybridScheduler.step at hstep
  dsimp only at hstep
  split at hstep
  · next preemptedPriority fromIT2 below hstack =>
    cases hstep
    rcases schedule_cases s ⟨preemptedPriority, fromIT2, none⟩ below with
      ⟨event, rest, -, -, heq⟩ | ⟨-, -, heq⟩ | ⟨hactive, masked, enter, -, heq⟩
    · rw [heq, hstack] at hreturn
      exact absurd hreturn (Nat.lt_irrefl _)
    · rw [heq] at hreturn
      exact absurd hreturn (Nat.lt_irrefl _)
    · rw [heq]
      exact ⟨_, hstack, Int.le_antisymm hactive (preempted_le h hstack)⟩
  · cases hstep

omit [DecidableEq E] in
theorem base_level (h : SwitchInv s) (hstack : s.stack = []) :
    s.activePriority = -1 := by
  have hnested := h.nested
  rw [hstack] at hnested
  exact hnested

/-- An event is posted only while it is in no list. -/
def PostsFresh (s : HybridScheduler E) (a : HybridAction E) : Prop :=
  ∀ event, a = .schedEvent event → ∀ p, event ∉ s.queue p

/-- The linked lists follow every step: `LowSchedEvent` where an event is posted, and the loop head
of `RawSchedule` where one is taken. -/
theorem event_lists_step {m : EventLists E} {a : HybridAction E} (hm : HoldsEvents m s.queue)
    (hnew : PostsFresh s a) (hstep : s.step priority a = some t) :
    ∃ m', HoldsEvents m' t.queue ∧
      (m' = m ∨ (∃ event, lowSchedEvent m event (priority event) = some m') ∨
        ∃ event, takeFirstEvent m s.activePriority = some (event, m')) := by
  rcases hybrid_step_cases hstep with ⟨event, ha, -, -, -, rfl⟩ | ⟨masked, nesting, -, -, rfl⟩ |
    ⟨-, -, rfl⟩ | ⟨preemptedPriority, fromIT2, event, below, -, -, rfl⟩ |
    ⟨preemptedPriority, fromIT2, below, -, -, rfl⟩ | ⟨-, -, henter⟩
  · obtain ⟨m', hlists, hm'⟩ := low_sched_event_holds (priority event) hm (hnew event ha)
    refine ⟨m', ?_, .inr (.inl ⟨event, hlists⟩)⟩
    unfold HybridScheduler.schedEvent
    split_ifs
    · exact hm'
    · exact hm'
  · exact ⟨m, hm, .inl rfl⟩
  · exact ⟨m, hm, .inl rfl⟩
  · exact ⟨m, hm, .inl rfl⟩
  · rcases schedule_cases s ⟨preemptedPriority, fromIT2, none⟩ below with
      ⟨event, rest, -, hqueue, heq⟩ | ⟨-, -, heq⟩ | ⟨-, masked, enter, -, heq⟩
    · obtain ⟨m', hlists, hm'⟩ := take_first_event_holds s.activePriority hm hqueue
      rw [heq]
      exact ⟨m', hm', .inr (.inr ⟨event, hlists⟩)⟩
    · rw [heq]
      exact ⟨m, hm, .inl rfl⟩
    · rw [heq]
      exact ⟨m, hm, .inl rfl⟩
  · rw [(enter_loop_keeps henter).1]
    exact ⟨m, hm, .inl rfl⟩

/-- In a run that posts an event only while it is in no list, the links are always in order. -/
theorem event_lists_run {as : List (HybridAction E)}
    (hfresh : Meets (HybridScheduler.step priority) PostsFresh (.reset E) as)
    (hrun : run (HybridScheduler.step priority) (.reset E) as = some s) :
    ∃ m : EventLists E, HoldsEvents m s.queue := by
  refine run_induction_of_meets (P := fun s => ∃ m : EventLists E, HoldsEvents m s.queue)
    ?_ ?_ hfresh hrun
  · rintro s a t ⟨m, hm⟩ hnew hstep
    obtain ⟨m', hm', -⟩ := event_lists_step hm hnew hstep
    exact ⟨m', hm'⟩
  · refine ⟨⟨fun _ => none, fun _ => none, fun _ => none⟩, fun p => rfl, ?_, ?_, ?_⟩
    · intro p x hx
      cases hx
    · intro p
      exact List.nodup_nil
    · intro p q x hx
      cases hx

/-- The idle loop is reached and an interrupt posts an event of priority 0, whose reaction is
started through IT2. -/
def sampleReaction : List (HybridAction Nat) :=
  [.enterLoop, .enterLoop, .schedule, .schedule, .schedule, .schedule, .enterLoop, .interrupt,
    .mask, .schedEvent 0, .unmask, .interruptReturn, .takeIT2, .schedule, .schedule, .schedule]

end Invariant

end Codinalte.Mpc
