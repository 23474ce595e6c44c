import Codinalte.Mpc.Communication

/-! Where each event of a pool is: in its free list, in the hands of IT11, in a scheduler queue, or
in the reaction that puts it back. -/

namespace Codinalte.Mpc
open Codinalte.Machine
variable {P : Type} [DecidableEq P] {cfg : ComsConfig P} {s t : CommandPath P}

/-- While IT11 runs no reaction is at the point of putting its event back. -/
structure LevelInv (cfg : ComsConfig P) (s : CommandPath P) : Prop where
  switching : SwitchInv s.cpu
  posting : PostedInv cfg.eventPriority s.cpu
  apart : s.it11 ≠ .outside → s.dispatched = none ∧ 0 < s.level ∧ s.level ≤ s.cpu.nesting

section Level

theorem level_loaded (cfg : ComsConfig P) : LevelInv cfg (.loaded cfg) where
  switching := switch_inv_reset
  posting := ⟨fun _ => rfl, List.Perm.refl []⟩
  apart := fun hne => absurd rfl hne

theorem LevelInv.onCpu (h : LevelInv cfg s) {action : HybridAction (CpuEvent P)}
    {cpu : HybridScheduler (CpuEvent P)}
    (hcpu : s.cpu.step cfg.eventPriority action = some cpu) :
    SwitchInv cpu ∧ PostedInv cfg.eventPriority cpu :=
  ⟨switch_inv_step h.switching hcpu, posted_inv_step h.posting hcpu⟩

omit [DecidableEq P] in
/-- The scheduler takes an event while no interrupt is being served. -/
theorem schedule_nesting (h : SwitchInv s.cpu) {cpu : HybridScheduler (CpuEvent P)}
    (hcpu : s.cpu.step cfg.eventPriority .schedule = some cpu) : s.cpu.nesting = 0 := by
  unfold HybridScheduler.step at hcpu
  dsimp only at hcpu
  split at hcpu
  · next preemptedPriority fromIT2 below hstack =>
    exact (h.atomicLoop.between _ below hstack rfl).2
  · cases hcpu

theorem it11_active (h : s.stepIt11 cfg = some t) : s.it11 ≠ .outside := by
  intro houtside
  unfold CommandPath.stepIt11 at h
  rw [houtside] at h
  cases h

theorem level_it11 (h : LevelInv cfg s) (hactive : s.it11 ≠ .outside)
    (hstep : It11Step cfg s t) : LevelInv cfg t := by
  have hapart := h.apart hactive
  have hkept : ∀ pc, LevelInv cfg { s with it11 := pc } := fun pc =>
    ⟨h.switching, h.posting, fun _ => hapart⟩
  have hmoved : ∀ (action : HybridAction (CpuEvent P)) (cpu : HybridScheduler (CpuEvent P)),
      (action = .mask ∨ action = .unmask ∨ ∃ event, action = .schedEvent event) →
      s.cpu.step cfg.eventPriority action = some cpu →
      SwitchInv cpu ∧ PostedInv cfg.eventPriority cpu ∧ s.level ≤ cpu.nesting := by
    intro action cpu haction hcpu
    obtain ⟨hswitch, hposted⟩ := h.onCpu hcpu
    refine ⟨hswitch, hposted, ?_⟩
    rw [cpu_same_nesting hcpu haction]
    exact hapart.2.2
  cases hstep with
  | found core hpc hcore => exact hkept _
  | quiet hpc hmis => exact hkept _
  | acknowledge core semId hpc => exact ⟨h.switching, h.posting, fun _ => hapart⟩
  | read core elem rest hpc hfifo => exact hkept _
  | drained core hpc hfifo => exact hkept _
  | again core hpc => exact hkept _
  | choose core elem slot rest hpc htop => exact hkept _
  | panic core elem cpu hpc htop hcpu =>
    obtain ⟨hswitch, hposted, hle⟩ := hmoved _ cpu (.inl rfl) hcpu
    exact ⟨hswitch, hposted, fun _ => ⟨hapart.1, hapart.2.1, hle⟩⟩
  | mask core elem event cpu hpc hcpu =>
    obtain ⟨hswitch, hposted, hle⟩ := hmoved _ cpu (.inl rfl) hcpu
    exact ⟨hswitch, hposted, fun _ => ⟨hapart.1, hapart.2.1, hle⟩⟩
  | fill core elem event hpc => exact ⟨h.switching, h.posting, fun _ => hapart⟩
  | post core elem event cpu hpc hcpu =>
    obtain ⟨hswitch, hposted, hle⟩ := hmoved _ cpu (.inr (.inr ⟨_, rfl⟩)) hcpu
    exact ⟨hswitch, hposted, fun _ => ⟨hapart.1, hapart.2.1, hle⟩⟩
  | unmask core elem cpu hpc hcpu =>
    obtain ⟨hswitch, hposted, hle⟩ := hmoved _ cpu (.inr (.inl rfl)) hcpu
    exact ⟨hswitch, hposted, fun _ => ⟨hapart.1, hapart.2.1, hle⟩⟩
  | acknowledgeRead core elem hpc => exact ⟨h.switching, h.posting, fun _ => hapart⟩
  | leave cpu hpc hcpu =>
    obtain ⟨hswitch, hposted⟩ := h.onCpu hcpu
    exact ⟨hswitch, hposted, fun hne => absurd rfl hne⟩

omit [DecidableEq P] in
theorem interrupt_nesting {cpu : HybridScheduler (CpuEvent P)}
    (hcpu : s.cpu.step cfg.eventPriority .interrupt = some cpu) :
    cpu.nesting = s.cpu.nesting + 1 := by
  obtain ⟨-, heq⟩ := Option.ite_none_right_eq_some.mp hcpu
  cases heq
  rfl

theorem level_step {a : CommandAction P} (h : LevelInv cfg s) (hstep : s.step cfg a = some t) :
    LevelInv cfg t := by
  rcases command_step_cases hstep with ⟨core, elem, -, -, rfl⟩ | ⟨core, -, rfl⟩ |
    ⟨action, cpu, -, -, hcpu, hplace, hdispatched, rfl⟩ | ⟨cpu, hdispatched, hplace, hcpu, rfl⟩ |
    ⟨event, hevent, rfl⟩ | ⟨cpu, hdispatched, houtside, hcpu, rfl⟩ | ⟨-, hit11⟩
  · exact ⟨h.switching, h.posting, h.apart⟩
  · exact ⟨h.switching, h.posting, h.apart⟩
  · obtain ⟨hswitch, hposted⟩ := h.onCpu hcpu
    refine ⟨hswitch, hposted, ?_⟩
    intro hactive
    obtain ⟨-, hpos, hle⟩ := h.apart hactive
    have hnesting := nesting_le_succ hcpu
    refine ⟨hdispatched, hpos, ?_⟩
    show s.level ≤ cpu.nesting
    rcases hplace with houtside | hlevel | rfl
    · exact absurd houtside hactive
    · omega
    · rw [interrupt_nesting hcpu]
      omega
  · obtain ⟨hswitch, hposted⟩ := h.onCpu hcpu
    refine ⟨hswitch, hposted, ?_⟩
    intro hactive
    obtain ⟨-, hpos, hle⟩ := h.apart hactive
    have hzero := schedule_nesting h.switching hcpu
    omega
  · refine ⟨h.switching, h.posting, ?_⟩
    intro hactive
    exact ⟨rfl, (h.apart hactive).2⟩
  · obtain ⟨hswitch, hposted⟩ := h.onCpu hcpu
    refine ⟨hswitch, hposted, fun _ => ⟨hdispatched, Nat.succ_pos _, ?_⟩⟩
    exact Nat.le_of_eq (interrupt_nesting hcpu).symm
  · exact level_it11 h (it11_active hit11) (it11_step_of_eq hit11)

end Level

/-- Where IT11 moves an event from its free list to the scheduler. -/
def It11Pc.masking : It11Pc P → Bool
  | .filling .. | .popped .. | .unmasking .. => true
  | _ => false

/-- IT11 moves an event with the interrupts masked. -/
def MaskInv (s : CommandPath P) : Prop :=
  s.it11.masking = true → s.cpu.masked = true ∧ s.cpu.nesting = s.level

section Masking

omit [DecidableEq P] in
theorem mask_loaded (cfg : ComsConfig P) : MaskInv (.loaded cfg) := by
  intro hmasking
  cases hmasking

theorem mask_it11 (h : MaskInv s) (hlevel : s.cpu.nesting = s.level) (hstep : It11Step cfg s t) :
    MaskInv t := by
  intro hmasking
  cases hstep with
  | mask core elem event cpu hpc hcpu =>
    have hnesting := cpu_same_nesting hcpu (.inl rfl)
    obtain ⟨-, heq⟩ := Option.ite_none_right_eq_some.mp hcpu
    cases heq
    exact ⟨rfl, hlevel⟩
  | fill core elem event hpc => exact h (by rw [hpc]; rfl)
  | post core elem event cpu hpc hcpu =>
    obtain ⟨hmasked, -⟩ := h (by rw [hpc]; rfl)
    refine ⟨?_, (cpu_same_nesting hcpu (.inr (.inr ⟨_, rfl⟩))).trans hlevel⟩
    obtain ⟨-, heq⟩ := Option.ite_none_right_eq_some.mp hcpu
    cases heq
    show (s.cpu.schedEvent cfg.eventPriority (.remote event)).masked = true
    unfold HybridScheduler.schedEvent
    split_ifs
    · exact hmasked
    · exact hmasked
  | found | quiet | acknowledge | read | drained | again | choose | panic | unmask
  | acknowledgeRead | leave => cases hmasking

theorem mask_step {a : CommandAction P} (h : MaskInv s) (hstep : s.step cfg a = some t) :
    MaskInv t := by
  -- While the interrupts are masked at the level of IT11, the processor does nothing else.
  have halone : s.it11.masking = true → ∀ (action : HybridAction (CpuEvent P)) (cpu),
      s.it11 = .outside ∨ s.level < s.cpu.nesting ∨ action = .interrupt →
      s.cpu.step cfg.eventPriority action = some cpu → False := by
    intro hmasking action cpu hplace hcpu
    obtain ⟨hmasked, hnesting⟩ := h hmasking
    rcases hplace with houtside | hlt | rfl
    · rw [houtside] at hmasking
      cases hmasking
    · omega
    · obtain ⟨hopen, -⟩ := Option.ite_none_right_eq_some.mp hcpu
      rw [hmasked] at hopen
      cases hopen
  rcases command_step_cases hstep with ⟨core, elem, -, -, rfl⟩ | ⟨core, -, rfl⟩ |
    ⟨action, cpu, -, -, hcpu, hplace, -, rfl⟩ | ⟨cpu, -, hplace, hcpu, rfl⟩ |
    ⟨event, hevent, rfl⟩ | ⟨cpu, -, -, -, rfl⟩ | ⟨hlevel, hit11⟩
  · exact h
  · exact h
  · intro hmasking
    exact (halone hmasking action cpu hplace hcpu).elim
  · intro hmasking
    exact (halone hmasking .schedule cpu (hplace.imp_right .inl) hcpu).elim
  · exact h
  · intro hmasking
    cases hmasking
  · exact mask_it11 h hlevel (it11_step_of_eq hit11)

end Masking

namespace CommandPath

/-- How often an event is in each of the places it can be in. -/
def inFreeList (s : CommandPath P) (event : Descriptor P) : Nat :=
  (s.top event.pool).count event.slot

def inQueue (cfg : ComsConfig P) (s : CommandPath P) (event : Descriptor P) : Nat :=
  (s.cpu.queue (cfg.eventPriority (.remote event))).count (.remote event)

def inReaction (s : CommandPath P) (event : Descriptor P) : Nat :=
  if s.dispatched = some event then 1 else 0

def inIT11 (s : CommandPath P) (event : Descriptor P) : Nat :=
  if s.it11.held = some event then 1 else 0

end CommandPath

/-- Every event of a pool is in one place, and IT11 finds the event it has chosen at the head of
its free list. -/
structure PlaceInv (cfg : ComsConfig P) (s : CommandPath P) : Prop where
  counted : ∀ event, s.inFreeList event + s.inQueue cfg event + s.inReaction event +
    s.inIT11 event = (cfg.pool event.pool).count event.slot
  chosen : ∀ elem event, s.it11.chosen = some (elem, event) →
    event.pool = elem.pool ∧ ∃ rest, s.top event.pool = event.slot :: rest
  panic : ∀ core elem, s.it11 = .panicked core elem → s.top elem.pool = []

section Places

theorem place_loaded (cfg : ComsConfig P) : PlaceInv cfg (.loaded cfg) where
  counted := fun _ => rfl
  chosen := by
    intro elem event hchosen
    cases hchosen
  panic := by
    intro core elem hpanic
    cases hpanic

/-- A step that moves no event. -/
theorem PlaceInv.keep (h : PlaceInv cfg s) (htop : t.top = s.top)
    (hqueue : ∀ event, t.inQueue cfg event = s.inQueue cfg event)
    (hdispatched : t.dispatched = s.dispatched) (hheld : t.it11.held = s.it11.held)
    (hchosen : ∀ choice, t.it11.chosen = some choice → s.it11.chosen = some choice)
    (hpanic : ∀ core elem, t.it11 = .panicked core elem → s.top elem.pool = []) :
    PlaceInv cfg t := by
  refine ⟨?_, ?_, ?_⟩
  · intro event
    have hfree : t.inFreeList event = s.inFreeList event := by
      unfold CommandPath.inFreeList
      rw [htop]
    have hreaction : t.inReaction event = s.inReaction event := by
      unfold CommandPath.inReaction
      rw [hdispatched]
    have hit11 : t.inIT11 event = s.inIT11 event := by
      unfold CommandPath.inIT11
      rw [hheld]
    rw [hfree, hqueue, hreaction, hit11]
    exact h.counted event
  · intro elem event hchoice
    rw [htop]
    exact h.chosen elem event (hchosen _ hchoice)
  · intro core elem hpc
    rw [htop]
    exact hpanic core elem hpc

theorem count_slot_cons {moved event : Descriptor P} (hpool : event.pool = moved.pool)
    (slots : List Nat) : (moved.slot :: slots).count event.slot =
      slots.count event.slot + if moved = event then 1 else 0 := by
  rw [List.count_cons]
  congr 1
  by_cases hslot : moved.slot = event.slot
  · have hsame : moved = event := by
      cases moved
      cases event
      cases hpool
      cases hslot
      rfl
    rw [if_pos hsame, if_pos (by rw [hslot]; exact beq_self_eq_true _)]
  · rw [if_neg (fun heq => hslot (eq_of_beq heq)),
      if_neg (fun heq : moved = event => hslot (heq ▸ rfl))]

/-- The first event of a list, when it belongs to a pool, is the one event that leaves it. -/
theorem count_head_remote (event : Descriptor P) (first : CpuEvent P) (rest : List (CpuEvent P)) :
    rest.count (.remote event) + (if headRemote (first :: rest) = some event then 1 else 0) =
      (first :: rest).count (.remote event) := by
  rw [List.count_cons]
  cases first with
  | remote other =>
    show _ + (if some other = some event then 1 else 0) = _
    by_cases hsame : other = event
    · subst hsame
      rw [if_pos rfl, if_pos (beq_self_eq_true _)]
    · have hne : ¬ CpuEvent.remote other = CpuEvent.remote event := by
        intro heq
        exact hsame (CpuEvent.remote.inj heq)
      rw [if_neg (fun heq => hsame (Option.some.inj heq)), if_neg (fun heq => hne (eq_of_beq heq))]
  | other id priority => rfl

theorem schedule_moves_remote (hlevel : LevelInv cfg s) {cpu : HybridScheduler (CpuEvent P)}
    (hcpu : s.cpu.step cfg.eventPriority .schedule = some cpu) (event : Descriptor P) :
    (cpu.queue (cfg.eventPriority (.remote event))).count (.remote event) +
      (if s.nextDispatched = some event then 1 else 0) = s.inQueue cfg event := by
  unfold HybridScheduler.step at hcpu
  dsimp only at hcpu
  split at hcpu
  · next preemptedPriority fromIT2 below hstack =>
    cases hcpu
    have hnext : s.nextDispatched = if s.cpu.activePriority > preemptedPriority then
        headRemote (s.cpu.queue s.cpu.activePriority) else none := by
      unfold CommandPath.nextDispatched
      rw [hstack]
    rcases schedule_cases s.cpu ⟨preemptedPriority, fromIT2, none⟩ below with
      ⟨first, rest, hactive, hqueue, heq⟩ | ⟨hactive, hqueue, heq⟩ |
      ⟨hactive, masked, enter, -, heq⟩
    · have hpriority : cfg.eventPriority first = s.cpu.activePriority :=
        hlevel.posting.priority_eq (hqueue ▸ List.mem_cons_self ..)
      have hhead : s.nextDispatched = headRemote (first :: rest) := by
        rw [hnext, if_pos hactive, hqueue]
      rw [heq]
      simp only [hhead]
      show (Function.update s.cpu.queue s.cpu.activePriority rest _).count _ + _ =
        (s.cpu.queue _).count _
      by_cases hsame : cfg.eventPriority (.remote event) = s.cpu.activePriority
      · rw [hsame, Function.update_self, hqueue]
        exact count_head_remote event first rest
      · -- An event of another priority is not at the head of this list.
        have hother : ¬ headRemote (first :: rest) = some event := by
          intro hsome
          cases first with
          | remote other =>
            cases hsome
            exact hsame hpriority
          | other id priority => cases hsome
        rw [Function.update_of_ne hsame, if_neg hother]
        rfl
    · have hhead : s.nextDispatched = none := by
        rw [hnext, if_pos hactive, hqueue]
        rfl
      rw [heq]
      simp only [hhead]
      rfl
    · have hhead : s.nextDispatched = none := by
        rw [hnext, if_neg (Int.not_lt.mpr hactive)]
      rw [heq]
      simp only [hhead]
      rfl
  · cases hcpu

/-- The scheduler takes an event out of its list. -/
theorem place_dispatch (h : PlaceInv cfg s) (hlevel : LevelInv cfg s)
    {cpu : HybridScheduler (CpuEvent P)} (hdispatched : s.dispatched = none)
    (hcpu : s.cpu.step cfg.eventPriority .schedule = some cpu) :
    PlaceInv cfg { s with cpu := cpu, dispatched := s.nextDispatched } := by
  refine ⟨?_, h.chosen, h.panic⟩
  intro event
  have hcounted := h.counted event
  have hreaction : s.inReaction event = 0 := by
    unfold CommandPath.inReaction
    rw [hdispatched]
    rfl
  have hmoved := schedule_moves_remote hlevel hcpu event
  show s.inFreeList event + (cpu.queue _).count _ +
    (if s.nextDispatched = some event then 1 else 0) + s.inIT11 event = _
  omega

/-- The reaction puts its event back. -/
theorem place_free (h : PlaceInv cfg s) (hlevel : LevelInv cfg s) {freed : Descriptor P}
    (hdispatched : s.dispatched = some freed) : PlaceInv cfg (s.freeEvent freed) := by
  have houtside : s.it11 = .outside := by
    by_contra hactive
    have hnone := (hlevel.apart hactive).1
    rw [hdispatched] at hnone
    cases hnone
  refine ⟨?_, ?_, ?_⟩
  · intro event
    have hcounted := h.counted event
    have hreaction : s.inReaction event = if freed = event then 1 else 0 := by
      unfold CommandPath.inReaction
      simp only [hdispatched, Option.some.injEq]
    have hfree : (s.freeEvent freed).inFreeList event =
        s.inFreeList event + if freed = event then 1 else 0 := by
      show (Function.update s.top freed.pool (freed.slot :: s.top freed.pool) event.pool).count _ =
        _
      by_cases hpool : event.pool = freed.pool
      · rw [hpool, Function.update_self, count_slot_cons hpool]
        unfold CommandPath.inFreeList
        rw [hpool]
      · rw [Function.update_of_ne hpool, if_neg (fun heq : freed = event => hpool (heq ▸ rfl))]
        rfl
    rw [hfree]
    show _ + s.inQueue cfg event + 0 + s.inIT11 event = _
    omega
  · intro elem event hchosen
    change s.it11.chosen = _ at hchosen
    rw [houtside] at hchosen
    cases hchosen
  · intro core elem hpanic
    change s.it11 = _ at hpanic
    rw [houtside] at hpanic
    cases hpanic

/-- IT11 takes the event it has chosen out of its free list. -/
theorem place_fill (h : PlaceInv cfg s) {core : Nat} {elem : ComsElem P} {chosen : Descriptor P}
    (hpc : s.it11 = .filling core elem chosen) : PlaceInv cfg (s.fill cfg core elem chosen) := by
  obtain ⟨-, rest, htop⟩ := h.chosen elem chosen (by rw [hpc]; rfl)
  refine ⟨?_, ?_, ?_⟩
  · intro event
    have hcounted := h.counted event
    have hnone : s.inIT11 event = 0 := by
      unfold CommandPath.inIT11
      rw [hpc]
      rfl
    have hheld : (s.fill cfg core elem chosen).inIT11 event = if chosen = event then 1 else 0 := by
      show (if some chosen = some event then 1 else 0) = _
      simp only [Option.some.injEq]
    have hfree : (s.fill cfg core elem chosen).inFreeList event +
        (if chosen = event then 1 else 0) = s.inFreeList event := by
      show (Function.update s.top chosen.pool (s.top chosen.pool).tail event.pool).count _ + _ = _
      unfold CommandPath.inFreeList
      by_cases hpool : event.pool = chosen.pool
      · rw [hpool, Function.update_self, htop, List.tail_cons, count_slot_cons hpool]
      · rw [Function.update_of_ne hpool, if_neg (fun heq : chosen = event => hpool (heq ▸ rfl))]
        rfl
    rw [hheld]
    show _ + s.inQueue cfg event + s.inReaction event + _ = _
    omega
  · intro elem' event hchosen
    cases hchosen
  · intro core' elem' hpanic
    cases hpanic

/-- IT11 hands the event to the scheduler. -/
theorem place_post (h : PlaceInv cfg s) {core : Nat} {elem : ComsElem P} {posted : Descriptor P}
    {cpu : HybridScheduler (CpuEvent P)} (hpc : s.it11 = .popped core elem posted)
    {scheduled : Nat → List (Descriptor P × Nat × Nat)}
    (hcpu : s.cpu.step cfg.eventPriority (.schedEvent (.remote posted)) = some cpu) :
    PlaceInv cfg { s with cpu := cpu, scheduled := scheduled, it11 := .unmasking core elem } := by
  refine ⟨?_, ?_, ?_⟩
  · intro event
    have hcounted := h.counted event
    have hheld : s.inIT11 event = if posted = event then 1 else 0 := by
      unfold CommandPath.inIT11
      rw [hpc]
      show (if some posted = some event then 1 else 0) = _
      simp only [Option.some.injEq]
    have hqueue := cpu_post_remote hcpu event
    show s.inFreeList event + (cpu.queue _).count _ + s.inReaction event + 0 = _
    rw [hqueue]
    unfold CommandPath.inQueue at hcounted
    omega
  · intro elem' event hchosen
    cases hchosen
  · intro core' elem' hpanic
    cases hpanic

/-- IT11 goes on without an event in its hands. -/
theorem PlaceInv.go (h : PlaceInv cfg s) (htop : t.top = s.top) (hcpu : t.cpu = s.cpu)
    (hdispatched : t.dispatched = s.dispatched) (hold : s.it11.held = none)
    (hheld : t.it11.held = none) (hchosen : t.it11.chosen = none)
    (hpanic : ∀ core elem, t.it11 ≠ .panicked core elem) : PlaceInv cfg t := by
  refine h.keep htop ?_ hdispatched (hheld.trans hold.symm) ?_ ?_
  · intro event
    unfold CommandPath.inQueue
    rw [hcpu]
  · intro choice hchoice
    rw [hchosen] at hchoice
    cases hchoice
  · intro core elem hpc
    exact absurd hpc (hpanic core elem)

theorem place_it11 (h : PlaceInv cfg s) (hstep : It11Step cfg s t) : PlaceInv cfg t := by
  have hquiet : ∀ (action : HybridAction (CpuEvent P)) (cpu : HybridScheduler (CpuEvent P)),
      action ≠ .schedule → (∀ event, action ≠ .schedEvent (.remote event)) →
      s.cpu.step cfg.eventPriority action = some cpu → ∀ event : Descriptor P,
      (cpu.queue (cfg.eventPriority (.remote event))).count (.remote event) =
        s.inQueue cfg event :=
    fun action cpu hschedule hpost hcpu event =>
      cpu_keeps_remote hcpu hschedule hpost event _
  cases hstep with
  | found core hpc hcore => exact h.go rfl rfl rfl (by rw [hpc]; rfl) rfl rfl (by simp)
  | quiet hpc hmis => exact h.go rfl rfl rfl (by rw [hpc]; rfl) rfl rfl (by simp)
  | acknowledge core semId hpc =>
    refine h.go rfl rfl rfl (by rw [hpc]; rfl) rfl rfl ?_
    intro core elem hpanic
    cases hpanic
  | read core elem rest hpc hfifo => exact h.go rfl rfl rfl (by rw [hpc]; rfl) rfl rfl (by simp)
  | drained core hpc hfifo =>
    refine h.go rfl rfl rfl ?_ rfl rfl (by simp)
    rcases hpc with hpc | hpc
    · rw [hpc]
      rfl
    · rw [hpc]
      rfl
  | again core hpc => exact h.go rfl rfl rfl (by rw [hpc]; rfl) rfl rfl (by simp)
  | choose core elem slot rest hpc htop =>
    refine ⟨?_, ?_, ?_⟩
    · have hsame := (h.go (t := { s with it11 := .scanning }) rfl rfl rfl (by rw [hpc]; rfl) rfl rfl
        (by simp)).counted
      exact hsame
    · intro elem' event hchosen
      cases hchosen
      exact ⟨rfl, rest, htop⟩
    · intro core' elem' hpanic
      cases hpanic
  | panic core elem cpu hpc htop hcpu =>
    refine h.keep rfl ?_ rfl (by rw [hpc]; rfl) ?_ ?_
    · exact hquiet .mask cpu (by simp) (by simp) hcpu
    · intro choice hchoice
      cases hchoice
    · intro core' elem' hpanic
      cases hpanic
      exact htop
  | mask core elem event cpu hpc hcpu =>
    refine h.keep rfl ?_ rfl (by rw [hpc]; rfl) ?_ ?_
    · exact hquiet .mask cpu (by simp) (by simp) hcpu
    · intro choice hchoice
      rw [hpc]
      exact hchoice
    · intro core' elem' hpanic
      cases hpanic
  | fill core elem event hpc => exact place_fill h hpc
  | post core elem event cpu hpc hcpu => exact place_post h hpc hcpu
  | unmask core elem cpu hpc hcpu =>
    refine h.keep rfl ?_ rfl (by rw [hpc]; rfl) ?_ ?_
    · exact hquiet .unmask cpu (by simp) (by simp) hcpu
    · intro choice hchoice
      cases hchoice
    · intro core' elem' hpanic
      cases hpanic
  | acknowledgeRead core elem hpc =>
    refine h.go rfl rfl rfl (by rw [hpc]; rfl) rfl rfl ?_
    intro core' elem' hpanic
    cases hpanic
  | leave cpu hpc hcpu =>
    refine h.keep rfl ?_ rfl (by rw [hpc]; rfl) ?_ ?_
    · exact hquiet .interruptReturn cpu (by simp) (by simp) hcpu
    · intro choice hchoice
      cases hchoice
    · intro core' elem' hpanic
      cases hpanic

theorem place_step {a : CommandAction P} (h : PlaceInv cfg s) (hlevel : LevelInv cfg s)
    (hstep : s.step cfg a = some t) : PlaceInv cfg t := by
  rcases command_step_cases hstep with ⟨core, elem, -, -, rfl⟩ | ⟨core, -, rfl⟩ |
    ⟨action, cpu, hschedule, hpost, hcpu, -, -, rfl⟩ | ⟨cpu, hdispatched, -, hcpu, rfl⟩ |
    ⟨event, hevent, rfl⟩ | ⟨cpu, -, houtside, hcpu, rfl⟩ | ⟨-, hit11⟩
  · exact h.keep rfl (fun _ => rfl) rfl rfl (fun _ hchoice => hchoice) h.panic
  · exact h.keep rfl (fun _ => rfl) rfl rfl (fun _ hchoice => hchoice) h.panic
  · refine h.keep rfl ?_ rfl rfl (fun _ hchoice => hchoice) h.panic
    intro event
    exact cpu_keeps_remote hcpu hschedule hpost event _
  · exact place_dispatch h hlevel hdispatched hcpu
  · exact place_free h hlevel hevent
  · refine h.keep rfl ?_ rfl (by rw [houtside]; rfl) ?_ ?_
    · intro event
      exact cpu_keeps_remote hcpu (by simp) (by simp) event _
    · intro choice hchoice
      cases hchoice
    · intro core elem hpanic
      cases hpanic
  · exact place_it11 h (it11_step_of_eq hit11)

end Places

end Codinalte.Mpc
