import Codinalte.Mpc.Scheduler

/-! The command path into the media processor: other cores push elements into their FIFO and raise
a semaphore interrupt; IT11 acknowledges it, takes an event of the right pool for each element and
hands it to the scheduler; the reaction puts the event back into its pool before it unmasks the
interrupts. -/

namespace Codinalte.Mpc
open Codinalte.Machine

def armCoreId : Nat := 0
def lastCoreId : Nat := 2
def nbCoreIds : Nat := 3

def firstNeighborSemid (coreId : Nat) : Nat := coreId * (nbCoreIds - 1)

/-- The semaphore of the FIFO from `coreId` to `myCoreId`. -/
def comsSemid (myCoreId coreId : Nat) : Nat :=
  firstNeighborSemid myCoreId + if coreId < myCoreId then coreId else coreId - 1

/-- The loop of `sem_GetFromCoreIdFromIrqSrc` from bit `mask` on, with the bit to acknowledge; the
number bounds the cores it may look at. -/
def getFromCoreIdLoop (misValue : Nat → Bool) (myCoreId : Nat) :
    Nat → Nat → Nat → Nat × Option Nat
  | 0, _, coreId => (coreId, none)
  | n + 1, mask, coreId =>
    if misValue mask then (coreId, some mask)
    else
      let next := if coreId + 1 = myCoreId then coreId + 2 else coreId + 1
      if next > lastCoreId then (next, none)
      else getFromCoreIdLoop misValue myCoreId n (mask + 1) next

def semGetFromCoreIdFromIrqSrc (misValue : Nat → Bool) (myCoreId : Nat) : Nat × Option Nat :=
  getFromCoreIdLoop misValue myCoreId nbCoreIds (firstNeighborSemid myCoreId) armCoreId

/-- An event descriptor, one of those of a pool. -/
structure Descriptor (P : Type) where
  pool : P
  slot : Nat
deriving DecidableEq

/-- The fields of an element: `EVENT_ELEM_EXTFIELD_IDX` leads to the pool. -/
structure ComsElem (P : Type) where
  pool : P
  method : Nat
  param : Nat
deriving DecidableEq

/-- What the scheduler gets: events of the pools, and events of other origin. -/
inductive CpuEvent (P : Type) where
  | remote (descriptor : Descriptor P)
  | other (id : Nat) (priority : Int)
deriving DecidableEq

/-- What the loader fixes: the core, the priority of each event, the method table behind
`EXTENDED_FIELD_BCDESC`, and the free list of each pool. -/
structure ComsConfig (P : Type) where
  myCoreId : Nat
  priority : Descriptor P → Fin 3
  method : P → Nat → Nat
  pool : P → List Nat
  isDsp : myCoreId = 1 ∨ myCoreId = 2
  nodup : ∀ p, (pool p).Nodup

def ComsConfig.eventPriority {P : Type} (cfg : ComsConfig P) : CpuEvent P → Int
  | .remote d => (cfg.priority d).val
  | .other _ priority => priority

/-- Where IT11 stands: it looks for a core, acknowledges its semaphore, and takes the elements of
its FIFO one after the other. -/
inductive It11Pc (P : Type) where
  | outside
  | scanning
  | acking (core semId : Nat)
  | reading (core : Nat)
  | element (core : Nat) (elem : ComsElem P)
  | allocated (core : Nat) (elem : ComsElem P) (event : Descriptor P)
  | filling (core : Nat) (elem : ComsElem P) (event : Descriptor P)
  | popped (core : Nat) (elem : ComsElem P) (event : Descriptor P)
  | unmasking (core : Nat) (elem : ComsElem P)
  | acknowledging (core : Nat) (elem : ComsElem P)
  | recounting (core : Nat)
  | leaving
  | panicked (core : Nat) (elem : ComsElem P)
deriving DecidableEq

/-- `fifo` is the queue of the FIFO from each core, `raising` is set for a core between its index
store and its interrupt, `level` is the interrupt nesting at which IT11 runs, and `dispatched` the
event whose reaction has not put it back yet. The last five fields are a record of what happened,
for each core. -/
structure CommandPath (P : Type) where
  cpu : HybridScheduler (CpuEvent P)
  top : P → List Nat
  data : Descriptor P → Nat
  reaction : Descriptor P → Nat
  mis : Nat → Bool
  fifo : Nat → List (ComsElem P)
  raising : Nat → Bool
  it11 : It11Pc P
  level : Nat
  dispatched : Option (Descriptor P)
  pushed : Nat → List (ComsElem P)
  drained : Nat → List (ComsElem P)
  scheduled : Nat → List (Descriptor P × Nat × Nat)
  pushedAtAck : Nat → Nat
  raisedAtAck : Nat → Nat

def CommandPath.loaded {P : Type} (cfg : ComsConfig P) : CommandPath P where
  cpu := .reset (CpuEvent P)
  top := cfg.pool
  data := fun _ => 0
  reaction := fun _ => 0
  mis := fun _ => false
  fifo := fun _ => []
  raising := fun _ => false
  it11 := .outside
  level := 0
  dispatched := none
  pushed := fun _ => []
  drained := fun _ => []
  scheduled := fun _ => []
  pushedAtAck := fun _ => 0
  raisedAtAck := fun _ => 0

inductive CommandAction (P : Type) where
  | push (core : Nat) (elem : ComsElem P)
  | raise (core : Nat)
  | cpu (action : HybridAction (CpuEvent P))
  | freeEvent
  | enterIT11
  | it11

variable {P : Type} [DecidableEq P]

/-- The first event of a list, where it belongs to a pool. -/
def headRemote : List (CpuEvent P) → Option (Descriptor P)
  | .remote event :: _ => some event
  | _ => none

namespace CommandPath

/-- The elements of a core whose interrupt has been raised. -/
def raisedCount (s : CommandPath P) (core : Nat) : Nat :=
  (s.pushed core).length - if s.raising core then 1 else 0

def push (s : CommandPath P) (core : Nat) (elem : ComsElem P) : CommandPath P :=
  { s with
    fifo := Function.update s.fifo core (s.fifo core ++ [elem])
    pushed := Function.update s.pushed core (s.pushed core ++ [elem])
    raising := Function.update s.raising core true }

def raise (cfg : ComsConfig P) (s : CommandPath P) (core : Nat) : CommandPath P :=
  { s with
    mis := Function.update s.mis (comsSemid cfg.myCoreId core) true
    raising := Function.update s.raising core false }

/-- The reaction puts its event in front of the free list. -/
def freeEvent (s : CommandPath P) (event : Descriptor P) : CommandPath P :=
  { s with
    top := Function.update s.top event.pool (event.slot :: s.top event.pool)
    dispatched := none }

/-- The store to `icr`. -/
def acknowledge (s : CommandPath P) (core semId : Nat) : CommandPath P :=
  { s with
    mis := Function.update s.mis semId false
    it11 := .reading core
    pushedAtAck := Function.update s.pushedAtAck core (s.pushed core).length
    raisedAtAck := s.raisedCount }

/-- The fields of the event are filled, and it leaves the free list. -/
def fill (cfg : ComsConfig P) (s : CommandPath P) (core : Nat) (elem : ComsElem P)
    (event : Descriptor P) : CommandPath P :=
  { s with
    data := Function.update s.data event elem.param
    reaction := Function.update s.reaction event (cfg.method elem.pool elem.method)
    top := Function.update s.top event.pool (s.top event.pool).tail
    it11 := .popped core elem event }

def acknowledgeRead (s : CommandPath P) (core : Nat) : CommandPath P :=
  { s with
    fifo := Function.update s.fifo core (s.fifo core).tail
    drained := Function.update s.drained core (s.drained core ++ (s.fifo core).head?.toList)
    it11 := .recounting core }

/-- An action of the processor, and what IT11 does beside it. -/
def onCpu (cfg : ComsConfig P) (s : CommandPath P) (action : HybridAction (CpuEvent P))
    (next : CommandPath P) : Option (CommandPath P) :=
  (s.cpu.step cfg.eventPriority action).map fun cpu => { next with cpu := cpu }

def stepIt11 (cfg : ComsConfig P) (s : CommandPath P) : Option (CommandPath P) :=
  match s.it11 with
  | .outside => none
  | .scanning =>
    match semGetFromCoreIdFromIrqSrc s.mis cfg.myCoreId with
    | (core, some semId) => some { s with it11 := .acking core semId }
    | (_, none) => some { s with it11 := .leaving }
  | .acking core semId => some (s.acknowledge core semId)
  | .reading core =>
    match s.fifo core with
    | elem :: _ => some { s with it11 := .element core elem }
    | [] => some { s with it11 := .scanning }
  | .element core elem =>
    match s.top elem.pool with
    | slot :: _ => some { s with it11 := .allocated core elem ⟨elem.pool, slot⟩ }
    | [] => s.onCpu cfg .mask { s with it11 := .panicked core elem }
  | .allocated core elem event => s.onCpu cfg .mask { s with it11 := .filling core elem event }
  | .filling core elem event => some (s.fill cfg core elem event)
  | .popped core elem event =>
    s.onCpu cfg (.schedEvent (.remote event)) { s with
      scheduled := Function.update s.scheduled core
        (s.scheduled core ++ [(event, s.data event, s.reaction event)])
      it11 := .unmasking core elem }
  | .unmasking core elem => s.onCpu cfg .unmask { s with it11 := .acknowledging core elem }
  | .acknowledging core _ => some (s.acknowledgeRead core)
  | .recounting core =>
    if (s.fifo core).length > 0 then some { s with it11 := .reading core }
    else some { s with it11 := .scanning }
  | .leaving => s.onCpu cfg .interruptReturn { s with it11 := .outside }
  | .panicked _ _ => none

/-- The event of a pool that the next step of `RawSchedule` takes. -/
def nextDispatched (s : CommandPath P) : Option (Descriptor P) :=
  match s.cpu.stack with
  | ⟨preemptedPriority, _, none⟩ :: _ =>
    if s.cpu.activePriority > preemptedPriority then
      headRemote (s.cpu.queue s.cpu.activePriority)
    else none
  | _ => none

/-- The scheduler, the reactions and the other interrupts; events of the pools are posted by IT11
only. -/
def stepCpu (cfg : ComsConfig P) (s : CommandPath P) (action : HybridAction (CpuEvent P)) :
    Option (CommandPath P) :=
  match action with
  | .schedEvent (.remote _) => none
  | .schedule => s.onCpu cfg .schedule { s with dispatched := s.nextDispatched }
  | action => s.onCpu cfg action s

/-- A dispatched reaction first puts its event back; while IT11 runs only higher interrupts come
between its steps. -/
def step (cfg : ComsConfig P) (s : CommandPath P) : CommandAction P → Option (CommandPath P)
  | .push core elem =>
    if core ≤ lastCoreId ∧ core ≠ cfg.myCoreId ∧ s.raising core = false then some (s.push core elem)
    else none
  | .raise core => if s.raising core = true then some (s.raise cfg core) else none
  | .cpu action =>
    if s.dispatched = none ∧
        (s.it11 = .outside ∨ s.level < s.cpu.nesting ∨ action = .interrupt) then
      s.stepCpu cfg action
    else none
  | .freeEvent => s.dispatched.map s.freeEvent
  | .enterIT11 =>
    if s.dispatched = none ∧ s.it11 = .outside then
      s.onCpu cfg .interrupt { s with it11 := .scanning, level := s.cpu.nesting + 1 }
    else none
  | .it11 => if s.cpu.nesting = s.level then s.stepIt11 cfg else none

end CommandPath

/-- A core that pushes into the FIFOs of this one. -/
def ComsConfig.Neighbor (cfg : ComsConfig P) (core : Nat) : Prop :=
  core ≤ lastCoreId ∧ core ≠ cfg.myCoreId

section Semaphores
variable {cfg : ComsConfig P}

omit [DecidableEq P] in
theorem coms_semid_injective {c c' : Nat} (hc : cfg.Neighbor c) (hc' : cfg.Neighbor c')
    (h : comsSemid cfg.myCoreId c = comsSemid cfg.myCoreId c') : c = c' := by
  obtain ⟨-, hne⟩ := hc
  obtain ⟨-, hne'⟩ := hc'
  have hoffset : (if c < cfg.myCoreId then c else c - 1) =
      if c' < cfg.myCoreId then c' else c' - 1 := Nat.add_left_cancel h
  split_ifs at hoffset
  · exact hoffset
  · omega
  · omega
  · omega

omit [DecidableEq P] in
/-- The loop looks at the ARM core first and then at the other neighbor. -/
theorem get_from_core_id_eq (cfg : ComsConfig P) (mis : Nat → Bool) :
    semGetFromCoreIdFromIrqSrc mis cfg.myCoreId =
      if mis (comsSemid cfg.myCoreId armCoreId) then
        (armCoreId, some (comsSemid cfg.myCoreId armCoreId))
      else if mis (comsSemid cfg.myCoreId (nbCoreIds - cfg.myCoreId)) then
        (nbCoreIds - cfg.myCoreId, some (comsSemid cfg.myCoreId (nbCoreIds - cfg.myCoreId)))
      else (lastCoreId + 1, none) := by
  rcases cfg.isDsp with hmy | hmy
  · rw [hmy]
    rfl
  · rw [hmy]
    rfl

omit [DecidableEq P] in
theorem neighbor_iff {core : Nat} :
    cfg.Neighbor core ↔ core = armCoreId ∨ core = nbCoreIds - cfg.myCoreId := by
  unfold ComsConfig.Neighbor lastCoreId armCoreId nbCoreIds
  rcases cfg.isDsp with hmy | hmy
  · rw [hmy]
    omega
  · rw [hmy]
    omega

omit [DecidableEq P] in
/-- A core whose interrupt is pending is found, unless there is none. -/
theorem get_from_core_id_cases (cfg : ComsConfig P) (mis : Nat → Bool) :
    (∃ core, cfg.Neighbor core ∧ semGetFromCoreIdFromIrqSrc mis cfg.myCoreId =
      (core, some (comsSemid cfg.myCoreId core))) ∨
    (semGetFromCoreIdFromIrqSrc mis cfg.myCoreId = (lastCoreId + 1, none) ∧
      ∀ core, cfg.Neighbor core → mis (comsSemid cfg.myCoreId core) = false) := by
  rw [get_from_core_id_eq]
  split_ifs with harm hother
  · exact .inl ⟨armCoreId, neighbor_iff.mpr (.inl rfl), rfl⟩
  · exact .inl ⟨nbCoreIds - cfg.myCoreId, neighbor_iff.mpr (.inr rfl), rfl⟩
  · refine .inr ⟨rfl, ?_⟩
    intro core hcore
    rcases neighbor_iff.mp hcore with rfl | rfl
    · exact Bool.eq_false_iff.mpr harm
    · exact Bool.eq_false_iff.mpr hother

end Semaphores

/-- Where IT11 stands with an element at the head of its FIFO. -/
def It11Pc.headElem : It11Pc P → Option (Nat × ComsElem P)
  | .element core elem | .allocated core elem _ | .filling core elem _ | .popped core elem _
  | .unmasking core elem | .acknowledging core elem | .panicked core elem => some (core, elem)
  | _ => none

/-- The core whose FIFO is being emptied. -/
def It11Pc.draining : It11Pc P → Option Nat
  | .reading core | .recounting core => some core
  | pc => pc.headElem.map Prod.fst

/-- The event read from the head of its free list. -/
def It11Pc.chosen : It11Pc P → Option (ComsElem P × Descriptor P)
  | .allocated _ elem event | .filling _ elem event => some (elem, event)
  | _ => none

/-- The event in the hands of IT11 between the free list and the scheduler. -/
def It11Pc.held : It11Pc P → Option (Descriptor P)
  | .popped _ _ event => some event
  | _ => none

/-- The element that has been posted and not acknowledged. -/
def It11Pc.posted : It11Pc P → Option (Nat × ComsElem P)
  | .unmasking core elem | .acknowledging core elem => some (core, elem)
  | _ => none

/-- Pushes and interrupts of the other cores, the processor, the start of IT11 and its steps. -/
theorem command_step_cases {cfg : ComsConfig P} {s t : CommandPath P} {a : CommandAction P}
    (h : s.step cfg a = some t) :
    (∃ core elem, cfg.Neighbor core ∧ s.raising core = false ∧ t = s.push core elem) ∨
    (∃ core, s.raising core = true ∧ t = s.raise cfg core) ∨
    (∃ action cpu, action ≠ .schedule ∧ (∀ event, action ≠ .schedEvent (.remote event)) ∧
      s.cpu.step cfg.eventPriority action = some cpu ∧
      (s.it11 = .outside ∨ s.level < s.cpu.nesting ∨ action = .interrupt) ∧
      s.dispatched = none ∧ t = { s with cpu := cpu }) ∨
    (∃ cpu, s.dispatched = none ∧ (s.it11 = .outside ∨ s.level < s.cpu.nesting) ∧
      s.cpu.step cfg.eventPriority .schedule = some cpu ∧
      t = { s with cpu := cpu, dispatched := s.nextDispatched }) ∨
    (∃ event, s.dispatched = some event ∧ t = s.freeEvent event) ∨
    (∃ cpu, s.dispatched = none ∧ s.it11 = .outside ∧
      s.cpu.step cfg.eventPriority .interrupt = some cpu ∧
      t = { s with cpu := cpu, it11 := .scanning, level := s.cpu.nesting + 1 }) ∨
    (s.cpu.nesting = s.level ∧ s.stepIt11 cfg = some t) := by
  cases a with
  | push core elem =>
    obtain ⟨⟨hcore, hmy, hraising⟩, heq⟩ := Option.ite_none_right_eq_some.mp h
    exact .inl ⟨core, elem, ⟨hcore, hmy⟩, hraising, (Option.some.inj heq).symm⟩
  | raise core =>
    obtain ⟨hraising, heq⟩ := Option.ite_none_right_eq_some.mp h
    exact .inr (.inl ⟨core, hraising, (Option.some.inj heq).symm⟩)
  | freeEvent =>
    obtain ⟨event, hevent, rfl⟩ := Option.map_eq_some_iff.mp h
    exact .inr (.inr (.inr (.inr (.inl ⟨event, hevent, rfl⟩))))
  | enterIT11 =>
    obtain ⟨⟨hdispatched, houtside⟩, hcpu⟩ := Option.ite_none_right_eq_some.mp h
    obtain ⟨cpu, hstep, rfl⟩ := Option.map_eq_some_iff.mp hcpu
    exact .inr (.inr (.inr (.inr (.inr (.inl ⟨cpu, hdispatched, houtside, hstep, rfl⟩)))))
  | it11 =>
    obtain ⟨hlevel, hit11⟩ := Option.ite_none_right_eq_some.mp h
    exact .inr (.inr (.inr (.inr (.inr (.inr ⟨hlevel, hit11⟩)))))
  | cpu action =>
    obtain ⟨⟨hdispatched, hplace⟩, hcpu⟩ := Option.ite_none_right_eq_some.mp h
    unfold CommandPath.stepCpu at hcpu
    split at hcpu
    · cases hcpu
    · obtain ⟨cpu, hstep, rfl⟩ := Option.map_eq_some_iff.mp hcpu
      have hplace' : s.it11 = .outside ∨ s.level < s.cpu.nesting := by
        rcases hplace with houtside | hlevel | hinterrupt
        · exact .inl houtside
        · exact .inr hlevel
        · cases hinterrupt
      exact .inr (.inr (.inr (.inl ⟨cpu, hdispatched, hplace', hstep, rfl⟩)))
    · next hpost hschedule =>
      obtain ⟨cpu, hstep, rfl⟩ := Option.map_eq_some_iff.mp hcpu
      exact .inr (.inr (.inl ⟨action, cpu, hschedule, hpost, hstep, hplace, hdispatched, rfl⟩))

/-- The ways of IT11 from one of its places to the next. -/
inductive It11Step (cfg : ComsConfig P) (s : CommandPath P) : CommandPath P → Prop where
  | found (core : Nat) (hpc : s.it11 = .scanning) (hcore : cfg.Neighbor core) :
      It11Step cfg s { s with it11 := .acking core (comsSemid cfg.myCoreId core) }
  | quiet (hpc : s.it11 = .scanning)
      (hmis : ∀ core, cfg.Neighbor core → s.mis (comsSemid cfg.myCoreId core) = false) :
      It11Step cfg s { s with it11 := .leaving }
  | acknowledge (core semId : Nat) (hpc : s.it11 = .acking core semId) :
      It11Step cfg s (s.acknowledge core semId)
  | read (core : Nat) (elem : ComsElem P) (rest : List (ComsElem P))
      (hpc : s.it11 = .reading core) (hfifo : s.fifo core = elem :: rest) :
      It11Step cfg s { s with it11 := .element core elem }
  | drained (core : Nat) (hpc : s.it11 = .reading core ∨ s.it11 = .recounting core)
      (hfifo : s.fifo core = []) : It11Step cfg s { s with it11 := .scanning }
  | again (core : Nat) (hpc : s.it11 = .recounting core) :
      It11Step cfg s { s with it11 := .reading core }
  | choose (core : Nat) (elem : ComsElem P) (slot : Nat) (rest : List Nat)
      (hpc : s.it11 = .element core elem) (htop : s.top elem.pool = slot :: rest) :
      It11Step cfg s { s with it11 := .allocated core elem ⟨elem.pool, slot⟩ }
  | panic (core : Nat) (elem : ComsElem P) (cpu : HybridScheduler (CpuEvent P))
      (hpc : s.it11 = .element core elem) (htop : s.top elem.pool = [])
      (hcpu : s.cpu.step cfg.eventPriority .mask = some cpu) :
      It11Step cfg s { s with cpu := cpu, it11 := .panicked core elem }
  | mask (core : Nat) (elem : ComsElem P) (event : Descriptor P)
      (cpu : HybridScheduler (CpuEvent P)) (hpc : s.it11 = .allocated core elem event)
      (hcpu : s.cpu.step cfg.eventPriority .mask = some cpu) :
      It11Step cfg s { s with cpu := cpu, it11 := .filling core elem event }
  | fill (core : Nat) (elem : ComsElem P) (event : Descriptor P)
      (hpc : s.it11 = .filling core elem event) : It11Step cfg s (s.fill cfg core elem event)
  | post (core : Nat) (elem : ComsElem P) (event : Descriptor P)
      (cpu : HybridScheduler (CpuEvent P)) (hpc : s.it11 = .popped core elem event)
      (hcpu : s.cpu.step cfg.eventPriority (.schedEvent (.remote event)) = some cpu) :
      It11Step cfg s { s with
        cpu := cpu
        scheduled := Function.update s.scheduled core
          (s.scheduled core ++ [(event, s.data event, s.reaction event)])
        it11 := .unmasking core elem }
  | unmask (core : Nat) (elem : ComsElem P) (cpu : HybridScheduler (CpuEvent P))
      (hpc : s.it11 = .unmasking core elem)
      (hcpu : s.cpu.step cfg.eventPriority .unmask = some cpu) :
      It11Step cfg s { s with cpu := cpu, it11 := .acknowledging core elem }
  | acknowledgeRead (core : Nat) (elem : ComsElem P) (hpc : s.it11 = .acknowledging core elem) :
      It11Step cfg s (s.acknowledgeRead core)
  | leave (cpu : HybridScheduler (CpuEvent P)) (hpc : s.it11 = .leaving)
      (hcpu : s.cpu.step cfg.eventPriority .interruptReturn = some cpu) :
      It11Step cfg s { s with cpu := cpu, it11 := .outside }

theorem it11_step_of_eq {cfg : ComsConfig P} {s t : CommandPath P}
    (h : s.stepIt11 cfg = some t) : It11Step cfg s t := by
  unfold CommandPath.stepIt11 at h
  split at h
  · cases h
  · next hpc =>
    rcases get_from_core_id_cases cfg s.mis with ⟨core, hcore, hfound⟩ | ⟨hnone, hquiet⟩
    · rw [hfound] at h
      cases h
      exact .found core hpc hcore
    · rw [hnone] at h
      cases h
      exact .quiet hpc hquiet
  · next core semId hpc =>
    cases h
    exact .acknowledge core semId hpc
  · next core hpc =>
    split at h
    · next elem rest hfifo =>
      cases h
      exact .read core elem rest hpc hfifo
    · next hfifo =>
      cases h
      exact .drained core (.inl hpc) hfifo
  · next core elem hpc =>
    split at h
    · next slot rest htop =>
      cases h
      exact .choose core elem slot rest hpc htop
    · next htop =>
      obtain ⟨cpu, hstep, rfl⟩ := Option.map_eq_some_iff.mp h
      exact .panic core elem cpu hpc htop hstep
  · next core elem event hpc =>
    obtain ⟨cpu, hstep, rfl⟩ := Option.map_eq_some_iff.mp h
    exact .mask core elem event cpu hpc hstep
  · next core elem event hpc =>
    cases h
    exact .fill core elem event hpc
  · next core elem event hpc =>
    obtain ⟨cpu, hstep, rfl⟩ := Option.map_eq_some_iff.mp h
    exact .post core elem event cpu hpc hstep
  · next core elem hpc =>
    obtain ⟨cpu, hstep, rfl⟩ := Option.map_eq_some_iff.mp h
    exact .unmask core elem cpu hpc hstep
  · next core elem hpc =>
    cases h
    exact .acknowledgeRead core elem hpc
  · next core hpc =>
    split_ifs at h with hlength
    · cases h
      exact .again core hpc
    · cases h
      have hempty : s.fifo core = [] :=
        List.eq_nil_of_length_eq_zero (Nat.eq_zero_of_not_pos hlength)
      exact .drained core (.inr hpc) hempty
  · next hpc =>
    obtain ⟨cpu, hstep, rfl⟩ := Option.map_eq_some_iff.mp h
    exact .leave cpu hpc hstep
  · cases h

section Cpu
variable {cfg : ComsConfig P} {s t : HybridScheduler (CpuEvent P)}

omit [DecidableEq P] in
/-- Posting an event adds it to its list. -/
theorem sched_event_queue (event : CpuEvent P) (p : Int) :
    (s.schedEvent cfg.eventPriority event).queue p =
      Function.update s.queue (cfg.eventPriority event)
        (s.queue (cfg.eventPriority event) ++ [event]) p := by
  unfold HybridScheduler.schedEvent
  split_ifs
  · rfl
  · rfl

/-- Apart from IT11 and the scheduler nothing moves the events of the pools. -/
theorem cpu_keeps_remote {a : HybridAction (CpuEvent P)}
    (h : s.step cfg.eventPriority a = some t) (hschedule : a ≠ .schedule)
    (hpost : ∀ event, a ≠ .schedEvent (.remote event)) (event : Descriptor P) (p : Int) :
    (t.queue p).count (.remote event) = (s.queue p).count (.remote event) := by
  rcases hybrid_step_cases h with ⟨other, ha, -, -, -, rfl⟩ | ⟨masked, nesting, -, -, rfl⟩ |
    ⟨-, -, rfl⟩ | ⟨preemptedPriority, fromIT2, event, below, -, -, rfl⟩ |
    ⟨preemptedPriority, fromIT2, below, ha, -, -⟩ | ⟨-, -, henter⟩
  · rw [sched_event_queue]
    by_cases heq : p = cfg.eventPriority other
    · subst heq
      rw [Function.update_self, List.count_append, List.count_singleton]
      cases other with
      | remote event' => exact absurd ha (hpost event')
      | other id priority => rfl
    · rw [Function.update_of_ne heq]
  · rfl
  · rfl
  · rfl
  · exact absurd ha hschedule
  · rw [(enter_loop_keeps henter).1]

theorem cpu_post_remote {posted : Descriptor P}
    (h : s.step cfg.eventPriority (.schedEvent (.remote posted)) = some t) (event : Descriptor P) :
    (t.queue (cfg.eventPriority (.remote event))).count (.remote event) =
      (s.queue (cfg.eventPriority (.remote event))).count (.remote event) +
        if posted = event then 1 else 0 := by
  obtain ⟨-, heq⟩ := Option.ite_none_right_eq_some.mp h
  cases heq
  rw [sched_event_queue]
  by_cases hsame : posted = event
  · subst hsame
    rw [Function.update_self, List.count_append, List.count_singleton_self, if_pos rfl]
  · rw [if_neg hsame]
    by_cases hlevel : cfg.eventPriority (.remote event) = cfg.eventPriority (.remote posted)
    · rw [hlevel, Function.update_self, List.count_append, List.count_singleton]
      have hne : ¬ CpuEvent.remote posted = CpuEvent.remote event := by
        intro heq
        exact hsame (CpuEvent.remote.inj heq)
      simp [hne]
    · rw [Function.update_of_ne hlevel]
      rfl

omit [DecidableEq P] in
theorem cpu_same_nesting {a : HybridAction (CpuEvent P)}
    (h : s.step cfg.eventPriority a = some t)
    (ha : a = .mask ∨ a = .unmask ∨ ∃ event, a = .schedEvent event) : t.nesting = s.nesting := by
  rcases ha with rfl | rfl | ⟨event, rfl⟩
  · obtain ⟨-, heq⟩ := Option.ite_none_right_eq_some.mp h
    cases heq
    rfl
  · obtain ⟨-, heq⟩ := Option.ite_none_right_eq_some.mp h
    cases heq
    rfl
  · obtain ⟨-, heq⟩ := Option.ite_none_right_eq_some.mp h
    cases heq
    unfold HybridScheduler.schedEvent
    split_ifs
    · rfl
    · rfl

end Cpu

end Codinalte.Mpc
