import Codinalte.Lib.Machine
import Codinalte.Mpc.Ulp

/-! Any sequence of registrations, commands, entries into ultra low power mode and wake-ups,
against a list of callbacks and two counts. -/

namespace Codinalte.Mpc
open Codinalte.LinkedList Codinalte.Machine

inductive UlpCall (A : Type) where
  | registerForSleep (pCallback : A)
  | unregisterForSleep (pCallback : A)
  | allowSleep
  | preventSleep
  | serve (service : UlpService)
  | enter
  | wakeup (cold : CoreRegs)

variable {A : Type} [DecidableEq A]

/-- A call while the core is awake. `none` is a call that cannot be made, a store through NULL, or
a loop that did not end within the fuel. -/
def Ulp.call (fuel : Nat) (s : Ulp A) : UlpCall A → Option (Ulp A)
  | .registerForSleep x =>
    (Mpc.registerForSleep s.callbacks x).map fun callbacks => { s with callbacks }
  | .unregisterForSleep x =>
    (Mpc.unregisterForSleep fuel s.callbacks x).map fun callbacks => { s with callbacks }
  | .allowSleep => some s.allowSleep
  | .preventSleep => some s.preventSleep
  | .serve service => some (s.serve service)
  | .enter => s.enter fuel
  | .wakeup _ => none

/-- While the core sleeps nothing runs but the wake-up. -/
def Ulp.step (fuel : Nat) (s : Ulp A) (call : UlpCall A) : Option (Ulp A) :=
  if s.isSleeping = 0 then s.call fuel call
  else
    match call with
    | .wakeup cold => (s.powerOn cold).sleepWakeup fuel
    | _ => none

/-- The registered callbacks in the order of their registration, what was allowed and prevented
since the last wake-up, and the callbacks called so far. -/
structure SleepControl (A : Type) where
  registered : List A
  allowed : Nat
  prevented : Nat
  forced : Bool
  asleep : Bool
  called : List (SleepNotify A)

namespace SleepControl

omit [DecidableEq A] in
def start : SleepControl A := ⟨[], 0, 0, true, false, []⟩

def counterModulus : Nat := 0x1000000

omit [DecidableEq A] in
/-- Nobody forces the core to stay awake, and the signed counter of 24 bits is negative. -/
def MaySleep (c : SleepControl A) : Prop :=
  c.forced = false ∧ ((c.prevented : Int) - c.allowed).bmod counterModulus < 0

omit [DecidableEq A] in
instance (c : SleepControl A) : Decidable c.MaySleep := inferInstanceAs (Decidable (_ ∧ _))

/-- A call while the core is awake. -/
def call (c : SleepControl A) : UlpCall A → Option (SleepControl A)
  | .registerForSleep x => some { c with registered := c.registered ++ [x] }
  | .unregisterForSleep x => some { c with registered := c.registered.erase x }
  | .allowSleep => some { c with allowed := c.allowed + 1 }
  | .preventSleep => some { c with prevented := c.prevented + 1 }
  | .serve service => some { c with forced := decide (service = .forceWakeUp) }
  | .enter =>
    if c.MaySleep then
      some { c with asleep := true, called := c.called ++ c.registered.map .enter }
    else some c
  | .wakeup _ => none

omit [DecidableEq A] in
def wakeup (c : SleepControl A) : SleepControl A :=
  { c with
    asleep := false
    allowed := 0
    prevented := 0
    called := c.called ++ c.registered.map .leave }

def step (c : SleepControl A) (call : UlpCall A) : Option (SleepControl A) :=
  if c.asleep then
    match call with
    | .wakeup _ => some c.wakeup
    | _ => none
  else c.call call

theorem step_awake {c : SleepControl A} (h : c.asleep = false) (call : UlpCall A) :
    c.step call = c.call call := by
  unfold step
  rw [h]
  rfl

theorem step_wakeup {c : SleepControl A} (h : c.asleep = true) (cold : CoreRegs) :
    c.step (.wakeup cold) = some c.wakeup := by
  rw [step, if_pos h]

omit [DecidableEq A] in
/-- A call registers a callback only while it is not registered. -/
def RegistersNew (c : SleepControl A) : UlpCall A → Prop
  | .registerForSleep x => x ∉ c.registered
  | _ => True

instance (c : SleepControl A) : ∀ call, Decidable (c.RegistersNew call)
  | .registerForSleep x => inferInstanceAs (Decidable (x ∉ c.registered))
  | .unregisterForSleep _ => .isTrue trivial
  | .allowSleep => .isTrue trivial
  | .preventSleep => .isTrue trivial
  | .serve _ => .isTrue trivial
  | .enter => .isTrue trivial
  | .wakeup _ => .isTrue trivial

omit [DecidableEq A] in
/-- While neither count comes to half the range, the counter is negative where there were more
calls that allow than calls that prevent. -/
theorem may_sleep_iff {c : SleepControl A} (hallowed : c.allowed ≤ 0x800000)
    (hprevented : c.prevented < 0x800000) :
    c.MaySleep ↔ c.forced = false ∧ c.prevented < c.allowed := by
  have hbmod : ((c.prevented : Int) - c.allowed).bmod counterModulus =
      (c.prevented : Int) - c.allowed := by
    apply Int.bmod_eq_of_le <;> simp only [counterModulus] <;> omega
  unfold MaySleep
  rw [hbmod]
  exact and_congr_right fun _ => by omega

end SleepControl

/-- The callbacks called, out of everything the code did. -/
def notified {A : Type} (events : List (UlpEvent A)) : List (SleepNotify A) :=
  events.filterMap fun
    | .notify call => some call
    | _ => none

omit [DecidableEq A] in
theorem notified_enter (xs : List A) :
    notified (.traceUser traceEntry :: xs.map (fun x => .notify (.enter x)) ++
      [.sendMsg .goInRetention]) = xs.map .enter := by
  simp [notified, List.filterMap_append, List.filterMap_map]

omit [DecidableEq A] in
theorem notified_leave (xs : List A) :
    notified (.maskInterrupts :: .traceUser traceExit :: xs.map (fun x => .notify (.leave x)) ++
      [.sendMsg .endOfBoot]) = xs.map .leave := by
  simp [notified, List.filterMap_append, List.filterMap_map]

omit [DecidableEq A] in
theorem notified_append (events more : List (UlpEvent A)) :
    notified (events ++ more) = notified events ++ notified more := List.filterMap_append

/-- The memory and the counter of the code stand for the control; `regs` is the configuration of
the core, which is in the registers while it is awake and saved while it sleeps. -/
structure Controls (regs : CoreRegs) (s : Ulp A) (c : SleepControl A) : Prop where
  callbacks : HoldsCallbacks s.callbacks c.registered
  counter : s.sleepCounter = BitVec.ofInt 24 ((c.prevented : Int) - c.allowed)
  forced : s.forceWakeup = if c.forced then 1 else 0
  asleep : s.isSleeping = if c.asleep then 1 else 0
  called : notified s.events = c.called
  regs : (if c.asleep then s.coreState else s.regs) = regs

section Steps
variable {regs : CoreRegs} {s : Ulp A} {c : SleepControl A} {fuel : Nat}

omit [DecidableEq A] in
theorem controls_boot (pNext : A → Option A) (regs coreState : CoreRegs) :
    Controls regs (Ulp.boot pNext regs coreState) .start :=
  ⟨⟨rfl, List.nodup_nil, rfl⟩, rfl, rfl, rfl, rfl, rfl⟩

omit [DecidableEq A] in
theorem Controls.isSleeping_iff (h : Controls regs s c) : s.isSleeping = 0 ↔ c.asleep = false := by
  rw [h.asleep]
  cases c.asleep <;> simp

omit [DecidableEq A] in
/-- The test of `enter` decides what `MaySleep` says. -/
theorem Controls.test_iff (h : Controls regs s c) :
    (s.forceWakeup = 0 ∧ s.sleepCounter.toInt < 0) ↔ c.MaySleep := by
  rw [h.forced, h.counter, BitVec.toInt_ofInt]
  apply and_congr _ Iff.rfl
  cases c.forced <;> simp

omit [DecidableEq A] in
theorem Controls.visit (h : Controls regs s c) (hfuel : c.registered.length ≤ fuel) :
    visitRegistered s.callbacks.pNext fuel s.callbacks.pFirst = some c.registered :=
  visit_registered h.callbacks.chain hfuel

omit [DecidableEq A] in
theorem controls_allow (h : Controls regs s c) :
    Controls regs s.allowSleep { c with allowed := c.allowed + 1 } := by
  refine ⟨h.callbacks, ?_, h.forced, h.asleep, ?_, h.regs⟩
  · have hone : (1 : BitVec 24) = BitVec.ofInt 24 1 := rfl
    show s.sleepCounter - 1 = BitVec.ofInt 24 (c.prevented - ((c.allowed + 1 : Nat) : Int))
    rw [h.counter, hone, BitVec.sub_eq_add_neg, ← BitVec.ofInt_neg, ← BitVec.ofInt_add]
    congr 1
    push_cast
    omega
  · show notified (s.events ++ _) = c.called
    rw [notified_append, h.called]
    exact List.append_nil _

omit [DecidableEq A] in
theorem controls_prevent (h : Controls regs s c) :
    Controls regs s.preventSleep { c with prevented := c.prevented + 1 } := by
  refine ⟨h.callbacks, ?_, h.forced, h.asleep, ?_, h.regs⟩
  · have hone : (1 : BitVec 24) = BitVec.ofInt 24 1 := rfl
    show s.sleepCounter + 1 = BitVec.ofInt 24 (((c.prevented + 1 : Nat) : Int) - c.allowed)
    rw [h.counter, hone, ← BitVec.ofInt_add]
    congr 1
    push_cast
    omega
  · show notified (s.events ++ _) = c.called
    rw [notified_append, h.called]
    exact List.append_nil _

omit [DecidableEq A] in
theorem controls_serve (h : Controls regs s c) (service : UlpService) :
    Controls regs (s.serve service) { c with forced := decide (service = .forceWakeUp) } := by
  refine ⟨h.callbacks, h.counter, ?_, h.asleep, ?_, h.regs⟩
  · cases service <;> rfl
  · show notified (s.events ++ _) = c.called
    rw [notified_append, h.called]
    exact List.append_nil _

omit [DecidableEq A] in
theorem controls_go_to_sleep (h : Controls regs s c) (hawake : c.asleep = false)
    (hfuel : c.registered.length ≤ fuel) :
    ∃ s', s.goToSleep fuel = some s' ∧ Controls regs s'
      { c with asleep := true, called := c.called ++ c.registered.map .enter } := by
  have hregs := h.regs
  rw [hawake] at hregs
  unfold Ulp.goToSleep
  rw [h.visit hfuel]
  refine ⟨_, rfl, h.callbacks, h.counter, h.forced, rfl, ?_, hregs⟩
  show notified (s.events ++ _ ++ _) = _
  rw [List.append_assoc, notified_append, h.called, notified_enter]

omit [DecidableEq A] in
theorem controls_wakeup (h : Controls regs s c) (hasleep : c.asleep = true) (cold : CoreRegs)
    (hfuel : c.registered.length ≤ fuel) :
    ∃ s', (s.powerOn cold).sleepWakeup fuel = some s' ∧ Controls regs s' c.wakeup := by
  have hregs := h.regs
  rw [hasleep] at hregs
  have hvisit : visitRegistered (s.powerOn cold).callbacks.pNext fuel
      (s.powerOn cold).callbacks.pFirst = some c.registered := h.visit hfuel
  unfold Ulp.sleepWakeup
  rw [hvisit]
  refine ⟨_, rfl, h.callbacks, rfl, h.forced, rfl, ?_, hregs⟩
  show notified (s.events ++ _ ++ _) = _
  rw [List.append_assoc, notified_append, h.called, notified_leave]
  rfl

theorem controls_call {t : SleepControl A} {call : UlpCall A} (h : Controls regs s c)
    (hawake : c.asleep = false) (hnew : c.RegistersNew call) (hcall : c.call call = some t)
    (hfuel : c.registered.length ≤ fuel) :
    ∃ s', s.call fuel call = some s' ∧ Controls regs s' t := by
  cases call with
  | registerForSleep x =>
    obtain ⟨m, hm, hholds⟩ := register_holds h.callbacks hnew
    cases hcall
    unfold Ulp.call
    simp only [hm]
    exact ⟨_, rfl, hholds, h.counter, h.forced, h.asleep, h.called, h.regs⟩
  | unregisterForSleep x =>
    obtain ⟨m, hm, hholds⟩ := @unregister_holds A _ _ _ x fuel h.callbacks hfuel
    cases hcall
    unfold Ulp.call
    simp only [hm]
    exact ⟨_, rfl, hholds, h.counter, h.forced, h.asleep, h.called, h.regs⟩
  | allowSleep =>
    cases hcall
    exact ⟨_, rfl, controls_allow h⟩
  | preventSleep =>
    cases hcall
    exact ⟨_, rfl, controls_prevent h⟩
  | serve service =>
    cases hcall
    exact ⟨_, rfl, controls_serve h service⟩
  | enter =>
    simp only [SleepControl.call] at hcall
    simp only [Ulp.call, Ulp.enter]
    by_cases hmay : c.MaySleep
    · rw [if_pos hmay] at hcall
      rw [if_pos (h.test_iff.mpr hmay)]
      cases hcall
      exact controls_go_to_sleep h hawake hfuel
    · rw [if_neg hmay] at hcall
      rw [if_neg (mt h.test_iff.mp hmay)]
      cases hcall
      exact ⟨s, rfl, h⟩
  | wakeup cold => cases hcall

/-- A call that can be made does to the code what it does to the control. -/
theorem controls_step {t : SleepControl A} {call : UlpCall A} (h : Controls regs s c)
    (hnew : c.RegistersNew call) (hstep : c.step call = some t)
    (hfuel : c.registered.length ≤ fuel) :
    ∃ s', s.step fuel call = some s' ∧ Controls regs s' t := by
  unfold SleepControl.step at hstep
  unfold Ulp.step
  cases hasleep : c.asleep with
  | true =>
    have hsleeping : ¬ s.isSleeping = 0 := by
      rw [h.isSleeping_iff, hasleep]
      simp
    rw [if_pos hasleep] at hstep
    rw [if_neg hsleeping]
    cases call with
    | wakeup cold =>
      cases hstep
      exact controls_wakeup h hasleep cold hfuel
    | _ => cases hstep
  | false =>
    rw [if_neg (by rw [hasleep]; simp)] at hstep
    rw [if_pos (h.isSleeping_iff.mpr hasleep)]
    exact controls_call h hasleep hnew hstep hfuel

theorem registered_length_le {t : SleepControl A} {call : UlpCall A}
    (hstep : c.step call = some t) : t.registered.length ≤ c.registered.length + 1 := by
  unfold SleepControl.step at hstep
  split at hstep
  · cases call <;> cases hstep
    exact Nat.le_succ _
  · cases call with
    | registerForSleep x =>
      cases hstep
      simp
    | unregisterForSleep x =>
      cases hstep
      exact Nat.le_succ_of_le List.length_erase_le
    | enter =>
      simp only [SleepControl.call] at hstep
      split at hstep <;> cases hstep <;> exact Nat.le_succ _
    | wakeup cold => cases hstep
    | _ =>
      cases hstep
      exact Nat.le_succ _

/-- The loops visit at most the callbacks that were registered, one for each call. -/
theorem controls_run {t : SleepControl A} {calls : List (UlpCall A)} (h : Controls regs s c)
    (hnew : Meets SleepControl.step SleepControl.RegistersNew c calls)
    (hrun : run SleepControl.step c calls = some t)
    (hfuel : c.registered.length + calls.length ≤ fuel) :
    (∃ s', run (Ulp.step fuel) s calls = some s' ∧ Controls regs s' t) ∧
      t.registered.length ≤ fuel := by
  induction calls generalizing s c with
  | nil =>
    cases hrun
    exact ⟨⟨s, rfl, h⟩, by simpa using hfuel⟩
  | cons call calls ih =>
    obtain ⟨c₁, hstep, hrest⟩ := run_cons_eq_some.mp hrun
    have hlen := registered_length_le hstep
    rw [List.length_cons] at hfuel
    obtain ⟨s₁, hs₁, h₁⟩ := controls_step h hnew.1 hstep (by omega : c.registered.length ≤ fuel)
    obtain ⟨⟨s', hs', h'⟩, hfit⟩ := ih h₁ (hnew.2 c₁ hstep) hrest (by omega)
    exact ⟨⟨s', run_cons_eq_some.mpr ⟨s₁, hs₁, hs'⟩, h'⟩, hfit⟩

theorem Controls.enter_spec (h : Controls regs s c) (hawake : c.asleep = false)
    (hfuel : c.registered.length ≤ fuel) :
    ∃ s', s.step fuel .enter = some s' ∧ (s'.isSleeping ≠ 0 ↔ c.MaySleep) ∧
      notified s'.events =
        if c.MaySleep then c.called ++ c.registered.map .enter else c.called := by
  have hnew : c.RegistersNew .enter := trivial
  have hstep := SleepControl.step_awake hawake .enter
  by_cases hmay : c.MaySleep
  · rw [SleepControl.call, if_pos hmay] at hstep
    obtain ⟨s', hs', h'⟩ := controls_step h hnew hstep hfuel
    refine ⟨s', hs', ?_, ?_⟩
    · rw [Ne, h'.isSleeping_iff]
      simpa using hmay
    · rw [if_pos hmay]
      exact h'.called
  · rw [SleepControl.call, if_neg hmay] at hstep
    obtain ⟨s', hs', h'⟩ := controls_step h hnew hstep hfuel
    refine ⟨s', hs', ?_, ?_⟩
    · rw [Ne, h'.isSleeping_iff, hawake]
      simpa using hmay
    · rw [if_neg hmay]
      exact h'.called

theorem Controls.wakeup_spec (h : Controls regs s c) (hasleep : c.asleep = true) (cold : CoreRegs)
    (hfuel : c.registered.length ≤ fuel) :
    ∃ s', s.step fuel (.wakeup cold) = some s' ∧ s'.isSleeping = 0 ∧ s'.regs = regs ∧
      notified s'.events = c.called ++ c.registered.map .leave := by
  have hnew : c.RegistersNew (.wakeup cold) := trivial
  obtain ⟨s', hs', h'⟩ := controls_step h hnew (SleepControl.step_wakeup hasleep cold) hfuel
  refine ⟨s', hs', h'.isSleeping_iff.mpr rfl, ?_, h'.called⟩
  have hregs := h'.regs
  rwa [if_neg (by simp [SleepControl.wakeup])] at hregs

end Steps

/-- Whatever was registered, unregistered, allowed, prevented and forced: the list holds the
registered callbacks in order with its last pointer. `enter` goes to sleep exactly where the
control may, and it calls each registered callback once on the way in; the wake-up calls each once
on the way out. -/
theorem sleep_control (pNext : A → Option A) (regs coreState : CoreRegs)
    (calls : List (UlpCall A)) (c : SleepControl A) (fuel : Nat)
    (hnew : Meets SleepControl.step SleepControl.RegistersNew .start calls)
    (hrun : run SleepControl.step .start calls = some c) (hfuel : calls.length ≤ fuel) :
    ∃ s, run (Ulp.step fuel) (Ulp.boot pNext regs coreState) calls = some s ∧
      Chain s.callbacks.pNext s.callbacks.pFirst c.registered ∧ c.registered.Nodup ∧
      s.callbacks.pLast = c.registered.getLast? ∧ notified s.events = c.called ∧
      (s.isSleeping = 0 ↔ c.asleep = false) ∧
      (c.asleep = false → ∃ s', s.step fuel .enter = some s' ∧
        (s'.isSleeping ≠ 0 ↔ c.MaySleep) ∧
        notified s'.events =
          if c.MaySleep then c.called ++ c.registered.map .enter else c.called) ∧
      (c.asleep = true → ∀ cold, ∃ s', s.step fuel (.wakeup cold) = some s' ∧
        s'.isSleeping = 0 ∧ s'.regs = regs ∧
        notified s'.events = c.called ++ c.registered.map .leave) ∧
      (c.allowed ≤ 0x800000 → c.prevented < 0x800000 →
        (c.MaySleep ↔ c.forced = false ∧ c.prevented < c.allowed)) := by
  obtain ⟨⟨s, hs, h⟩, hfit⟩ := controls_run (controls_boot pNext regs coreState) hnew hrun
    (by simpa [SleepControl.start] using hfuel)
  exact ⟨s, hs, h.callbacks.chain, h.callbacks.nodup, h.callbacks.last, h.called,
    h.isSleeping_iff, fun hawake => h.enter_spec hawake hfit,
    fun hasleep cold => h.wakeup_spec hasleep cold hfit, SleepControl.may_sleep_iff⟩

def sampleRegs : CoreRegs := ⟨1, 2, 3, 4⟩

/-- Three callbacks, one of them unregistered and one at the end again, and a nap. -/
def sampleUlpCalls : List (UlpCall Nat) :=
  [.registerForSleep 1, .registerForSleep 2, .registerForSleep 3, .unregisterForSleep 3,
    .unregisterForSleep 9, .registerForSleep 4, .serve .allowSleep, .allowSleep, .enter,
    .wakeup ⟨0, 0, 0, 0⟩, .unregisterForSleep 1, .registerForSleep 1, .allowSleep, .enter]

theorem sleep_control_sample :
    ∃ s, run (Ulp.step 14) (Ulp.boot (fun _ => none) sampleRegs sampleRegs) sampleUlpCalls =
        some s ∧
      Chain s.callbacks.pNext s.callbacks.pFirst [2, 4, 1] ∧
      notified s.events = [.enter 1, .enter 2, .enter 4, .leave 1, .leave 2, .leave 4, .enter 2,
        .enter 4, .enter 1] := by
  obtain ⟨s, hs, hchain, -, -, hcalled, -⟩ := sleep_control (fun _ => none) sampleRegs sampleRegs
    sampleUlpCalls
    ⟨[2, 4, 1], 1, 0, false, true, [.enter 1, .enter 2, .enter 4, .leave 1, .leave 2, .leave 4,
      .enter 2, .enter 4, .enter 1]⟩ 14
    (by decide) (by rfl) (by decide)
  exact ⟨s, hs, hchain, hcalled⟩

/-- A callback registered twice makes the list a loop, and two calls that allow outweigh one that
prevents. -/
theorem prevented_core_sleeps :
    (∃ s, run (Ulp.step 2) (Ulp.boot (fun _ => none) sampleRegs sampleRegs)
        [.registerForSleep 0, .registerForSleep 0] = some s ∧
      ∀ xs : List Nat, ¬ Chain s.callbacks.pNext s.callbacks.pFirst xs) ∧
    (∃ s : Ulp Nat, run (Ulp.step 5) (Ulp.boot (fun _ => none) sampleRegs sampleRegs)
        [.serve .allowSleep, .allowSleep, .allowSleep, .preventSleep, .enter] = some s ∧
      s.isSleeping = 1) := by
  refine ⟨⟨_, rfl, ?_⟩, ⟨_, rfl, rfl⟩⟩
  intro xs hchain
  cases xs with
  | nil => cases hchain
  | cons x xs =>
    have hx : x = 0 := (Option.some.inj hchain.1).symm
    subst hx
    have heq : 0 :: xs = xs := chain_unique hchain hchain.2
    exact List.cons_ne_self 0 xs heq

end Codinalte.Mpc
