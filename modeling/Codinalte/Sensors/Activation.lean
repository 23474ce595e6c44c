import Codinalte.Sensors.Threads

/-! The counters of the accelerometer and the magnetometer against what the callers of
`m_poll_activate` have enabled and not disabled again, whatever the threads do meanwhile. -/

namespace Codinalte.Sensors
open Codinalte.Machine

/-- The handles that activate the accelerometer or the magnetometer. -/
def drivers : List SensorId := [.orientation, .accelerometer, .magneticField]

/-- `outstanding` are the calls that enabled a handle and were not taken back by one that disabled
it; a call that disables a handle which is not enabled takes nothing back. -/
structure Ledger (V : Type) where
  hal : Hal V
  outstanding : Int → Nat

namespace Ledger
variable {V : Type}

def start (slot : SensorsEvent V) : Ledger V := ⟨.start slot, fun _ => 0⟩

def onDriver : HalAction V → Bool
  | .activate handle _ => drivers.any fun sensor => sensor.handle == handle
  | _ => true

def record (outstanding : Int → Nat) : HalAction V → Int → Nat
  | .activate handle true => Function.update outstanding handle (outstanding handle + 1)
  | .activate handle false => Function.update outstanding handle (outstanding handle - 1)
  | _ => outstanding

/-- The steps of the module with calls on the drivers only. -/
def step (l : Ledger V) (a : HalAction V) : Option (Ledger V) :=
  if onDriver a then (l.hal.step a).map fun hal => ⟨hal, record l.outstanding a⟩ else none

/-- What is enabled and needs the sensor. -/
def enables (l : Ledger V) (p : Polled) : Nat :=
  l.outstanding p.sensor.handle + l.outstanding SensorId.orientation.handle

def drives (handle : Int) (p : Polled) : Prop :=
  handle = p.sensor.handle ∨ handle = SensorId.orientation.handle

instance (handle : Int) (p : Polled) : Decidable (drives handle p) :=
  inferInstanceAs (Decidable (_ ∨ _))

def AllDisabled (l : Ledger V) : Prop := ∀ sensor ∈ drivers, l.outstanding sensor.handle = 0

/-- The counter does not overflow, a handle that is disabled was enabled or shares no sensor with
one that is, and the thread of a sensor which another has to follow is created. -/
def Fits (l : Ledger V) : HalAction V → Prop
  | .activate handle true => ∀ p, drives handle p → l.enables p + 1 < 4294967296
  | .activate handle false => 0 < l.outstanding handle ∨ ∀ p, drives handle p → l.enables p = 0
  | .activator created =>
    match l.hal.activator with
    | .flagCleared _ (_ :: _) => created = true
    | _ => True
  | _ => True

instance {P : Polled → Prop} [DecidablePred P] : Decidable (∀ p, P p) :=
  decidable_of_iff (P .acc ∧ P .mag)
    ⟨fun h p => by cases p; exacts [h.1, h.2], fun h => ⟨h .acc, h .mag⟩⟩

instance (l : Ledger V) : ∀ a, Decidable (l.Fits a)
  | .activate _ true => inferInstanceAs (Decidable (∀ _, _))
  | .activate _ false => inferInstanceAs (Decidable (_ ∨ _))
  | .activator created =>
    match hpc : l.hal.activator with
    | .flagCleared _ (_ :: _) => decidable_of_iff (created = true) (by unfold Fits; rw [hpc])
    | .flagCleared _ [] | .idle | .next _ _ | .threadCreated _ _ _ | .stopping _ _ | .proximity _
    | .countOpen => .isTrue (by unfold Fits; rw [hpc]; trivial)
  | .thread _ _ _ | .other _ _ | .poll | .spuriousWakeUp | .reader => .isTrue trivial

end Ledger

namespace ActivatePc

/-- The sensors whose counter the call has still to change. -/
def pending : ActivatePc → List Polled
  | .next _ rest | .stopping _ rest => rest
  | .flagCleared p rest | .threadCreated p true rest => p :: rest
  | .threadCreated p false _ => [p]
  | _ => []

def enabling : ActivatePc → Bool
  | .next enable _ => enable
  | .flagCleared _ _ | .threadCreated _ _ _ => true
  | _ => false

end ActivatePc

variable {V : Type} {l l' : Ledger V} {p : Polled}

structure CountInv (l : Ledger V) : Prop where
  once : l.hal.activator.pending.Nodup
  counted : ∀ p, p ∉ l.hal.activator.pending → l.hal.count p = l.enables p
  toCount : ∀ p ∈ l.hal.activator.pending, l.hal.activator.enabling = true →
    l.hal.count p + 1 = l.enables p ∧ l.enables p < 4294967296
  toDiscount : ∀ p ∈ l.hal.activator.pending, l.hal.activator.enabling = false →
    l.hal.count p - 1 = l.enables p
  told : ∀ p, l.hal.activator.current ≠ some p → l.hal.count p = 0 → 0 < l.hal.created p →
    l.hal.exitFlag p = true
  noProximity : l.hal.countProx = 0 ∧ ∀ enable, l.hal.activator ≠ .proximity enable

theorem count_inv_start (slot : SensorsEvent V) : CountInv (Ledger.start slot) where
  once := List.nodup_nil
  counted := fun _ _ => rfl
  toCount := fun _ hp => by cases hp
  toDiscount := fun _ hp => by cases hp
  told := fun _ _ _ hpos => by cases hpos
  noProximity := ⟨rfl, fun _ h => by cases h⟩

/-- The counters, flags and the call are as they were. -/
structure Unmoved (s t : Hal V) : Prop where
  activator : t.activator = s.activator
  count : t.count = s.count
  countProx : t.countProx = s.countProx
  exitFlag : t.exitFlag = s.exitFlag
  created : t.created = s.created

theorem CountInv.unmoved (hinv : CountInv l) (h : Unmoved l.hal l'.hal)
    (hrecord : l'.outstanding = l.outstanding) : CountInv l' := by
  have henables : ∀ p, l'.enables p = l.enables p := by
    intro p
    unfold Ledger.enables
    rw [hrecord]
  refine ⟨?_, ?_, ?_, ?_, ?_, ?_⟩
  · rw [h.activator]
    exact hinv.once
  · intro p
    rw [h.activator, h.count, henables]
    exact hinv.counted p
  · intro p
    rw [h.activator, h.count, henables]
    exact hinv.toCount p
  · intro p
    rw [h.activator, h.count, henables]
    exact hinv.toDiscount p
  · intro p
    rw [h.activator, h.count, h.created, h.exitFlag]
    exact hinv.told p
  · rw [h.countProx, h.activator]
    exact hinv.noProximity

theorem unmoved_of_other {s t : Hal V} {a : HalAction V} (h : s.step a = some t)
    (hactivate : ∀ handle enabled, a ≠ .activate handle enabled)
    (hactivator : ∀ created, a ≠ .activator created) : Unmoved s t := by
  cases a with
  | activate handle enabled => exact absurd rfl (hactivate handle enabled)
  | activator created => exact absurd rfl (hactivator created)
  | thread p i read =>
    have hprox : t.countProx = s.countProx := by
      change s.stepThread p i read = some t at h
      unfold Hal.stepThread at h
      split at h
      · cases h
      · cases h
      · cases h
        rfl
      · split at h <;> cases h <;> rfl
      · cases h
        rfl
    have hstep := thread_step h
    exact ⟨hstep.activator, hstep.count, hprox, hstep.exitFlag, hstep.created⟩
  | other thread values =>
    cases h
    exact ⟨rfl, rfl, rfl, rfl, rfl⟩
  | poll =>
    obtain ⟨-, heq⟩ := Option.ite_none_right_eq_some.mp h
    cases heq
    unfold Hal.poll
    split_ifs <;> exact ⟨rfl, rfl, rfl, rfl, rfl⟩
  | spuriousWakeUp | reader =>
    obtain ⟨-, heq⟩ := Option.ite_none_right_eq_some.mp h
    cases heq
    exact ⟨rfl, rfl, rfl, rfl, rfl⟩

section Call
variable {s t : Hal V} {outstanding : Int → Nat} {rest : List Polled}

/-- One counter is changed as was to be done, and the call goes on to the other. -/
theorem CountInv.set_count {value : Nat} {pc : ActivatePc} (hinv : CountInv ⟨s, outstanding⟩)
    (hpending : s.activator.pending = p :: rest) (hpc : pc.pending = rest)
    (henabling : rest ≠ [] → pc.enabling = s.activator.enabling)
    (hcurrent : ∀ q, q ≠ p → s.activator.current ≠ some q)
    (hprox : ∀ enable, pc ≠ .proximity enable)
    (hvalue : value = Ledger.enables ⟨s, outstanding⟩ p)
    (htold : pc.current ≠ some p → value = 0 → 0 < s.created p → s.exitFlag p = true) :
    CountInv ⟨s.setCount p value pc, outstanding⟩ := by
  have honce := hinv.once
  have hcounted := hinv.counted
  have htoCount := hinv.toCount
  have htoDiscount := hinv.toDiscount
  simp only [hpending] at honce hcounted htoCount htoDiscount
  obtain ⟨hnotin, honce⟩ := List.nodup_cons.mp honce
  have hother : ∀ q, q ≠ p → Function.update s.count p value q = s.count q :=
    fun q hne => Function.update_of_ne hne _ _
  have hne_of_mem : ∀ q ∈ rest, q ≠ p := fun q hq heq => hnotin (heq ▸ hq)
  refine ⟨?_, ?_, ?_, ?_, ?_, hinv.noProximity.1, hprox⟩
  · show pc.pending.Nodup
    rwa [hpc]
  · intro q hq
    change q ∉ pc.pending at hq
    rw [hpc] at hq
    show Function.update s.count p value q = _
    by_cases heq : q = p
    · subst heq
      rw [Function.update_self]
      exact hvalue
    · rw [hother q heq]
      exact hcounted q (List.not_mem_cons_of_ne_of_not_mem heq hq)
  · intro q hq henable
    change q ∈ pc.pending at hq
    rw [hpc] at hq
    change pc.enabling = true at henable
    rw [henabling (List.ne_nil_of_mem hq)] at henable
    show Function.update s.count p value q + 1 = _ ∧ _
    rw [hother q (hne_of_mem q hq)]
    exact htoCount q (List.mem_cons_of_mem _ hq) henable
  · intro q hq henable
    change q ∈ pc.pending at hq
    rw [hpc] at hq
    change pc.enabling = false at henable
    rw [henabling (List.ne_nil_of_mem hq)] at henable
    show Function.update s.count p value q - 1 = _
    rw [hother q (hne_of_mem q hq)]
    exact htoDiscount q (List.mem_cons_of_mem _ hq) henable
  · intro q hq
    show Function.update s.count p value q = 0 → _
    by_cases heq : q = p
    · subst heq
      rw [Function.update_self]
      exact htold hq
    · rw [hother q heq]
      exact hinv.told q (hcurrent q heq)

/-- The call goes on and has the same left to do. -/
theorem CountInv.move (hinv : CountInv ⟨s, outstanding⟩) (hcount : t.count = s.count)
    (hcountProx : t.countProx = s.countProx) (hpending : t.activator.pending = s.activator.pending)
    (henabling : s.activator.pending ≠ [] → t.activator.enabling = s.activator.enabling)
    (htold : ∀ q, t.activator.current ≠ some q → s.count q = 0 → 0 < t.created q →
      t.exitFlag q = true)
    (hprox : ∀ enable, t.activator ≠ .proximity enable) : CountInv ⟨t, outstanding⟩ := by
  refine ⟨?_, ?_, ?_, ?_, ?_, ?_, hprox⟩
  · show t.activator.pending.Nodup
    rw [hpending]
    exact hinv.once
  · intro q hq
    change q ∉ t.activator.pending at hq
    rw [hpending] at hq
    show t.count q = _
    rw [hcount]
    exact hinv.counted q hq
  · intro q hq henable
    change q ∈ t.activator.pending at hq
    rw [hpending] at hq
    change t.activator.enabling = true at henable
    rw [henabling (List.ne_nil_of_mem hq)] at henable
    show t.count q + 1 = _ ∧ _
    rw [hcount]
    exact hinv.toCount q hq henable
  · intro q hq henable
    change q ∈ t.activator.pending at hq
    rw [hpending] at hq
    change t.activator.enabling = false at henable
    rw [henabling (List.ne_nil_of_mem hq)] at henable
    show t.count q - 1 = _
    rw [hcount]
    exact hinv.toDiscount q hq henable
  · intro q hq
    show t.count q = 0 → _
    rw [hcount]
    exact htold q hq
  · show t.countProx = 0
    rw [hcountProx]
    exact hinv.noProximity.1

theorem countUp_of_lt {count total : Nat} (h : count + 1 = total ∧ total < 4294967296) :
    countUp count = total := by
  unfold countUp
  omega

theorem next_inv {enable : Bool} (hinv : CountInv ⟨s, outstanding⟩)
    (hpc : s.activator = .next enable (p :: rest)) :
    CountInv ⟨s.activateNext enable p rest, outstanding⟩ := by
  have hpending : s.activator.pending = p :: rest := by rw [hpc]; rfl
  have henabling : s.activator.enabling = enable := by rw [hpc]; rfl
  have hcurrent : ∀ q, s.activator.current ≠ some q := by
    rw [hpc]
    exact fun _ h => nomatch h
  have hmem : p ∈ s.activator.pending := by
    rw [hpending]
    exact List.mem_cons_self ..
  unfold Hal.activateNext
  cases enable with
  | true =>
    have hup : s.count p + 1 = _ ∧ _ := hinv.toCount p hmem henabling
    rw [if_pos rfl]
    split_ifs with hzero
    · refine hinv.move rfl rfl hpending.symm (fun _ => henabling.symm) ?_ (fun _ h => nomatch h)
      intro q hq hcount hcreated
      have hne : q ≠ p := fun heq => hq (congrArg some heq.symm)
      show Function.update s.exitFlag p false q = true
      rw [Function.update_of_ne hne]
      exact hinv.told q (hcurrent q) hcount hcreated
    · exact hinv.set_count hpending rfl (fun _ => henabling.symm) (fun q _ => hcurrent q)
        (fun _ h => nomatch h)
        (countUp_of_lt hup) fun _ hvalue => by rw [countUp_of_lt hup] at hvalue; omega
  | false =>
    have hdown : s.count p - 1 = _ := hinv.toDiscount p hmem henabling
    rw [if_neg Bool.false_ne_true]
    split_ifs with hzero hone
    · have hsame : ({ s with activator := .next false rest } : Hal V) =
          s.setCount p (s.count p) (.next false rest) := by
        unfold Hal.setCount
        rw [Function.update_eq_self]
      rw [hsame]
      refine hinv.set_count hpending rfl (fun _ => henabling.symm) (fun q _ => hcurrent q)
        (fun _ h => nomatch h)
        ?_ fun _ => hinv.told p (hcurrent p)
      omega
    · exact hinv.set_count hpending rfl (fun hne => henabling.symm) (fun q _ => hcurrent q)
        (fun _ h => nomatch h)
        hdown fun hne => absurd rfl hne
    · exact hinv.set_count hpending rfl (fun _ => henabling.symm) (fun q _ => hcurrent q)
        (fun _ h => nomatch h)
        hdown fun _ hvalue => by omega

theorem activator_count_inv {created : Bool} (hinv : CountInv ⟨s, outstanding⟩)
    (hfits : Ledger.Fits ⟨s, outstanding⟩ (.activator created))
    (h : s.stepActivator created = some t) : CountInv ⟨t, outstanding⟩ := by
  unfold Hal.stepActivator at h
  unfold Ledger.Fits at hfits
  have htold : ∀ q, s.activator.current ≠ some q → s.count q = 0 → 0 < s.created q →
      s.exitFlag q = true := hinv.told
  split at h
  · cases h
  next enable q rest hpc =>
    cases h
    exact next_inv hinv hpc
  next enable hpc =>
    cases h
    refine hinv.move rfl rfl (by rw [hpc]; rfl) ?_ ?_ (fun _ h => nomatch h)
    · rw [hpc]
      exact fun hne => absurd rfl hne
    · rw [hpc] at htold
      exact fun q _ => htold q (fun h => nomatch h)
  next q rest hpc =>
    cases h
    rw [hpc] at htold
    unfold Hal.createThread
    cases created with
    | true =>
      refine hinv.move rfl rfl (by rw [hpc]; rfl) (fun _ => by rw [hpc]; rfl) ?_
        (fun _ h => nomatch h)
      intro other hother hcount hcreated
      have hne : other ≠ q := fun heq => hother (congrArg some heq.symm)
      change 0 < Function.update s.created q (s.created q + 1) other at hcreated
      rw [Function.update_of_ne hne] at hcreated
      exact htold other hother hcount hcreated
    | false =>
      simp only [hpc] at hfits
      cases rest with
      | nil =>
        exact hinv.move rfl rfl (by rw [hpc]; rfl) (fun _ => by rw [hpc]; rfl) htold
          (fun _ h => nomatch h)
      | cons => cases hfits
  next q ok rest hpc =>
    cases h
    have hpending : s.activator.pending = q :: if ok then rest else [] := by
      rw [hpc]
      cases ok <;> rfl
    have henabling : s.activator.enabling = true := by rw [hpc]; rfl
    have hmem : q ∈ s.activator.pending := by
      rw [hpending]
      exact List.mem_cons_self ..
    have hup : s.count q + 1 = _ ∧ _ := hinv.toCount q hmem henabling
    refine hinv.set_count hpending rfl (fun _ => henabling.symm) ?_ (fun _ h => nomatch h)
      (countUp_of_lt hup) ?_
    · rw [hpc]
      exact fun other hne heq => hne (Option.some.inj heq).symm
    · intro _ hvalue
      rw [countUp_of_lt hup] at hvalue
      omega
  next q rest hpc =>
    cases h
    refine hinv.move rfl rfl (by rw [hpc]; rfl) (fun _ => by rw [hpc]; rfl) ?_
      (fun _ h => nomatch h)
    intro other _ hcount hcreated
    show Function.update s.exitFlag q true other = true
    by_cases heq : other = q
    · rw [heq, Function.update_self]
    · rw [Function.update_of_ne heq]
      rw [hpc] at htold
      exact htold other (fun h => heq (Option.some.inj h).symm) hcount hcreated
  next enable hpc => exact absurd hpc (hinv.noProximity.2 enable)
  next hpc =>
    cases h
    rw [hpc] at htold
    unfold Hal.countOpenSensors
    split_ifs
    all_goals
      refine hinv.move rfl rfl (by rw [hpc]; rfl) ?_ (fun q _ => htold q (fun h => nomatch h))
        (fun _ h => nomatch h)
      rw [hpc]
      exact fun hne => absurd rfl hne

theorem activate_start_driver {handle : Int} {enabled : Bool}
    (hdriver : Ledger.onDriver (.activate handle enabled : HalAction V) = true) :
    ∃ rest, Hal.activateStart handle enabled = .next enabled rest ∧ rest.Nodup ∧
      ∀ p, p ∈ rest ↔ Ledger.drives handle p := by
  obtain ⟨sensor, hsensor, heq⟩ := List.any_eq_true.mp hdriver
  have hhandle : sensor.handle = handle := by simpa using heq
  subst hhandle
  unfold Ledger.drives
  have hcases : sensor = .orientation ∨ sensor = .accelerometer ∨ sensor = .magneticField := by
    simpa [drivers] using hsensor
  rcases hcases with rfl | rfl | rfl
  · refine ⟨[.acc, .mag], rfl, by decide, ?_⟩
    intro p
    cases p <;> decide
  · refine ⟨[.acc], rfl, by decide, ?_⟩
    intro p
    cases p <;> decide
  · refine ⟨[.mag], rfl, by decide, ?_⟩
    intro p
    cases p <;> decide

theorem not_orientation (p : Polled) : p.sensor.handle ≠ SensorId.orientation.handle := by
  cases p <;> decide

/-- A change at one handle changes what is enabled for the sensors it drives alone. -/
theorem enables_update (handle : Int) (value : Nat) (p : Polled) :
    Ledger.enables ⟨s, Function.update outstanding handle value⟩ p =
      if Ledger.drives handle p then
        Ledger.enables ⟨s, outstanding⟩ p - outstanding handle + value
      else Ledger.enables ⟨s, outstanding⟩ p := by
  unfold Ledger.enables
  dsimp only
  have hne := not_orientation p
  by_cases hown : handle = p.sensor.handle
  · subst hown
    rw [if_pos (.inl rfl), Function.update_self, Function.update_of_ne hne.symm]
    omega
  · rw [Function.update_of_ne (Ne.symm hown)]
    by_cases horientation : handle = SensorId.orientation.handle
    · subst horientation
      rw [if_pos (.inr rfl), Function.update_self]
      omega
    · have hnot : ¬ Ledger.drives handle p := not_or.mpr ⟨hown, horientation⟩
      rw [Function.update_of_ne (Ne.symm horientation), if_neg hnot]

theorem outstanding_le_enables {handle : Int} (hdrives : Ledger.drives handle p) :
    outstanding handle ≤ Ledger.enables ⟨s, outstanding⟩ p := by
  unfold Ledger.enables
  rcases hdrives with rfl | rfl <;> dsimp only <;> omega

theorem activate_count_inv {handle : Int} {enabled : Bool} (hinv : CountInv ⟨s, outstanding⟩)
    (hdriver : Ledger.onDriver (.activate handle enabled : HalAction V) = true)
    (hfits : Ledger.Fits ⟨s, outstanding⟩ (.activate handle enabled))
    (hidle : s.activator = .idle) :
    CountInv ⟨{ s with activator := Hal.activateStart handle enabled },
      Ledger.record outstanding (.activate handle enabled : HalAction V)⟩ := by
  obtain ⟨rest, hstart, honce, hmem⟩ := activate_start_driver hdriver
  rw [hstart]
  have hcount : ∀ q, s.count q = Ledger.enables ⟨s, outstanding⟩ q := by
    intro q
    refine hinv.counted q ?_
    rw [hidle]
    exact List.not_mem_nil
  have hcurrent : ∀ q, s.activator.current ≠ some q := by
    rw [hidle]
    exact fun _ h => nomatch h
  have hrecord : Ledger.record outstanding (.activate handle enabled : HalAction V) =
      Function.update outstanding handle
        (if enabled then outstanding handle + 1 else outstanding handle - 1) := by
    cases enabled <;> rfl
  rw [hrecord]
  refine ⟨honce, ?_, ?_, ?_, fun q _ => hinv.told q (hcurrent q), hinv.noProximity.1,
    fun _ h => nomatch h⟩
  · intro q hq
    have hnot : ¬ Ledger.drives handle q := fun hdrives => hq ((hmem q).mpr hdrives)
    rw [enables_update, if_neg hnot]
    exact hcount q
  · intro q hq henable
    have hdrives : Ledger.drives handle q := (hmem q).mp hq
    change enabled = true at henable
    subst henable
    have hle : outstanding handle ≤ Ledger.enables ⟨s, outstanding⟩ q :=
      outstanding_le_enables hdrives
    have hlt : Ledger.enables ⟨s, outstanding⟩ q + 1 < 4294967296 := hfits q hdrives
    rw [enables_update, if_pos hdrives, if_pos rfl]
    show s.count q + 1 = _ ∧ _
    rw [hcount q]
    constructor
    · change Ledger.enables ⟨s, outstanding⟩ q + 1 =
        Ledger.enables ⟨s, outstanding⟩ q - outstanding handle + (outstanding handle + 1)
      omega
    · change Ledger.enables ⟨s, outstanding⟩ q - outstanding handle + (outstanding handle + 1) < _
      omega
  · intro q hq henable
    have hdrives : Ledger.drives handle q := (hmem q).mp hq
    change enabled = false at henable
    subst henable
    have hle : outstanding handle ≤ Ledger.enables ⟨s, outstanding⟩ q :=
      outstanding_le_enables hdrives
    rw [enables_update, if_pos hdrives, if_neg Bool.false_ne_true]
    show s.count q - 1 = _
    rw [hcount q]
    change Ledger.enables ⟨s, outstanding⟩ q - 1 =
      Ledger.enables ⟨s, outstanding⟩ q - outstanding handle + (outstanding handle - 1)
    rcases hfits with hpos | hzero
    · change 0 < outstanding handle at hpos
      omega
    · have hnone := hzero q hdrives
      omega

end Call

theorem count_inv_step {a : HalAction V} (hinv : CountInv l) (hfits : l.Fits a)
    (h : l.step a = some l') : CountInv l' := by
  obtain ⟨hdriver, hstep⟩ := Option.ite_none_right_eq_some.mp h
  obtain ⟨t, hhal, rfl⟩ := Option.map_eq_some_iff.mp hstep
  cases a with
  | activate handle enabled =>
    obtain ⟨hidle, heq⟩ := Option.ite_none_right_eq_some.mp hhal
    cases heq
    exact activate_count_inv hinv hdriver hfits hidle
  | activator created => exact activator_count_inv hinv hfits hhal
  | thread | other | poll | spuriousWakeUp | reader =>
    exact hinv.unmoved (unmoved_of_other hhal (fun _ _ h => nomatch h) (fun _ h => nomatch h)) rfl

theorem count_inv_run {slot : SensorsEvent V} {as : List (HalAction V)}
    (hfits : Meets Ledger.step Ledger.Fits (.start slot) as)
    (hrun : run Ledger.step (.start slot) as = some l) : CountInv l :=
  run_induction_of_meets (P := CountInv) (fun _ _ _ hinv hfits hstep =>
    count_inv_step hinv hfits hstep) (count_inv_start slot) hfits hrun

theorem all_disabled_enables (hdisabled : l.AllDisabled) (p : Polled) : l.enables p = 0 := by
  have hdriver : p.sensor ∈ drivers := by cases p <;> decide
  have hown := hdisabled p.sensor hdriver
  have horientation := hdisabled .orientation (List.mem_cons_self ..)
  unfold Ledger.enables
  omega

/-- The step a call returns with counts the open sensors. -/
theorem returns_from_count {s t : Hal V} {created : Bool} (h : s.stepActivator created = some t)
    (hidle : t.activator = .idle) : s.activator = .countOpen ∧ t = s.countOpenSensors := by
  unfold Hal.stepActivator at h
  split at h
  · cases h
  · cases h
    unfold Hal.activateNext Hal.setCount at hidle
    split_ifs at hidle
  · cases h
    cases hidle
  · cases h
    unfold Hal.createThread at hidle
    split_ifs at hidle
  · cases h
    cases hidle
  · cases h
    cases hidle
  · cases h
    cases hidle
  next hpc =>
    cases h
    exact ⟨hpc, rfl⟩

theorem queue_cleared {created : Bool} (hinv : CountInv l)
    (h : l.step (.activator created) = some l') (hidle : l'.hal.activator = .idle)
    (hdisabled : l'.AllDisabled) : l'.hal.queue.length = 0 := by
  obtain ⟨-, hstep⟩ := Option.ite_none_right_eq_some.mp h
  obtain ⟨t, hhal, rfl⟩ := Option.map_eq_some_iff.mp hstep
  obtain ⟨hpc, rfl⟩ := returns_from_count hhal hidle
  have hzero : ∀ p, l.hal.count p = 0 := by
    intro p
    have hcount : l.hal.count p = l.enables p := by
      refine hinv.counted p ?_
      rw [hpc]
      exact List.not_mem_nil
    exact hcount.trans (all_disabled_enables (l := l) hdisabled p)
  have hsum : (l.hal.count .acc + l.hal.count .mag + l.hal.countProx) % 4294967296 = 0 := by
    rw [hzero, hzero, hinv.noProximity.1]
  dsimp only
  unfold Hal.countOpenSensors
  rw [if_pos hsum]
  rfl

/-- While the calls fit the counters, each counter is what is enabled of its sensor whenever no call
is under way; with all disabled again both are zero, the threads that were started are told to exit,
and the call that came to this leaves the queue empty. -/
theorem counts_match (slot : SensorsEvent V) (as : List (HalAction V)) (l : Ledger V)
    (hrun : run Ledger.step (.start slot) as = some l)
    (hfits : Meets Ledger.step Ledger.Fits (.start slot) as) :
    (l.hal.activator = .idle → (∀ p, l.hal.count p = l.enables p) ∧
      (l.AllDisabled →
        ∀ p, l.hal.count p = 0 ∧ (0 < l.hal.created p → l.hal.exitFlag p = true))) ∧
    ∀ created l', l.step (.activator created) = some l' → l'.hal.activator = .idle →
      l'.AllDisabled → l'.hal.queue.length = 0 := by
  have hinv : CountInv l := count_inv_run hfits hrun
  constructor
  · intro hidle
    have hcount : ∀ p, l.hal.count p = l.enables p := by
      intro p
      refine hinv.counted p ?_
      rw [hidle]
      exact List.not_mem_nil
    refine ⟨hcount, fun hdisabled p => ?_⟩
    have hzero : l.hal.count p = 0 := (hcount p).trans (all_disabled_enables hdisabled p)
    refine ⟨hzero, hinv.told p ?_ hzero⟩
    rw [hidle]
    exact fun h => nomatch h
  · intro created l' hstep hidle hdisabled
    exact queue_cleared hinv hstep hidle hdisabled

/-- Orientation and the magnetometer are enabled and disabled again; a thread queues an event
meanwhile. The last call has still to return. -/
def sampleCalls : List (HalAction Nat) :=
  .activate 2 true :: List.replicate 8 (.activator true) ++
    .activate 1 true :: List.replicate 3 (.activator true) ++
    [.thread .mag 0 none, .thread .mag 0 (some 5), .thread .mag 0 none] ++
    .activate 2 false :: List.replicate 5 (.activator true) ++
    .activate 1 false :: List.replicate 3 (.activator true)

theorem counts_match_sample :
    ∃ l l', run Ledger.step (.start ⟨0, 0⟩) sampleCalls = some l ∧ l.hal.queue.length = 1 ∧
      l.step (.activator true) = some l' ∧ l'.hal.queue.length = 0 ∧
      ∀ p, l'.hal.count p = 0 ∧ (0 < l'.hal.created p → l'.hal.exitFlag p = true) := by
  have hrun : ∃ l l', run Ledger.step (.start ⟨0, 0⟩) sampleCalls = some l ∧
      l.step (.activator true) = some l' ∧ l.hal.queue.length = 1 ∧
      l'.hal.activator = .idle ∧ ∀ sensor ∈ drivers, l'.outstanding sensor.handle = 0 :=
    ⟨_, _, rfl, rfl, rfl, rfl, by decide⟩
  obtain ⟨l, l', hrun, hstep, hqueued, hidle, hdisabled⟩ := hrun
  have hfits : Meets Ledger.step Ledger.Fits (.start ⟨0, 0⟩)
      (sampleCalls ++ [.activator true]) := by decide
  have hfits' : Meets Ledger.step Ledger.Fits (.start ⟨0, 0⟩) sampleCalls := by decide
  obtain ⟨-, hreturn⟩ := counts_match ⟨0, 0⟩ _ l hrun hfits'
  obtain ⟨hall, -⟩ := counts_match ⟨0, 0⟩ _ l' (run_snoc hrun hstep) hfits
  exact ⟨l, l', hrun, hqueued, hstep, hreturn true l' hstep hidle hdisabled,
    (hall hidle).2 hdisabled⟩

/-- The accelerometer's thread cannot be created: orientation is enabled and the magnetometer not
counted. And a call that disables the accelerometer, which nobody enabled, takes it from the
orientation. -/
theorem counts_apart :
    (∃ l, run Ledger.step (.start (⟨0, 0⟩ : SensorsEvent Nat))
        [.activate 2 true, .activator true, .activator false, .activator true, .activator true,
          .activator true] = some l ∧
      l.hal.activator = .idle ∧ l.enables .mag = 1 ∧ l.hal.count .mag = 0) ∧
    ∃ l, run Ledger.step (.start (⟨0, 0⟩ : SensorsEvent Nat))
        (.activate 2 true :: List.replicate 8 (.activator true) ++
          .activate 0 false :: List.replicate 4 (.activator true)) = some l ∧
      l.hal.activator = .idle ∧ l.enables .acc = 1 ∧ l.hal.count .acc = 0 ∧
      l.hal.exitFlag .acc = true :=
  ⟨⟨_, rfl, rfl, rfl, rfl⟩, _, rfl, rfl, rfl, rfl, rfl⟩

end Codinalte.Sensors
