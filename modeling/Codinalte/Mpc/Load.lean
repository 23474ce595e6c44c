import Codinalte.Lib.Machine
import Mathlib.Algebra.Group.Nat.Defs

/-! The load meter of the media processor. A counter is read in two halves, and its ticks are added
up while the processor is not idle. An `unsigned long` has 48 bits, a `t_uint56` has 56. -/

namespace Codinalte.Mpc
open Codinalte.Machine

def unsignedLong (x : Nat) : Nat := x % 281474976710656

def uint56 (x : Nat) : Nat := x % 72057594037927936

/-- `~` of an `unsigned long`. -/
def complement (x : Nat) : Nat := 281474976710655 - x

/-- The high part of the counter as the register shows it, counting down. -/
def prcmuShVar4 (ticks : Nat) : Nat := 4294967295 - ticks / 4294967296 % 4294967296

/-- The low part of the counter as the register shows it, counting down. -/
def prcmuTimer4Downcount (ticks : Nat) : Nat := 4294967295 - ticks % 4294967296

/-- The counter at the three reads. -/
structure Reading where
  first : Nat
  middle : Nat
  last : Nat
deriving DecidableEq

def Reading.InTime (r : Reading) : Prop :=
  r.first ≤ r.middle ∧ r.middle ≤ r.last ∧ r.last ≤ r.first + 2147483648

instance (r : Reading) : Decidable r.InTime := inferInstanceAs (Decidable (_ ∧ _ ∧ _))

def getCurrentTimerValue (r : Reading) : Nat :=
  let msbBefore := complement (prcmuShVar4 r.first)
  let lsb := complement (prcmuTimer4Downcount r.middle) &&& 0xffffffff
  let msbAfter := complement (prcmuShVar4 r.last)
  if msbBefore = msbAfter ∨ 0x80000000 ≤ lsb then
    unsignedLong (unsignedLong ((msbBefore &&& 0xffffff) <<< 32) + lsb)
  else unsignedLong (unsignedLong ((msbAfter &&& 0xffffff) <<< 32) + lsb)

inductive LoadState where
  | idle
  | load
deriving DecidableEq

def LoadState.value : LoadState → Nat
  | .idle => 0
  | .load => 1

/-- The static variables of `switchState` and the words behind `perfmeterDataAddr`. -/
structure PerfMeter where
  state : LoadState
  counter : Nat
  totalLoadCounter : Nat
  lastEvent : Nat
  pData : List Nat
deriving DecidableEq

/-- Sixteen bits of a value, as they are exported behind the number of the update. -/
def exported (counter value shift : Nat) : Nat :=
  (counter <<< 16 + (value >>> shift &&& 0xffff)) % 16777216

def switchState (m : PerfMeter) (newState : LoadState) (r : Reading) : PerfMeter :=
  let timerValue := getCurrentTimerValue r
  let totalLoadCounter :=
    if m.state = .load then
      uint56 (m.totalLoadCounter + uint56 (timerValue + 72057594037927936 - m.lastEvent))
    else m.totalLoadCounter
  let counter := (m.counter + 1) &&& 0xff
  { state := newState
    counter
    totalLoadCounter
    lastEvent := timerValue
    pData :=
      [exported counter totalLoadCounter 32, exported counter totalLoadCounter 16,
        exported counter totalLoadCounter 0, exported counter timerValue 32,
        exported counter timerValue 16, exported counter timerValue 0,
        (counter <<< 16 + newState.value) % 16777216] }

/-- A run of the calls: the meter, the counter at the last read and at the middle read of the last
call, and the ticks of the intervals that began in the load state. -/
structure LoadRun where
  meter : PerfMeter
  now : Nat
  since : Nat
  loaded : Nat
deriving DecidableEq

/-- The static variables begin in the load state at 0. -/
def LoadRun.start : LoadRun := ⟨⟨.load, 0, 0, 0, []⟩, 0, 0, 0⟩

/-- `mpcload_SetIdleState` and `mpcload_SetLoadState`, with the instants of the reads. -/
def LoadRun.step (s : LoadRun) (call : LoadState × Reading) : Option LoadRun :=
  if s.now ≤ call.2.first ∧ call.2.InTime then
    some {
      meter := switchState s.meter call.1 call.2
      now := call.2.last
      since := call.2.middle
      loaded := s.loaded + (if s.meter.state = .load then call.2.middle - s.since else 0) }
  else none

theorem low_part (ticks : Nat) :
    complement (prcmuTimer4Downcount ticks) &&& 0xffffffff = ticks % 4294967296 := by
  have hmask : complement (prcmuTimer4Downcount ticks) &&& 0xffffffff =
      complement (prcmuTimer4Downcount ticks) % 4294967296 := Nat.and_two_pow_sub_one_eq_mod _ 32
  rw [hmask]
  unfold complement prcmuTimer4Downcount
  omega

/-- The mask keeps 24 bits of the high part, the shift only 16 of them. -/
theorem high_part (ticks : Nat) :
    unsignedLong ((complement (prcmuShVar4 ticks) &&& 0xffffff) <<< 32) =
      ticks / 4294967296 % 65536 * 4294967296 := by
  have hmask : complement (prcmuShVar4 ticks) &&& 0xffffff =
      complement (prcmuShVar4 ticks) % 16777216 := Nat.and_two_pow_sub_one_eq_mod _ 24
  have hbits : complement (prcmuShVar4 ticks) % 16777216 = ticks / 4294967296 % 16777216 := by
    unfold complement prcmuShVar4
    omega
  rw [hmask, hbits, Nat.shiftLeft_eq]
  unfold unsignedLong
  omega

theorem high_part_eq {ticks ticks' : Nat} (hle : ticks ≤ ticks')
    (hclose : ticks' ≤ ticks + 2147483648) :
    complement (prcmuShVar4 ticks) = complement (prcmuShVar4 ticks') ↔
      ticks / 4294967296 = ticks' / 4294967296 := by
  unfold complement prcmuShVar4
  omega

/-- The high part that is chosen is the one of the middle read. -/
theorem get_current_timer_value_eq {r : Reading} (h : r.InTime) :
    getCurrentTimerValue r = r.middle % 281474976710656 := by
  obtain ⟨hfirst, hlast, hclose⟩ := h
  have hsame := high_part_eq (Nat.le_trans hfirst hlast) hclose
  unfold getCurrentTimerValue
  dsimp only
  rw [low_part, high_part, high_part]
  unfold unsignedLong
  split
  · next hbefore =>
    rw [hsame] at hbefore
    have hhigh : r.first / 4294967296 = r.middle / 4294967296 := by omega
    rw [hhigh]
    omega
  · next hafter =>
    rw [hsame] at hafter
    have hhigh : r.last / 4294967296 = r.middle / 4294967296 := by omega
    rw [hhigh]
    omega

/-- The value has 48 bits of the counter, where 56 are wanted. -/
theorem timer_value_iff {r : Reading} (h : r.InTime) :
    getCurrentTimerValue r = r.middle % 72057594037927936 ↔
      r.middle % 72057594037927936 < 281474976710656 := by
  rw [get_current_timer_value_eq h]
  omega

/-- The counter has not gone past 48 bits. -/
def FitsLong (_ : LoadRun) (call : LoadState × Reading) : Prop :=
  call.2.middle < 281474976710656

instance (s : LoadRun) (call : LoadState × Reading) : Decidable (FitsLong s call) :=
  inferInstanceAs (Decidable (_ < _))

structure LoadInv (s : LoadRun) : Prop where
  lastEvent : s.meter.lastEvent = s.since
  total : s.meter.totalLoadCounter = s.loaded
  loaded : s.loaded ≤ s.since
  since : s.since ≤ s.now
  fits : s.since < 281474976710656

theorem load_inv_step {s t : LoadRun} {call : LoadState × Reading} (h : LoadInv s)
    (hfits : FitsLong s call) (hstep : s.step call = some t) :
    LoadInv t ∧ s.meter.totalLoadCounter ≤ t.meter.totalLoadCounter := by
  obtain ⟨⟨hnow, htime⟩, heq⟩ := Option.ite_none_right_eq_some.mp hstep
  obtain ⟨hlastEvent, htotal, hloaded, hsince, hbound⟩ := h
  have hvalue : getCurrentTimerValue call.2 = call.2.middle := by
    rw [get_current_timer_value_eq htime]
    exact Nat.mod_eq_of_lt hfits
  obtain ⟨hfirst, hlast, -⟩ := htime
  have hmiddle : call.2.middle < 281474976710656 := hfits
  cases heq
  cases hstate : s.meter.state with
  | idle =>
    have hkept : (switchState s.meter call.1 call.2).totalLoadCounter =
        s.meter.totalLoadCounter := by
      simp only [switchState, hstate, reduceCtorEq, if_false]
    refine ⟨⟨hvalue, ?_, ?_, hlast, hmiddle⟩, Nat.le_of_eq hkept.symm⟩
    · rw [hkept, htotal]
      simp only [reduceCtorEq, if_false, Nat.add_zero]
    · simp only [reduceCtorEq, if_false, Nat.add_zero]
      omega
  | load =>
    have hadded : (switchState s.meter call.1 call.2).totalLoadCounter =
        s.meter.totalLoadCounter + (call.2.middle - s.since) := by
      simp only [switchState, hstate, if_true, hvalue, hlastEvent, uint56]
      omega
    refine ⟨⟨hvalue, ?_, ?_, hlast, hmiddle⟩, ?_⟩
    · rw [hadded, htotal]
      simp only [if_true]
    · simp only [if_true]
      omega
    · rw [hadded]
      exact Nat.le_add_right ..

theorem load_inv_run {calls : List (LoadState × Reading)} {s : LoadRun}
    (hfits : Meets LoadRun.step FitsLong .start calls)
    (hrun : run LoadRun.step .start calls = some s) : LoadInv s := by
  refine run_induction_of_meets ?_ ?_ hfits hrun
  · intro s call t h hfit hstep
    exact (load_inv_step h hfit hstep).1
  · exact ⟨rfl, rfl, Nat.le_refl 0, Nat.le_refl 0, by decide⟩

/-- A reading is the counter at the middle read where 48 bits hold it; as long as they do, the load
counter is the sum of the load intervals and does not decrease. -/
theorem load_counter_sums (r : Reading) (calls : List (LoadState × Reading)) (s : LoadRun) :
    (r.InTime → (getCurrentTimerValue r = r.middle % 72057594037927936 ↔
      r.middle % 72057594037927936 < 281474976710656)) ∧
    (Meets LoadRun.step FitsLong .start calls → run LoadRun.step .start calls = some s →
      s.meter.totalLoadCounter = s.loaded ∧
      ∀ call t, FitsLong s call → s.step call = some t →
        s.meter.totalLoadCounter ≤ t.meter.totalLoadCounter) := by
  refine ⟨fun h => timer_value_iff h, fun hfits hrun => ?_⟩
  have h := load_inv_run hfits hrun
  exact ⟨h.total, fun call t hfit hstep => (load_inv_step h hfit hstep).2⟩

/-- The processor is constructed, is idle for 100 ticks around a roll-over and works for 50. -/
def sampleCalls : List (LoadState × Reading) :=
  [(.idle, ⟨4294967000, 4294967001, 4294967002⟩), (.load, ⟨4294967003, 4294967003, 4294967004⟩),
    (.idle, ⟨4294967290, 4294967295, 4294967297⟩), (.load, ⟨4294967390, 4294967395, 4294967395⟩),
    (.idle, ⟨4294967445, 4294967445, 4294967446⟩)]

theorem load_counter_sums_sample : ∃ s, run LoadRun.step .start sampleCalls = some s ∧
    s.loaded = 4294967343 ∧ s.meter.totalLoadCounter = s.loaded := by
  have hrun : ∃ s, run LoadRun.step .start sampleCalls = some s ∧ s.loaded = 4294967343 :=
    ⟨_, rfl, rfl⟩
  obtain ⟨s, hs, hloaded⟩ := hrun
  have hmeets := (load_counter_sums ⟨0, 0, 0⟩ sampleCalls s).2 (by decide) hs
  exact ⟨s, hs, hloaded, hmeets.1⟩

/-- The counter goes past 48 bits while the processor works: the value that is read is 2, and the
load counter falls back to 0. -/
theorem long_overflow_loses_load :
    getCurrentTimerValue ⟨281474976710658, 281474976710658, 281474976710658⟩ = 2 ∧
    281474976710658 % 72057594037927936 ≠ 2 ∧
    ∃ s t, run LoadRun.step .start
        [(.idle, ⟨281474976710651, 281474976710651, 281474976710651⟩),
          (.load, ⟨281474976710653, 281474976710653, 281474976710653⟩)] = some s ∧
      s.step (.idle, ⟨281474976710658, 281474976710658, 281474976710658⟩) = some t ∧
      t.loaded = s.loaded + 5 ∧ t.meter.totalLoadCounter < s.meter.totalLoadCounter :=
  ⟨by decide, by decide, _, _, rfl, rfl, by decide, by decide⟩

end Codinalte.Mpc
