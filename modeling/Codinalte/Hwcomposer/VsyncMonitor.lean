import Mathlib.Data.Option.Basic
import Mathlib.Logic.Function.Basic
import Mathlib.Tactic.SplitIfs

/-! The generator of vsyncs: the monitor thread between its calls, the threads that enable, disable
and destroy it, and a clock that goes on at any time. The thread is at one of its program points,
and holds the mutex at those where the others cannot have it. -/

namespace Codinalte.Hwcomposer

def nsecPerSec : Nat := 1000000000

/-- `(int64_t)(NSEC_PER_SEC / REFRESH_RATE)`, at 60 Hz. -/
def refreshPeriod : Nat := 16666666

structure Timespec where
  tvSec : Nat
  tvNsec : Nat
  normal : tvNsec < nsecPerSec
deriving DecidableEq

/-- Negative, zero or positive as the first is earlier, the same or later. -/
def timespecCompare (ta tb : Timespec) : Int :=
  if ta.tvSec < tb.tvSec then -1
  else if ta.tvSec > tb.tvSec then 1
  else (ta.tvNsec : Int) - tb.tvNsec

/-- The loop of `timespec_add_ns`, with a bound on its passes. -/
def carrySeconds : Nat → Nat → Nat → Nat × Nat
  | 0, sec, nsec => (sec, nsec)
  | passes + 1, sec, nsec =>
    if nsec ≥ nsecPerSec then carrySeconds passes (sec + 1) (nsec - nsecPerSec) else (sec, nsec)

theorem carry_seconds_normal {passes sec nsec : Nat} (hbound : nsec ≤ passes) :
    (carrySeconds passes sec nsec).2 < nsecPerSec := by
  induction passes generalizing sec nsec with
  | zero =>
    rw [Nat.le_zero.mp hbound]
    show 0 < nsecPerSec
    decide
  | succ passes ih =>
    unfold carrySeconds
    split_ifs with hlong
    · refine ih ?_
      unfold nsecPerSec at hlong ⊢
      omega
    · exact Nat.lt_of_not_le hlong

theorem carry_seconds_total (passes sec nsec : Nat) :
    (carrySeconds passes sec nsec).1 * nsecPerSec + (carrySeconds passes sec nsec).2 =
      sec * nsecPerSec + nsec := by
  induction passes generalizing sec nsec with
  | zero => rfl
  | succ passes ih =>
    unfold carrySeconds
    split_ifs with hlong
    · rw [ih]
      unfold nsecPerSec at hlong ⊢
      omega
    · rfl

def timespecAddNs (ts : Timespec) (nsec : Nat) : Timespec :=
  let total := ts.tvNsec + nsec
  ⟨(carrySeconds total ts.tvSec total).1, (carrySeconds total ts.tvSec total).2,
    carry_seconds_normal (Nat.le_refl total)⟩

def timespecToNs (ts : Timespec) : Nat := ts.tvSec * nsecPerSec + ts.tvNsec

/-- What `clock_gettime` reads from the monotonic clock. -/
def clockGettime (clock : Nat) : Timespec :=
  ⟨clock / nsecPerSec, clock % nsecPerSec, Nat.mod_lt _ (by decide)⟩

theorem timespec_add_ns (ts : Timespec) (nsec : Nat) :
    timespecToNs (timespecAddNs ts nsec) = timespecToNs ts + nsec := by
  have htotal := carry_seconds_total (ts.tvNsec + nsec) ts.tvSec (ts.tvNsec + nsec)
  exact htotal.trans (Nat.add_assoc ..).symm

theorem clock_gettime_ns (clock : Nat) : timespecToNs (clockGettime clock) = clock :=
  Nat.div_add_mod' clock nsecPerSec

theorem timespec_compare_neg {ta tb : Timespec} :
    timespecCompare ta tb < 0 ↔ timespecToNs ta < timespecToNs tb := by
  have ha := ta.normal
  have hb := tb.normal
  unfold timespecCompare timespecToNs
  unfold nsecPerSec at ha hb ⊢
  split_ifs with hbefore hafter
  · omega
  · omega
  · omega

/-- `struct hwc_procs`: the vsync callback, or NULL. -/
structure HwcProcs where
  vsync : Option Nat
deriving DecidableEq

/-- What `pthread_cond_timedwait_monotonic_np` returns. -/
inductive SleepResult where
  | ok | timedOut | failed
deriving DecidableEq

/-- Where the monitor thread stands. `wokenAt` is the clock when it had waited for the vsync. -/
inductive MonitorPc where
  | starting
  | loopHead
  | idleTest
  | idleWait
  | restart
  | readNow
  | readTimeout (sleep : Nat)
  | sleepTest (timeout : Timespec) (ret : SleepResult)
  | asleep (timeout : Timespec)
  | stamp (wokenAt : Nat)
  | delivering (callback timestamp wokenAt : Nat)
  | returned
  | cleanup
  | exited
deriving DecidableEq

def MonitorPc.holdsMutex : MonitorPc → Bool
  | .starting | .idleWait | .asleep _ | .delivering _ _ _ | .returned | .exited => false
  | _ => true

/-- Where a call of `vsync_monitor_destroy` stands. -/
inductive DestroyPc where
  | idle
  | checked
  | stopped
  | joining (target : Nat)
deriving DecidableEq

/-- A call of the vsync callback. -/
structure Vsync where
  callback : Nat
  timestamp : Nat
  wokenAt : Nat
  handedAt : Nat
deriving DecidableEq

/-- `struct vsync_monitor_context` with its thread, the calls of destroy and the clock; `created` is
the thread that init created, `handed` and `joined` the calls of the callback and of `pthread_join`.
-/
structure VsyncMonitor where
  thread : Nat
  stop : Bool
  enable : Bool
  procs : Option HwcProcs
  nextVsync : Timespec
  pc : MonitorPc
  clock : Nat
  destroyer : Nat → DestroyPc
  created : Nat
  handed : List Vsync
  joined : List Nat

/-- `monitor` is the next step of the thread, with the result of the sleep if it wakes up from one,
and `destroy` the next step of one of the calls of destroy. -/
inductive VsyncAction where
  | tick (nsec : Nat)
  | monitor (ret : SleepResult)
  | enable (procs : Option HwcProcs)
  | disable
  | destroy (caller : Nat)

namespace VsyncMonitor

/-- The static context. -/
def context (clock : Nat) : VsyncMonitor where
  thread := 0
  stop := true
  enable := false
  procs := none
  nextVsync := ⟨0, 0, by decide⟩
  pc := .exited
  clock := clock
  destroyer := fun _ => .idle
  created := 0
  handed := []
  joined := []

def vsyncMonitorInit (s : VsyncMonitor) (created : Nat) : VsyncMonitor :=
  if s.thread ≠ 0 then s
  else { s with stop := false, thread := created, created := created, pc := .starting }

def start (clock created : Nat) : VsyncMonitor := (context clock).vsyncMonitorInit created

def goTo (s : VsyncMonitor) (pc : MonitorPc) : VsyncMonitor := { s with pc := pc }

/-- The end of `wait_for_next_vsync_locked`, and what the loop does with the timestamp. -/
def stampVsync (s : VsyncMonitor) (wokenAt : Nat) : VsyncMonitor :=
  let timestamp := timespecToNs s.nextVsync
  let s := { s with nextVsync := timespecAddNs s.nextVsync refreshPeriod }
  if timestamp = 0 then s.goTo .loopHead
  else if !s.enable then s.goTo .loopHead
  else
    match s.procs.bind (·.vsync) with
    | some callback => s.goTo (.delivering callback timestamp wokenAt)
    | none => s.goTo .loopHead

def stepMonitor (s : VsyncMonitor) (ret : SleepResult) : Option VsyncMonitor :=
  match s.pc with
  | .starting => some (s.goTo .loopHead)
  | .loopHead =>
    some (s.goTo (if s.stop then .cleanup else if !s.enable then .idleTest else .readNow))
  | .idleTest => some (s.goTo (if !s.stop && !s.enable then .idleWait else .restart))
  | .idleWait => some (s.goTo .idleTest)
  | .restart => some
    { s with
      nextVsync := timespecAddNs (clockGettime s.clock) refreshPeriod
      pc := .loopHead }
  | .readNow =>
    let now := clockGettime s.clock
    if timespecCompare now s.nextVsync < 0 then
      some (s.goTo (.readTimeout (timespecToNs s.nextVsync - timespecToNs now)))
    else some (s.goTo (.stamp s.clock))
  | .readTimeout sleep =>
    some (s.goTo (.sleepTest (timespecAddNs (clockGettime s.clock) sleep) .ok))
  | .sleepTest timeout slept =>
    if !s.stop && s.enable && slept == .ok then some (s.goTo (.asleep timeout))
    else if slept = .failed then some (s.goTo .loopHead)
    else some (s.goTo (.stamp s.clock))
  | .asleep timeout =>
    if ret = .timedOut ∧ s.clock < timespecToNs timeout then none
    else some (s.goTo (.sleepTest timeout ret))
  | .stamp wokenAt => some (s.stampVsync wokenAt)
  | .delivering callback timestamp wokenAt => some
    { s with handed := s.handed ++ [⟨callback, timestamp, wokenAt, s.clock⟩], pc := .returned }
  | .returned => some (s.goTo .loopHead)
  | .cleanup => some
    { s with thread := 0, stop := true, enable := false, procs := none, pc := .exited }
  | .exited => none

def vsyncMonitorEnable (s : VsyncMonitor) (procs : Option HwcProcs) : VsyncMonitor :=
  if s.thread = 0 ∨ s.enable = true then s else { s with procs := procs, enable := true }

def vsyncMonitorDisable (s : VsyncMonitor) : VsyncMonitor :=
  if s.thread = 0 ∨ s.enable = false then s else { s with procs := none, enable := false }

def setDestroyer (s : VsyncMonitor) (caller : Nat) (pc : DestroyPc) : VsyncMonitor :=
  { s with destroyer := Function.update s.destroyer caller pc }

/-- `vsync_monitor_destroy` reads the thread without the mutex, before and after it stops it. -/
def stepDestroy (s : VsyncMonitor) (caller : Nat) : Option VsyncMonitor :=
  match s.destroyer caller with
  | .idle => some (if s.thread = 0 then s else s.setDestroyer caller .checked)
  | .checked =>
    if s.pc.holdsMutex then none
    else some { s.setDestroyer caller .stopped with stop := true, enable := false }
  | .stopped => some
    { s.setDestroyer caller (.joining s.thread) with joined := s.joined ++ [s.thread] }
  | .joining target =>
    if target = s.created ∧ s.pc = .exited then some (s.setDestroyer caller .idle) else none

def step (s : VsyncMonitor) : VsyncAction → Option VsyncMonitor
  | .tick nsec => some { s with clock := s.clock + nsec }
  | .monitor ret => s.stepMonitor ret
  | .enable procs => if s.pc.holdsMutex then none else some (s.vsyncMonitorEnable procs)
  | .disable => if s.pc.holdsMutex then none else some s.vsyncMonitorDisable
  | .destroy caller => s.stepDestroy caller

/-- The callback that the loop would call. -/
def recipient (s : VsyncMonitor) : Option Nat := if s.enable then s.procs.bind (·.vsync) else none

/-- The thread does not leave a sleep early because it is stopped while it is enabled again, and no
call of destroy joins after the thread has cleared its id. -/
def Fits (s : VsyncMonitor) : VsyncAction → Prop
  | .monitor _ =>
    match s.pc with
    | .sleepTest _ .ok =>
      s.stop = true → s.recipient ≠ none → timespecToNs s.nextVsync ≤ s.clock
    | _ => True
  | .destroy caller => s.destroyer caller = .stopped → s.thread ≠ 0
  | _ => True

instance (s : VsyncMonitor) : ∀ a, Decidable (s.Fits a)
  | .monitor _ =>
    match hpc : s.pc with
    | .sleepTest _ .ok => decidable_of_iff
        (s.stop = true → s.recipient ≠ none → timespecToNs s.nextVsync ≤ s.clock)
        (by unfold Fits; rw [hpc])
    | .sleepTest _ .timedOut | .sleepTest _ .failed | .starting | .loopHead | .idleTest | .idleWait
    | .restart | .readNow | .readTimeout _ | .asleep _ | .stamp _ | .delivering _ _ _ | .returned
    | .cleanup | .exited => .isTrue (by unfold Fits; rw [hpc]; trivial)
  | .destroy _ => inferInstanceAs (Decidable (_ → _))
  | .tick _ | .enable _ | .disable => .isTrue trivial

end VsyncMonitor

end Codinalte.Hwcomposer
