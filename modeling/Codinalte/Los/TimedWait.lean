import Codinalte.Lib.Words

/-! The timed waits of the los layer. The deadline that is waited for is one of the realtime clock;
whether a timeout is a real one is decided by the monotonic clock. -/

namespace Codinalte.Los
open Codinalte.Words

/-- `struct timespec`, of two `long` of 32 bits. -/
structure Timespec where
  tv_sec : Int
  tv_nsec : Int
deriving DecidableEq

def Timespec.Normal (ts : Timespec) : Prop := 0 ≤ ts.tv_nsec ∧ ts.tv_nsec < 1000000000

instance (ts : Timespec) : Decidable ts.Normal := inferInstanceAs (Decidable (_ ∧ _))

/-- What `clock_gettime(CLOCK_REALTIME)` can store. -/
structure Realtime extends Timespec where
  normal : toTimespec.Normal
  sec_range : -2147483648 ≤ tv_sec ∧ tv_sec < 2147483648

/-- What `clock_gettime(CLOCK_MONOTONIC)` stores at an instant in nanoseconds. -/
def monotonic (now : Nat) : Timespec := ⟨int32 ((now : Int) / 1000000000), (now : Int) % 1000000000⟩

/-- The three statements that move a clock by the timeout. -/
def Timespec.addMsecs (ts : Timespec) (msecs : UInt32) : Timespec :=
  let tv_nsec := int32 (ts.tv_nsec + uint32 ((msecs.toNat : Int) % 1000 * 1000000))
  { tv_sec := int32 (ts.tv_sec +
      uint32 ((msecs.toNat : Int) / 1000 + tv_nsec.tdiv 1000000000))
    tv_nsec := tv_nsec.tmod 1000000000 }

def timesub (a b : Timespec) : Timespec :=
  let tv_sec := int32 (a.tv_sec - b.tv_sec)
  let tv_nsec := int32 (a.tv_nsec - b.tv_nsec)
  if tv_nsec < 0 then ⟨int32 (tv_sec - 1), int32 (tv_nsec + 1000000000)⟩ else ⟨tv_sec, tv_nsec⟩

/-- The three statements that move the realtime clock by the time that remains. -/
def Timespec.addRemaining (ts rts : Timespec) : Timespec :=
  let tv_nsec := int32 (ts.tv_nsec + rts.tv_nsec)
  { tv_sec := int32 (ts.tv_sec + int32 (rts.tv_sec + tv_nsec.tdiv 1000000000))
    tv_nsec := tv_nsec.tmod 1000000000 }

inductive Errno where
  | EINTR
  | ETIMEDOUT
  | other (errno : Int)
deriving DecidableEq

/-- The end of one `sem_timedwait` or `pthread_mutex_timedlock`: what it gives for a deadline, the
nanoseconds since the monotonic clock was last read, and what the realtime clock shows then. -/
structure Wakeup where
  result : Timespec → Option Errno
  elapsed : Nat
  realtime : Realtime

/-- A wait that goes on: its deadline, the instant, and the record of the deadlines that were built
and of the waits that obtained what is waited for. -/
structure Wait where
  ts : Timespec
  now : Nat
  built : List Timespec
  obtained : Nat

inductive Outcome where
  | waiting
  | obtained
  | failed (errno : Errno)
deriving DecidableEq

def Wait.wake (w : Wait) (wakeup : Wakeup) : Wait :=
  { w with
    now := w.now + wakeup.elapsed
    obtained := w.obtained + (if wakeup.result w.ts = none then 1 else 0) }

def Wait.rearm (w : Wait) (ts : Timespec) : Wait := { w with ts, built := w.built ++ [ts] }

/-- `retry` goes on after the errors of `again`, and after a timeout that is none for the monotonic
clock. -/
def retry (again : Errno → Bool) (abs_timeout : Timespec) : Wait → List Wakeup → Wait × Outcome
  | w, [] => (w, .waiting)
  | w, wakeup :: wakeups =>
    match wakeup.result w.ts with
    | none => (w.wake wakeup, .obtained)
    | some errno =>
      if again errno then retry again abs_timeout (w.wake wakeup) wakeups
      else if errno = .ETIMEDOUT then
        let rts := timesub abs_timeout (monotonic (w.wake wakeup).now)
        if rts.tv_sec < 0 ∨ rts.tv_nsec < 0 then (w.wake wakeup, .failed .ETIMEDOUT)
        else
          retry again abs_timeout
            ((w.wake wakeup).rearm (wakeup.realtime.addRemaining rts)) wakeups
      else (w.wake wakeup, .failed errno)

def timedWait (again : Errno → Bool) (msecs : UInt32) (realtime : Realtime) (now : Nat)
    (wakeups : List Wakeup) : Wait × Outcome :=
  let ts := realtime.addMsecs msecs
  let abs_timeout := (monotonic now).addMsecs msecs
  retry again abs_timeout ⟨ts, now, [ts, abs_timeout], 0⟩ wakeups

/-- The value is there once the call has returned. -/
def LOS_SemaphoreWaitTimeOut (timeOutInMs : UInt32) (realtime : Realtime) (now : Nat)
    (wakeups : List Wakeup) : Wait × Option Int :=
  let (w, outcome) := timedWait (· == .EINTR) timeOutInMs realtime now wakeups
  match outcome with
  | .waiting => (w, none)
  | .obtained => (w, some 0)
  | .failed _ => (w, some (-1))

def pthread_mutex_lock_timeout_np (msecs : UInt32) (realtime : Realtime) (now : Nat)
    (wakeups : List Wakeup) : Wait × Outcome :=
  timedWait (fun _ => false) msecs realtime now wakeups

/-- No operation of the conversion is reduced but the last sum of seconds. -/
theorem add_msecs_eq {ts : Timespec} (h : ts.Normal) (msecs : UInt32) : ts.addMsecs msecs =
    ⟨int32 (ts.tv_sec + ((msecs.toNat : Int) / 1000 +
        (ts.tv_nsec + (msecs.toNat : Int) % 1000 * 1000000) / 1000000000)),
      (ts.tv_nsec + (msecs.toNat : Int) % 1000 * 1000000) % 1000000000⟩ := by
  obtain ⟨hle, hlt⟩ := h
  have hmsecs := msecs.toNat_lt
  have hproduct : uint32 ((msecs.toNat : Int) % 1000 * 1000000) =
      (msecs.toNat : Int) % 1000 * 1000000 := uint32_of_range (by omega) (by omega)
  have hsum : int32 (ts.tv_nsec + (msecs.toNat : Int) % 1000 * 1000000) =
      ts.tv_nsec + (msecs.toNat : Int) % 1000 * 1000000 := int32_of_range (by omega) (by omega)
  unfold Timespec.addMsecs
  simp only [hproduct, hsum]
  rw [Int.tdiv_eq_ediv_of_nonneg (by omega), Int.tmod_eq_emod_of_nonneg (by omega),
    uint32_of_range (by omega) (by omega)]

theorem add_msecs_normal {ts : Timespec} (h : ts.Normal) (msecs : UInt32) :
    (ts.addMsecs msecs).Normal := by
  rw [add_msecs_eq h]
  exact ⟨Int.emod_nonneg _ (by decide), Int.emod_lt_of_pos _ (by decide)⟩

theorem monotonic_normal (now : Nat) : (monotonic now).Normal :=
  ⟨Int.emod_nonneg _ (by decide), Int.emod_lt_of_pos _ (by decide)⟩

/-- The deadline of the monotonic clock is exact, as far as its seconds go. -/
theorem monotonic_add_msecs (now : Nat) (msecs : UInt32) :
    (monotonic now).addMsecs msecs = monotonic (now + msecs.toNat * 1000000) := by
  rw [add_msecs_eq (monotonic_normal now)]
  unfold monotonic
  obtain ⟨-, -, hmod⟩ := int32_spec ((now : Int) / 1000000000)
  refine (Timespec.mk.injEq ..).mpr ⟨int32_congr ?_, ?_⟩
  · dsimp only
    omega
  · dsimp only
    omega

theorem sub_of_borrow {a b : Int} (h : a % 1000000000 - b % 1000000000 < 0) :
    (a - b) / 1000000000 = a / 1000000000 - b / 1000000000 - 1 ∧
      (a - b) % 1000000000 = a % 1000000000 - b % 1000000000 + 1000000000 := by
  omega

theorem sub_of_no_borrow {a b : Int} (h : ¬ a % 1000000000 - b % 1000000000 < 0) :
    (a - b) / 1000000000 = a / 1000000000 - b / 1000000000 ∧
      (a - b) % 1000000000 = a % 1000000000 - b % 1000000000 := by
  omega

theorem timesub_monotonic (a b : Nat) : timesub (monotonic a) (monotonic b) =
    ⟨int32 (((a : Int) - b) / 1000000000), ((a : Int) - b) % 1000000000⟩ := by
  have hnsec : int32 ((a : Int) % 1000000000 - (b : Int) % 1000000000) =
      (a : Int) % 1000000000 - (b : Int) % 1000000000 := int32_of_range (by omega) (by omega)
  unfold timesub monotonic
  simp only [hnsec, int32_sub]
  split
  · next hborrow =>
    have hcarry : int32 ((a : Int) % 1000000000 - (b : Int) % 1000000000 + 1000000000) =
        (a : Int) % 1000000000 - (b : Int) % 1000000000 + 1000000000 :=
      int32_of_range (by omega) (by omega)
    obtain ⟨hquotient, hrest⟩ := sub_of_borrow hborrow
    rw [hcarry, hquotient, hrest, int32_sub_one]
  · next hborrow =>
    obtain ⟨hquotient, hrest⟩ := sub_of_no_borrow hborrow
    rw [hquotient, hrest]

theorem add_remaining_normal {ts rts : Timespec} (hts : ts.Normal) (hrts : rts.Normal) :
    (ts.addRemaining rts).Normal := by
  obtain ⟨hle, hlt⟩ := hts
  obtain ⟨hle', hlt'⟩ := hrts
  have hsum : int32 (ts.tv_nsec + rts.tv_nsec) = ts.tv_nsec + rts.tv_nsec :=
    int32_of_range (by omega) (by omega)
  unfold Timespec.addRemaining Timespec.Normal
  simp only [hsum]
  rw [Int.tmod_eq_emod_of_nonneg (by omega)]
  exact ⟨Int.emod_nonneg _ (by decide), Int.emod_lt_of_pos _ (by decide)⟩

theorem remaining_normal (start now : Nat) (msecs : UInt32) :
    (timesub ((monotonic start).addMsecs msecs) (monotonic now)).Normal := by
  rw [monotonic_add_msecs, timesub_monotonic]
  exact ⟨Int.emod_nonneg _ (by decide), Int.emod_lt_of_pos _ (by decide)⟩

/-- The sign tests see whether the deadline has passed, however the realtime clock jumps. -/
theorem remains_negative {start now : Nat} {msecs : UInt32} (hnow : start ≤ now)
    (h : (timesub ((monotonic start).addMsecs msecs) (monotonic now)).tv_sec < 0 ∨
      (timesub ((monotonic start).addMsecs msecs) (monotonic now)).tv_nsec < 0) :
    start + msecs.toNat * 1000000 < now := by
  rw [monotonic_add_msecs, timesub_monotonic] at h
  have hmsecs := msecs.toNat_lt
  dsimp only at h
  rcases h with hsec | hnsec
  · refine Nat.lt_of_not_le fun hle => ?_
    have hrange : int32 ((((start + msecs.toNat * 1000000 : Nat) : Int) - now) / 1000000000) =
        (((start + msecs.toNat * 1000000 : Nat) : Int) - now) / 1000000000 :=
      int32_of_range (by omega) (by omega)
    rw [hrange] at hsec
    omega
  · exact absurd (Int.emod_nonneg _ (by decide)) (Int.not_le_of_gt hnsec)

/-- What the wait keeps while it goes on. -/
structure Wait.Kept (start : Nat) (w : Wait) : Prop where
  now : start ≤ w.now
  deadline : w.ts.Normal
  built : ∀ ts ∈ w.built, ts.Normal
  obtained : w.obtained = 0

/-- What a wait of `msecs` has when it ends, or while it goes on. -/
structure Keeps (msecs : UInt32) (start : Nat) (w : Wait) (outcome : Outcome) : Prop where
  late : outcome = .failed .ETIMEDOUT → start + msecs.toNat * 1000000 < w.now
  obtained : w.obtained = if outcome = .obtained then 1 else 0
  built : ∀ ts ∈ w.built, ts.Normal

theorem Wait.Kept.wake {start : Nat} {w : Wait} {wakeup : Wakeup} (h : w.Kept start)
    (hresult : wakeup.result w.ts ≠ none) : (w.wake wakeup).Kept start where
  now := Nat.le_trans h.now (Nat.le_add_right ..)
  deadline := h.deadline
  built := h.built
  obtained := by
    show w.obtained + (if wakeup.result w.ts = none then 1 else 0) = 0
    rw [h.obtained, if_neg hresult]

theorem Wait.Kept.rearm {start : Nat} {w : Wait} (h : w.Kept start) {ts : Timespec}
    (hts : ts.Normal) : (w.rearm ts).Kept start where
  now := h.now
  deadline := hts
  built := List.forall_mem_append.mpr ⟨h.built, List.forall_mem_singleton.mpr hts⟩
  obtained := h.obtained

theorem Wait.Kept.keeps {start : Nat} {w : Wait} {outcome : Outcome} (h : w.Kept start)
    (msecs : UInt32) (houtcome : outcome ≠ .obtained)
    (hlate : outcome = .failed .ETIMEDOUT → start + msecs.toNat * 1000000 < w.now) :
    Keeps msecs start w outcome :=
  ⟨hlate, by rw [h.obtained, if_neg houtcome], h.built⟩

theorem retry_keeps (again : Errno → Bool) {start : Nat} (msecs : UInt32) {w : Wait}
    (h : w.Kept start) (wakeups : List Wakeup) :
    Keeps msecs start (retry again ((monotonic start).addMsecs msecs) w wakeups).1
      (retry again ((monotonic start).addMsecs msecs) w wakeups).2 := by
  induction wakeups generalizing w with
  | nil => exact h.keeps msecs (fun heq => by cases heq) (fun heq => by cases heq)
  | cons wakeup wakeups ih =>
    unfold retry
    cases hresult : wakeup.result w.ts with
    | none =>
      refine ⟨fun heq => (by cases heq), ?_, h.built⟩
      show w.obtained + (if wakeup.result w.ts = none then 1 else 0) = _
      rw [h.obtained, if_pos hresult]
      rfl
    | some errno =>
      have hfails : wakeup.result w.ts ≠ none := by
        rw [hresult]
        exact Option.some_ne_none errno
      have hwake := h.wake hfails
      dsimp only
      split
      · exact ih hwake
      split
      · split
        · next hpassed =>
          exact hwake.keeps msecs (fun heq => by cases heq)
            fun _ => remains_negative hwake.now hpassed
        · next hremains =>
          exact ih (hwake.rearm (add_remaining_normal wakeup.realtime.normal
            (remaining_normal start _ msecs)))
      · next hother =>
        refine hwake.keeps msecs (fun heq => by cases heq) fun heq => ?_
        exact absurd (Outcome.failed.inj heq) hother

/-- The milliseconds become seconds and nanoseconds without a reduction; only the sum with the
seconds of the clock is one of 32 bits. -/
def Converts (ts : Timespec) (msecs : UInt32) : Prop :=
  ∃ secs nsec : Int, ts.addMsecs msecs = ⟨int32 (ts.tv_sec + secs), nsec⟩ ∧
    0 ≤ secs ∧ secs ≤ 4294968 ∧ 0 ≤ nsec ∧ nsec < 1000000000 ∧
    secs * 1000000000 + nsec = ts.tv_nsec + (msecs.toNat : Int) * 1000000

theorem converts {ts : Timespec} (h : ts.Normal) (msecs : UInt32) : Converts ts msecs := by
  refine ⟨_, _, add_msecs_eq h msecs, ?_⟩
  obtain ⟨hle, hlt⟩ := h
  have hmsecs := msecs.toNat_lt
  omega

theorem timed_wait_keeps (again : Errno → Bool) (msecs : UInt32) (realtime : Realtime) (now : Nat)
    (wakeups : List Wakeup) :
    Keeps msecs now (timedWait again msecs realtime now wakeups).1
      (timedWait again msecs realtime now wakeups).2 := by
  have hdeadline := add_msecs_normal realtime.normal msecs
  refine retry_keeps again msecs ⟨Nat.le_refl now, hdeadline, ?_, rfl⟩ wakeups
  intro ts hts
  rcases List.mem_cons.mp hts with rfl | hts
  · exact hdeadline
  · rw [List.mem_singleton.mp hts]
    exact add_msecs_normal (monotonic_normal now) msecs

/-- A semaphore that is valid: the wait for it fails only because of a signal or of the time, if
the deadline is a normal one. -/
def ValidSemaphore (wakeups : List Wakeup) : Prop :=
  ∀ wakeup ∈ wakeups, ∀ ts : Timespec, ts.Normal → ∀ errno, wakeup.result ts ≠ some (.other errno)

theorem retry_interrupted {abs_timeout : Timespec}
    (habs : ∀ now, (timesub abs_timeout (monotonic now)).Normal) {w : Wait} (hts : w.ts.Normal)
    {wakeups : List Wakeup} (h : ValidSemaphore wakeups)
    {errno : Errno} (hfailed : (retry (· == .EINTR) abs_timeout w wakeups).2 = .failed errno) :
    errno = .ETIMEDOUT := by
  induction wakeups generalizing w with
  | nil => cases hfailed
  | cons wakeup wakeups ih =>
    obtain ⟨hwakeup, hrest⟩ := List.forall_mem_cons.mp h
    unfold retry at hfailed
    cases hresult : wakeup.result w.ts with
    | none =>
      rw [hresult] at hfailed
      cases hfailed
    | some errno' =>
      rw [hresult] at hfailed
      dsimp only at hfailed
      split at hfailed
      · exact ih (w := w.wake wakeup) hts hrest hfailed
      split at hfailed
      · split at hfailed
        · exact (Outcome.failed.inj hfailed).symm
        · exact ih (add_remaining_normal wakeup.realtime.normal (habs _)) hrest hfailed
      · next hintr hother =>
        cases errno' with
        | EINTR => exact absurd rfl hintr
        | ETIMEDOUT => exact absurd rfl hother
        | other errno' => exact absurd hresult (hwakeup w.ts hts errno')

/-- A signal, a realtime clock that is set forward by an hour, and the end of the 1500 ms. -/
def sampleWakeups : List Wakeup :=
  [⟨fun _ => some .EINTR, 400000000, ⟨⟨1300000000, 999999999⟩, by decide, by decide⟩⟩,
    ⟨fun _ => some .ETIMEDOUT, 1, ⟨⟨1300003600, 999999999⟩, by decide, by decide⟩⟩,
    ⟨fun _ => some .ETIMEDOUT, 1100000000, ⟨⟨1300003601, 0⟩, by decide, by decide⟩⟩]

end Codinalte.Los
