import Codinalte.Lib.Machine
import Codinalte.Hwcomposer.Grab

/-! The compdev worker thread and the main thread: `worker_init`, then the calls of
`worker_signal_update` and `worker_wait_for_done` that each `hwcomposer_set` makes, against the
loop of `worker`. Every lock, unlock, signal, wait and wake-up is a step of its own. -/

namespace Codinalte.Hwcomposer
open Codinalte.Machine

inductive Thread where
  | main
  | worker
deriving DecidableEq

/-- Where the main thread stands; each name is for what it does next. -/
inductive MainPc where
  | initLock
  | create
  | initConds
  | initUnlock
  | idle
  | signalLock (update : WorkerUpdate)
  | storeUpdate (update : WorkerUpdate)
  | signalUpdate
  | signalUnlock
  | waitLock
  | testWorking
  | waiting
  | woken
  | waitUnlock
  | returning
deriving DecidableEq

inductive WorkerPc where
  | absent
  | start
  | testAlive
  | waiting
  | woken
  | testAgain
  | send
  | clearWorking
  | signalDone
  | unlock
  | exited
deriving DecidableEq

/-- `update` is what the worker context holds of the last `worker_signal_update`; `signalled`
and `sent` record the updates handed over and the contents each send found. -/
structure WorkerSystem where
  main : MainPc
  worker : WorkerPc
  holder : Option Thread
  alive : Bool
  working : Bool
  update : Option WorkerUpdate
  signalled : List WorkerUpdate
  sent : List (Option WorkerUpdate)
deriving DecidableEq

def WorkerSystem.opened : WorkerSystem where
  main := .initLock
  worker := .absent
  holder := none
  alive := false
  working := false
  update := none
  signalled := []
  sent := []

/-- `set` begins a call of `hwcomposer_set`; it has an update to signal or not. -/
inductive WorkerAction where
  | set (update : Option WorkerUpdate)
  | main
  | worker
  | spuriousMain
  | spuriousWorker

namespace WorkerSystem

def lock (s : WorkerSystem) (t : Thread) : Option WorkerSystem :=
  if s.holder = none then some { s with holder := some t } else none

def unlock (s : WorkerSystem) : WorkerSystem := { s with holder := none }

@[simp] theorem unlock_holder (s : WorkerSystem) : s.unlock.holder = none := rfl

/-- `pthread_cond_signal(&signal_update)`: wakes the worker if it is blocked there. -/
def wakeWorker (s : WorkerSystem) : WorkerSystem :=
  if s.worker = .waiting then { s with worker := .woken } else s

/-- `pthread_cond_signal(&signal_done)`: wakes the main thread if it is blocked there. -/
def wakeMain (s : WorkerSystem) : WorkerSystem :=
  if s.main = .waiting then { s with main := .woken } else s

def stepMain (s : WorkerSystem) : Option WorkerSystem :=
  match s.main with
  | .initLock => (s.lock .main).map ({ · with main := .create })
  | .create => some { s with main := .initConds, worker := .start }
  | .initConds => some { s with main := .initUnlock, alive := true }
  | .initUnlock => some { s.unlock with main := .idle }
  | .idle => none
  | .signalLock update => (s.lock .main).map ({ · with main := .storeUpdate update })
  | .storeUpdate update => some { s with
      main := .signalUpdate
      update := some update
      working := true
      signalled := s.signalled ++ [update] }
  | .signalUpdate => some { s.wakeWorker with main := .signalUnlock }
  | .signalUnlock => some { s.unlock with main := .waitLock }
  | .waitLock => (s.lock .main).map ({ · with main := .testWorking })
  | .testWorking =>
    if s.working then some { s.unlock with main := .waiting }
    else some { s with main := .waitUnlock }
  | .waiting => none
  -- no loop: after the wait `working` is not looked at again
  | .woken => (s.lock .main).map ({ · with main := .waitUnlock })
  | .waitUnlock => some { s.unlock with main := .returning }
  | .returning => some { s with main := .idle }

def stepWorker (s : WorkerSystem) : Option WorkerSystem :=
  match s.worker with
  | .absent => none
  | .start => (s.lock .worker).map ({ · with worker := .testAlive })
  | .testAlive =>
    if s.alive then some { s.unlock with worker := .waiting }
    else some { s with worker := .unlock }
  | .waiting => none
  | .woken => (s.lock .worker).map ({ · with worker := .testAgain })
  -- only `alive` is tested after the wait
  | .testAgain => some { s with worker := if s.alive then .send else .testAlive }
  | .send => some { s with worker := .clearWorking, sent := s.sent ++ [s.update] }
  | .clearWorking => some { s with worker := .signalDone, working := false }
  | .signalDone => some { s.wakeMain with worker := .testAlive }
  | .unlock => some { s.unlock with worker := .exited }
  | .exited => none

def step (s : WorkerSystem) : WorkerAction → Option WorkerSystem
  | .set update =>
    if s.main = .idle then
      some { s with main := match update with
        | some u => .signalLock u
        | none => .waitLock }
    else none
  | .main => s.stepMain
  | .worker => s.stepWorker
  | .spuriousMain => if s.main = .waiting then some { s with main := .woken } else none
  | .spuriousWorker => if s.worker = .waiting then some { s with worker := .woken } else none

end WorkerSystem

@[simp] def MainPc.holds : MainPc → Bool
  | .create | .initConds | .initUnlock | .storeUpdate _ | .signalUpdate | .signalUnlock
  | .testWorking | .waitUnlock => true
  | _ => false

@[simp] def WorkerPc.holds : WorkerPc → Bool
  | .testAlive | .testAgain | .send | .clearWorking | .signalDone | .unlock => true
  | _ => false

/-- From picking up an update to having finished it. -/
@[simp] def WorkerPc.busy : WorkerPc → Bool
  | .testAgain | .send | .clearWorking => true
  | _ => false

/-- The condition on one step. An update is signalled only once the worker is in its wait; the
worker leaves its wait only with an update pending; set leaves its wait only with none. -/
def wakesInTime (s : WorkerSystem) : WorkerAction → Prop
  | .main => match s.main with
    | .signalLock _ => s.worker = .waiting ∨ s.worker = .woken
    | .woken => s.working = false
    | _ => True
  | .worker => s.worker = .woken → s.working = true
  | _ => True

instance (s : WorkerSystem) (a : WorkerAction) : Decidable (wakesInTime s a) := by
  cases a <;> unfold wakesInTime
  case main => cases s.main <;> infer_instance
  all_goals infer_instance

/-- A pending update is in the hands of the worker: it is past its wait. -/
def WorkerSystem.handled (s : WorkerSystem) : Prop :=
  s.working = true → s.worker = .woken ∨ s.worker.busy = true

/-- What holds whenever the main thread stands at a place. -/
def WorkerSystem.mainAt (s : WorkerSystem) : MainPc → Prop
  | .initLock | .create => s.worker = .absent ∧ s.working = false
  | .initConds => s.worker = .start ∧ s.working = false
  | .initUnlock | .idle | .signalLock _ | .waitUnlock | .returning =>
    s.alive = true ∧ s.working = false
  | .storeUpdate _ =>
    s.alive = true ∧ s.working = false ∧ (s.worker = .waiting ∨ s.worker = .woken)
  | .signalUpdate =>
    s.alive = true ∧ s.working = true ∧ (s.worker = .waiting ∨ s.worker = .woken)
  | .signalUnlock | .waitLock | .testWorking | .woken => s.alive = true ∧ s.handled
  | .waiting => s.alive = true ∧ s.handled ∧ (s.working = true ∨ s.worker = .signalDone)

/-- What holds whenever the worker stands at a place. -/
def WorkerSystem.workerAt (s : WorkerSystem) : WorkerPc → Prop
  | .testAgain | .send | .clearWorking => s.working = true
  | .unlock | .exited => False
  | _ => True

/-- Every update handed over has been sent, in order, but for the one still pending. -/
def WorkerSystem.logged (s : WorkerSystem) : Prop :=
  (s.working = false → s.sent = s.signalled.map some) ∧
  (s.working = true → ∃ before update, s.signalled = before ++ [update] ∧
    s.update = some update ∧
    s.sent = before.map some ++ if s.worker = .clearWorking then [some update] else [])

/-- How far a pending update is from its send. -/
def WorkerSystem.stepsLeft (s : WorkerSystem) : Nat :=
  (match s.main with
    | .signalUpdate => 6
    | .signalUnlock => 5
    | .waitLock => 4
    | .testWorking => 3
    | .waiting => 2
    | .woken => 1
    | _ => 0) +
  match s.worker with
    | .waiting => 4
    | .woken => 3
    | .testAgain => 2
    | .send => 1
    | _ => 0

structure WorkerInv (s : WorkerSystem) : Prop where
  mainHolds : s.main.holds = true ↔ s.holder = some .main
  workerHolds : s.worker.holds = true ↔ s.holder = some .worker
  mainAt : s.mainAt s.main
  workerAt : s.workerAt s.worker
  logged : s.logged

theorem worker_inv_opened : WorkerInv WorkerSystem.opened := by
  refine ⟨by decide, by decide, ⟨rfl, rfl⟩, trivial, fun _ => rfl, ?_⟩
  intro h
  cases h

theorem lock_map_eq_some {s t : WorkerSystem} {th : Thread} {f : WorkerSystem → WorkerSystem}
    (h : (s.lock th).map f = some t) : s.holder = none ∧ t = f { s with holder := some th } := by
  obtain ⟨u, hu, rfl⟩ := Option.map_eq_some_iff.mp h
  unfold WorkerSystem.lock at hu
  split_ifs at hu with hfree
  cases hu
  exact ⟨hfree, rfl⟩

/-- A step of the main thread that touches only its own place and the mutex. -/
theorem worker_inv_of_main {s : WorkerSystem} (hinv : WorkerInv s) {pc : MainPc}
    {holder : Option Thread} (hholds : pc.holds = true ↔ holder = some .main)
    (hother : holder = some .worker ↔ s.holder = some .worker)
    (hat : s.mainAt pc) : WorkerInv { s with main := pc, holder := holder } where
  mainHolds := hholds
  workerHolds := hinv.workerHolds.trans hother.symm
  mainAt := by cases pc <;> exact hat
  workerAt := by
    have := hinv.workerAt
    cases hw : s.worker <;> rw [hw] at this <;> exact this
  logged := hinv.logged

theorem worker_inv_main {s t : WorkerSystem} (hinv : WorkerInv s)
    (hok : wakesInTime s .main) (h : s.stepMain = some t) : WorkerInv t := by
  have hmain := hinv.mainHolds
  have hat := hinv.mainAt
  unfold WorkerSystem.stepMain at h
  unfold wakesInTime at hok
  split at h <;> rename_i hpc <;> rw [hpc] at hmain hat <;> simp only [hpc] at hok
  · -- initLock
    obtain ⟨hfree, rfl⟩ := lock_map_eq_some h
    exact worker_inv_of_main hinv (by simp) (by simp [hfree]) hat
  · -- create
    cases h
    have hheld : s.holder = some .main := by simpa using hmain
    exact { hinv with
      mainHolds := hmain
      workerHolds := by simp [hheld]
      mainAt := ⟨rfl, hat.2⟩
      workerAt := trivial
      logged := ⟨hinv.logged.1, fun hw => absurd (hat.2.symm.trans hw) (by decide)⟩ }
  · -- initConds
    cases h
    exact { hinv with
      mainHolds := hmain
      mainAt := ⟨rfl, hat.2⟩
      workerAt := by
        have := hinv.workerAt
        cases hw : s.worker <;> rw [hw] at this <;> exact this }
  · -- initUnlock
    cases h
    have hheld : s.holder = some .main := by simpa using hmain
    exact worker_inv_of_main hinv (by simp) (by simp [hheld]) hat
  · -- idle
    cases h
  · -- signalLock: here the worker has to be in its wait already
    obtain ⟨hfree, rfl⟩ := lock_map_eq_some h
    exact worker_inv_of_main hinv (by simp) (by simp [hfree]) ⟨hat.1, hat.2, hok⟩
  · -- storeUpdate
    next update =>
    cases h
    refine { hinv with
      mainHolds := by simpa using hmain
      mainAt := ⟨hat.1, rfl, hat.2.2⟩
      workerAt := ?_
      logged := ⟨fun hw => absurd hw (by simp), fun _ => ⟨s.signalled, update, rfl, rfl, ?_⟩⟩ }
    · show WorkerSystem.workerAt _ s.worker
      rcases hat.2.2 with hw | hw <;> rw [hw] <;> trivial
    · have hnot : s.worker ≠ .clearWorking := by
        rcases hat.2.2 with hw | hw <;> rw [hw] <;> decide
      rw [if_neg hnot, List.append_nil]
      exact hinv.logged.1 hat.2.1
  · -- signalUpdate: the worker is woken, or was on its way already
    cases h
    have hheld : s.holder = some .main := by simpa using hmain
    have hwoken : s.wakeWorker = { s with worker := .woken } := by
      unfold WorkerSystem.wakeWorker
      rcases hat.2.2 with hw | hw
      · rw [if_pos hw]
      · rw [if_neg (by rw [hw]; decide), ← hw]
    rw [hwoken]
    obtain ⟨before, update, hsignalled, hupdate, hsent⟩ := hinv.logged.2 hat.2.1
    have hnot : s.worker ≠ .clearWorking := by
      rcases hat.2.2 with hw | hw <;> rw [hw] <;> decide
    rw [if_neg hnot] at hsent
    exact {
      mainHolds := by simpa using hmain
      workerHolds := by simp [hheld]
      mainAt := ⟨hat.1, fun _ => .inl rfl⟩
      workerAt := trivial
      logged := ⟨hinv.logged.1, fun _ => ⟨before, update, hsignalled, hupdate, hsent⟩⟩ }
  · -- signalUnlock
    cases h
    have hheld : s.holder = some .main := by simpa using hmain
    exact worker_inv_of_main hinv (by simp) (by simp [hheld]) hat
  · -- waitLock
    obtain ⟨hfree, rfl⟩ := lock_map_eq_some h
    exact worker_inv_of_main hinv (by simp) (by simp [hfree]) hat
  · -- testWorking
    have hheld : s.holder = some .main := by simpa using hmain
    split_ifs at h with hw
    · cases h
      exact worker_inv_of_main hinv (by simp) (by simp [hheld]) ⟨hat.1, hat.2, .inl hw⟩
    · cases h
      exact worker_inv_of_main hinv (by simp [hheld]) (by simp [hheld])
        ⟨hat.1, by simpa using hw⟩
  · -- waiting
    cases h
  · -- woken: here `working` has to be cleared already
    obtain ⟨hfree, rfl⟩ := lock_map_eq_some h
    exact worker_inv_of_main hinv (by simp) (by simp [hfree]) ⟨hat.1, hok⟩
  · -- waitUnlock
    cases h
    have hheld : s.holder = some .main := by simpa using hmain
    exact worker_inv_of_main hinv (by simp) (by simp [hheld]) hat
  · -- returning
    cases h
    exact worker_inv_of_main hinv (by simpa using hmain) Iff.rfl hat

/-- A step of the worker that touches only its own place and the mutex, while nothing of the
main thread depends on that place. -/
theorem worker_inv_of_worker {s : WorkerSystem} (hinv : WorkerInv s) {pc : WorkerPc}
    {holder : Option Thread} (hholds : pc.holds = true ↔ holder = some .worker)
    (hother : holder = some .main ↔ s.holder = some .main)
    (hmain : WorkerSystem.mainAt { s with worker := pc } s.main)
    (hat : s.workerAt pc)
    (hlogged : s.working = true → (pc = .clearWorking ↔ s.worker = .clearWorking)) :
    WorkerInv { s with worker := pc, holder := holder } where
  mainHolds := hinv.mainHolds.trans hother.symm
  workerHolds := hholds
  mainAt := by
    show WorkerSystem.mainAt _ s.main
    cases hm : s.main <;> rw [hm] at hmain <;> exact hmain
  workerAt := by cases pc <;> exact hat
  logged := by
    refine ⟨hinv.logged.1, fun hw => ?_⟩
    obtain ⟨before, update, hsignalled, hupdate, hsent⟩ := hinv.logged.2 hw
    refine ⟨before, update, hsignalled, hupdate, ?_⟩
    rw [hsent]
    exact congrArg _ (if_congr (hlogged hw).symm rfl rfl)

theorem alive_of_created {s : WorkerSystem} (hat : s.mainAt s.main)
    (hfree : s.main.holds = false) (hcreated : s.worker ≠ .absent) : s.alive = true := by
  cases hm : s.main <;> rw [hm] at hat hfree
  case initLock => exact absurd hat.1 hcreated
  case create => cases hfree
  case initConds => cases hfree
  all_goals exact hat.1

/-- Moving the worker keeps what the main thread relies on outside the mutex. -/
theorem main_at_worker {s : WorkerSystem} (hat : s.mainAt s.main)
    (hfree : s.main.holds = false) (hcreated : s.worker ≠ .absent) (pc : WorkerPc)
    (hhandled : s.handled → s.working = true → pc = .woken ∨ pc.busy = true)
    (hwait : s.main = .waiting → s.handled → s.working = true ∨ s.worker = .signalDone →
      s.working = true ∨ pc = .signalDone) :
    WorkerSystem.mainAt { s with worker := pc } s.main := by
  cases hm : s.main <;> rw [hm] at hat hfree
  case initLock => exact absurd hat.1 hcreated
  case idle => exact hat
  case signalLock => exact hat
  case waitLock => exact ⟨hat.1, hhandled hat.2⟩
  case waiting => exact ⟨hat.1, hhandled hat.2.1, hwait hm hat.2.1 hat.2.2⟩
  case woken => exact ⟨hat.1, hhandled hat.2⟩
  case returning => exact hat
  all_goals cases hfree

theorem main_holds_false {s : WorkerSystem} (hinv : WorkerInv s)
    (h : s.holder ≠ some .main) : s.main.holds = false := by
  rw [← Bool.not_eq_true, hinv.mainHolds]
  exact h

theorem worker_inv_wake_main {s : WorkerSystem} (hinv : WorkerInv s) : WorkerInv s.wakeMain := by
  unfold WorkerSystem.wakeMain
  split_ifs with hwaiting
  · have hat := hinv.mainAt
    have hmain := hinv.mainHolds
    rw [hwaiting] at hat hmain
    exact worker_inv_of_main hinv (by simpa using hmain) Iff.rfl ⟨hat.1, hat.2.1⟩
  · exact hinv

theorem worker_inv_worker {s t : WorkerSystem} (hinv : WorkerInv s)
    (hok : wakesInTime s .worker) (h : s.stepWorker = some t) : WorkerInv t := by
  have hworker := hinv.workerHolds
  have hat := hinv.workerAt
  have hcreated : s.worker ≠ .absent := by
    intro habsent
    simp [WorkerSystem.stepWorker, habsent] at h
  unfold WorkerSystem.stepWorker at h
  split at h <;> rename_i hpc <;> rw [hpc] at hworker hat
  · -- absent
    cases h
  · -- start
    obtain ⟨hfree, rfl⟩ := lock_map_eq_some h
    have hmain := main_holds_false hinv (by simp [hfree])
    refine worker_inv_of_worker hinv (by simp) (by simp [hfree]) ?_ trivial (by simp [hpc])
    refine main_at_worker hinv.mainAt hmain hcreated _ ?_ ?_
    · intro hhandled hw
      simpa [hpc] using hhandled hw
    · rintro - hhandled (hw | hdone)
      · exact .inl hw
      · simp [hpc] at hdone
  · -- testAlive: the worker only comes here once `alive` is set
    have hheld : s.holder = some .worker := by simpa using hworker
    have hmain := main_holds_false hinv (by simp [hheld])
    have halive := alive_of_created hinv.mainAt hmain hcreated
    rw [if_pos halive] at h
    cases h
    refine worker_inv_of_worker hinv (by simp) (by simp [hheld]) ?_ trivial (by simp [hpc])
    refine main_at_worker hinv.mainAt hmain hcreated _ ?_ ?_
    · intro hhandled hw
      simpa [hpc] using hhandled hw
    · rintro - hhandled (hw | hdone)
      · exact .inl hw
      · simp [hpc] at hdone
  · -- waiting
    cases h
  · -- woken: only with an update pending
    obtain ⟨hfree, rfl⟩ := lock_map_eq_some h
    have hmain := main_holds_false hinv (by simp [hfree])
    refine worker_inv_of_worker hinv (by simp) (by simp [hfree]) ?_ (hok hpc) (by simp [hpc])
    refine main_at_worker hinv.mainAt hmain hcreated _ (fun _ _ => .inr rfl) ?_
    exact fun _ _ _ => .inl (hok hpc)
  · -- testAgain
    have hheld : s.holder = some .worker := by simpa using hworker
    have hmain := main_holds_false hinv (by simp [hheld])
    rw [if_pos (alive_of_created hinv.mainAt hmain hcreated)] at h
    cases h
    refine worker_inv_of_worker hinv (by simpa using hheld) Iff.rfl ?_ hat (by simp [hpc])
    refine main_at_worker hinv.mainAt hmain hcreated _ (fun _ _ => .inr rfl) ?_
    exact fun _ _ _ => .inl hat
  · -- send: the contents it finds are those of the pending update
    cases h
    have hheld : s.holder = some .worker := by simpa using hworker
    have hmain := main_holds_false hinv (by simp [hheld])
    obtain ⟨before, update, hsignalled, hupdate, hsent⟩ := hinv.logged.2 hat
    rw [hpc, if_neg (by decide), List.append_nil] at hsent
    have hmainAt := main_at_worker hinv.mainAt hmain hcreated .clearWorking
      (fun _ _ => .inr rfl) (fun _ _ _ => .inl hat)
    exact {
      mainHolds := hinv.mainHolds
      workerHolds := by simpa using hheld
      mainAt := by
        show WorkerSystem.mainAt _ s.main
        cases hm : s.main <;> rw [hm] at hmainAt <;> exact hmainAt
      workerAt := hat
      logged := by
        refine ⟨fun hw => absurd (hat.symm.trans hw) (by decide), fun _ => ?_⟩
        exact ⟨before, update, hsignalled, hupdate, by rw [hsent, hupdate]; rfl⟩ }
  · -- clearWorking
    cases h
    have hheld : s.holder = some .worker := by simpa using hworker
    have hmain := main_holds_false hinv (by simp [hheld])
    have hmainAt := hinv.mainAt
    obtain ⟨before, update, hsignalled, hupdate, hsent⟩ := hinv.logged.2 hat
    rw [hpc, if_pos rfl] at hsent
    have hcleared : ∀ worker, WorkerSystem.handled { s with worker := worker, working := false } :=
      fun _ hw => absurd hw (by simp)
    exact {
      mainHolds := hinv.mainHolds
      workerHolds := by simpa using hheld
      mainAt := by
        show WorkerSystem.mainAt _ s.main
        cases hm : s.main <;> rw [hm] at hmainAt hmain
        case initLock => exact absurd hmainAt.1 hcreated
        case idle => exact ⟨hmainAt.1, rfl⟩
        case signalLock => exact ⟨hmainAt.1, rfl⟩
        case waitLock => exact ⟨hmainAt.1, hcleared _⟩
        case waiting => exact ⟨hmainAt.1, hcleared _, .inr rfl⟩
        case woken => exact ⟨hmainAt.1, hcleared _⟩
        case returning => exact ⟨hmainAt.1, rfl⟩
        all_goals cases hmain
      workerAt := trivial
      logged := by
        refine ⟨fun _ => ?_, fun hw => absurd hw (by simp)⟩
        show s.sent = s.signalled.map some
        rw [hsent, hsignalled, List.map_append]
        rfl }
  · -- signalDone
    cases h
    have hheld : s.holder = some .worker := by simpa using hworker
    have hwoken := worker_inv_wake_main hinv
    have hsame : s.wakeMain.worker = .signalDone ∧ s.wakeMain.holder = some .worker := by
      unfold WorkerSystem.wakeMain
      split_ifs <;> exact ⟨hpc, hheld⟩
    have hmain := main_holds_false hwoken (by simp [hsame.2])
    have hgone : s.wakeMain.main ≠ .waiting := by
      unfold WorkerSystem.wakeMain
      split_ifs with hwaiting
      · simp
      · exact hwaiting
    have hmainAt :
        WorkerSystem.mainAt { s.wakeMain with worker := .testAlive } s.wakeMain.main := by
      refine main_at_worker hwoken.mainAt hmain (by simp [hsame.1]) _ ?_ fun hm => absurd hm hgone
      intro hhandled hw
      simpa [hsame.1] using hhandled hw
    exact worker_inv_of_worker hwoken (by simpa using hsame.2) Iff.rfl hmainAt trivial
      (by simp [hsame.1])
  · exact hat.elim
  · cases h

theorem worker_inv_step (s : WorkerSystem) (a : WorkerAction) (t : WorkerSystem)
    (hinv : WorkerInv s) (hok : wakesInTime s a) (h : s.step a = some t) : WorkerInv t := by
  cases a with
  | set update =>
    simp only [WorkerSystem.step] at h
    split_ifs at h with hpc
    have hmain := hinv.mainHolds
    have hat := hinv.mainAt
    rw [hpc] at hmain hat
    cases update with
    | none =>
      cases h
      refine worker_inv_of_main hinv (by simpa using hmain) Iff.rfl ⟨hat.1, fun hw => ?_⟩
      exact absurd (hat.2.symm.trans hw) (by decide)
    | some update =>
      cases h
      exact worker_inv_of_main hinv (by simpa using hmain) Iff.rfl hat
  | main => exact worker_inv_main hinv hok h
  | worker => exact worker_inv_worker hinv hok h
  | spuriousMain =>
    simp only [WorkerSystem.step] at h
    split_ifs at h with hpc
    have hmain := hinv.mainHolds
    have hat := hinv.mainAt
    rw [hpc] at hmain hat
    cases h
    exact worker_inv_of_main hinv (by simpa using hmain) Iff.rfl ⟨hat.1, hat.2.1⟩
  | spuriousWorker =>
    simp only [WorkerSystem.step] at h
    split_ifs at h with hpc
    have hworker := hinv.workerHolds
    have hat := hinv.mainAt
    rw [hpc] at hworker
    cases h
    refine worker_inv_of_worker hinv (by simpa using hworker) Iff.rfl ?_ trivial (by simp [hpc])
    have hhandled : WorkerSystem.handled { s with worker := .woken } := fun _ => .inl rfl
    cases hm : s.main <;> rw [hm] at hat
    case initLock => cases hpc.symm.trans hat.1
    case create => cases hpc.symm.trans hat.1
    case initConds => cases hpc.symm.trans hat.1
    case storeUpdate => exact ⟨hat.1, hat.2.1, .inr rfl⟩
    case signalUpdate => exact ⟨hat.1, hat.2.1, .inr rfl⟩
    case waiting =>
      refine ⟨hat.1, hhandled, .inl ?_⟩
      rcases hat.2.2 with hw | hdone
      · exact hw
      · cases hpc.symm.trans hdone
    case signalUnlock => exact ⟨hat.1, hhandled⟩
    case waitLock => exact ⟨hat.1, hhandled⟩
    case testWorking => exact ⟨hat.1, hhandled⟩
    case woken => exact ⟨hat.1, hhandled⟩
    all_goals exact hat

/-- While an update is unsent the two threads stand at one of few places. -/
theorem unsent_places {s : WorkerSystem} (hinv : WorkerInv s)
    (hunsent : s.sent ≠ s.signalled.map some) :
    s.working = true ∧ s.alive = true ∧
    ((s.main = .signalUpdate ∧ (s.worker = .waiting ∨ s.worker = .woken)) ∨
    ((s.main = .signalUnlock ∨ s.main = .waitLock ∨ s.main = .testWorking ∨ s.main = .waiting ∨
        s.main = .woken) ∧
      (s.worker = .woken ∨ s.worker = .testAgain ∨ s.worker = .send))) := by
  have hw : s.working = true := by
    by_contra hidle
    exact hunsent (hinv.logged.1 (by simpa using hidle))
  have hnot : s.worker ≠ .clearWorking := by
    intro hclear
    obtain ⟨before, update, hsignalled, -, hsent⟩ := hinv.logged.2 hw
    rw [if_pos hclear] at hsent
    exact hunsent (by rw [hsent, hsignalled, List.map_append]; rfl)
  have hplace : s.handled → s.worker = .woken ∨ s.worker = .testAgain ∨ s.worker = .send := by
    intro hhandled
    rcases hhandled hw with hwoken | hbusy
    · exact .inl hwoken
    · cases hpc : s.worker <;> rw [hpc] at hbusy hnot <;> simp at hbusy hnot ⊢
  have hat := hinv.mainAt
  refine ⟨hw, ?_⟩
  cases hm : s.main <;> rw [hm] at hat
  case signalUpdate => exact ⟨hat.1, .inl ⟨rfl, hat.2.2⟩⟩
  case signalUnlock => exact ⟨hat.1, .inr ⟨.inl rfl, hplace hat.2⟩⟩
  case waitLock => exact ⟨hat.1, .inr ⟨.inr (.inl rfl), hplace hat.2⟩⟩
  case testWorking => exact ⟨hat.1, .inr ⟨.inr (.inr (.inl rfl)), hplace hat.2⟩⟩
  case waiting => exact ⟨hat.1, .inr ⟨.inr (.inr (.inr (.inl rfl))), hplace hat.2.1⟩⟩
  case woken => exact ⟨hat.1, .inr ⟨.inr (.inr (.inr (.inr rfl))), hplace hat.2⟩⟩
  case storeUpdate => cases hat.2.1.symm.trans hw
  all_goals cases hat.2.symm.trans hw

theorem unsent_step_possible {s : WorkerSystem} (hinv : WorkerInv s)
    (hunsent : s.sent ≠ s.signalled.map some) :
    ∃ a, (a = .main ∨ a = .worker) ∧ wakesInTime s a ∧ (s.step a).isSome := by
  obtain ⟨hw, halive, hplaces⟩ := unsent_places hinv hunsent
  have hmain := hinv.mainHolds
  have hworker := hinv.workerHolds
  cases hholder : s.holder with
  | none =>
    -- nobody is inside, so the worker is the one that can take the mutex
    rw [hholder] at hmain hworker
    have hwoken : s.worker = .woken := by
      rcases hplaces with ⟨hm, -⟩ | ⟨-, hwk | hwk | hwk⟩
      · simp [hm] at hmain
      · exact hwk
      · simp [hwk] at hworker
      · simp [hwk] at hworker
    refine ⟨.worker, .inr rfl, fun _ => hw, ?_⟩
    simp [WorkerSystem.step, WorkerSystem.stepWorker, hwoken, WorkerSystem.lock, hholder]
  | some th =>
    rw [hholder] at hmain hworker
    cases th with
    | main =>
      have hm : s.main = .signalUpdate ∨ s.main = .signalUnlock ∨ s.main = .testWorking := by
        rcases hplaces with ⟨hm, -⟩ | ⟨hm | hm | hm | hm | hm, -⟩ <;> simp [hm] at hmain ⊢
      refine ⟨.main, .inl rfl, ?_, ?_⟩
      · rcases hm with hm | hm | hm <;> simp [wakesInTime, hm]
      · rcases hm with hm | hm | hm <;>
          simp [WorkerSystem.step, WorkerSystem.stepMain, hm, hw]
    | worker =>
      have hwk : s.worker = .testAgain ∨ s.worker = .send := by
        rcases hplaces with ⟨-, hwk | hwk⟩ | ⟨-, hwk | hwk | hwk⟩ <;> simp [hwk] at hworker ⊢
      refine ⟨.worker, .inr rfl, fun _ => hw, ?_⟩
      rcases hwk with hwk | hwk <;> simp [WorkerSystem.step, WorkerSystem.stepWorker, hwk]

theorem unsent_step_closer {s t : WorkerSystem} (hinv : WorkerInv s)
    (hunsent : s.sent ≠ s.signalled.map some) {a : WorkerAction} (hok : wakesInTime s a)
    (h : s.step a = some t) : t.sent = s.signalled.map some ∨ t.stepsLeft < s.stepsLeft := by
  obtain ⟨hw, halive, hplaces⟩ := unsent_places hinv hunsent
  cases a with
  | set update =>
    simp only [WorkerSystem.step] at h
    split_ifs at h with hidle
    simp [hidle] at hplaces
  | main =>
    right
    simp only [WorkerSystem.step, WorkerSystem.stepMain] at h
    rcases hplaces with ⟨hm, hwk | hwk⟩ | ⟨hm | hm | hm | hm | hm, -⟩
    · simp only [hm, WorkerSystem.wakeWorker, hwk, if_true, Option.some.injEq] at h
      subst h
      simp [WorkerSystem.stepsLeft, hm, hwk]
    · simp only [hm, WorkerSystem.wakeWorker, hwk, reduceCtorEq, if_false, Option.some.injEq] at h
      subst h
      simp [WorkerSystem.stepsLeft, hm, hwk]
    · simp only [hm, Option.some.injEq] at h
      subst h
      simp [WorkerSystem.stepsLeft, WorkerSystem.unlock, hm]
    · simp only [hm] at h
      obtain ⟨-, rfl⟩ := lock_map_eq_some h
      simp [WorkerSystem.stepsLeft, hm]
    · simp only [hm, hw, if_true, Option.some.injEq] at h
      subst h
      simp [WorkerSystem.stepsLeft, WorkerSystem.unlock, hm]
    · simp [hm] at h
    · exact absurd hok (by simp [wakesInTime, hm, hw])
  | worker =>
    simp only [WorkerSystem.step, WorkerSystem.stepWorker] at h
    have hwk : s.worker = .waiting ∨ s.worker = .woken ∨ s.worker = .testAgain ∨
        s.worker = .send := by
      rcases hplaces with ⟨-, hwk | hwk⟩ | ⟨-, hwk | hwk | hwk⟩ <;> simp [hwk]
    rcases hwk with hwk | hwk | hwk | hwk
    · simp [hwk] at h
    · right
      simp only [hwk] at h
      obtain ⟨-, rfl⟩ := lock_map_eq_some h
      simp [WorkerSystem.stepsLeft, hwk]
    · right
      simp only [hwk, halive, if_true, Option.some.injEq] at h
      subst h
      simp [WorkerSystem.stepsLeft, hwk]
    · -- the send itself
      left
      simp only [hwk, Option.some.injEq] at h
      subst h
      obtain ⟨before, update, hsignalled, hupdate, hsent⟩ := hinv.logged.2 hw
      rw [hwk, if_neg (by decide), List.append_nil] at hsent
      rw [hsignalled, List.map_append]
      show s.sent ++ [s.update] = _
      rw [hsent, hupdate]
      rfl
  | spuriousMain =>
    right
    simp only [WorkerSystem.step] at h
    split_ifs at h with hm
    cases h
    simp [WorkerSystem.stepsLeft, hm]
  | spuriousWorker =>
    right
    simp only [WorkerSystem.step] at h
    split_ifs at h with hwk
    cases h
    simp [WorkerSystem.stepsLeft, hwk]

theorem sent_in_order {s : WorkerSystem} (hinv : WorkerInv s) :
    s.sent <+: s.signalled.map some := by
  cases hw : s.working with
  | false =>
    have hall := hinv.logged.1 hw
    exact ⟨[], (List.append_nil _).trans hall⟩
  | true =>
    obtain ⟨before, update, hsignalled, -, hsent⟩ := hinv.logged.2 hw
    rw [hsent, hsignalled, List.map_append, List.prefix_append_right_inj]
    split_ifs
    · exact List.prefix_refl _
    · exact List.nil_prefix

/-- In a run whose signals and wake-ups come in time: the sends are those of the updates handed
over, in order; all of them are done, and the worker is not in the middle of one, when set
returns; a send finds its own update pending; the two threads do not wait for each other; and an
update that is not sent yet can always be, and is after a bounded number of steps. -/
theorem worker_serves_updates (as : List WorkerAction) {s : WorkerSystem}
    (hok : Meets WorkerSystem.step wakesInTime .opened as)
    (hrun : run WorkerSystem.step .opened as = some s) :
    s.sent <+: s.signalled.map some ∧
    (s.main = .returning → s.worker.busy = false ∧ s.sent = s.signalled.map some) ∧
    (s.worker = .send → s.working = true ∧
      ∃ update, s.update = some update ∧ s.signalled.map some = s.sent ++ [some update]) ∧
    ¬ (s.worker = .waiting ∧ s.working = true ∧ s.main = .waiting) ∧
    (s.sent ≠ s.signalled.map some →
      (∃ a, (a = .main ∨ a = .worker) ∧ wakesInTime s a ∧ (s.step a).isSome) ∧
      ∀ a t, wakesInTime s a → s.step a = some t →
        t.sent = s.signalled.map some ∨ t.stepsLeft < s.stepsLeft) := by
  have hinv : WorkerInv s := run_induction_of_meets worker_inv_step worker_inv_opened hok hrun
  refine ⟨sent_in_order hinv, ?_, ?_, ?_, ?_⟩
  · intro hm
    have hat := hinv.mainAt
    rw [hm] at hat
    refine ⟨?_, hinv.logged.1 hat.2⟩
    have hwk := hinv.workerAt
    cases hpc : s.worker <;> rw [hpc] at hwk <;> first | rfl | cases hat.2.symm.trans hwk
  · intro hpc
    have hw := hinv.workerAt
    rw [hpc] at hw
    obtain ⟨before, update, hsignalled, hupdate, hsent⟩ := hinv.logged.2 hw
    rw [hpc, if_neg (by decide), List.append_nil] at hsent
    refine ⟨hw, update, hupdate, ?_⟩
    rw [hsent, hsignalled, List.map_append]
    rfl
  · rintro ⟨hpc, hw, hm⟩
    have hat := hinv.mainAt
    rw [hm] at hat
    simpa [hpc] using hat.2.1 hw
  · intro hunsent
    exact ⟨unsent_step_possible hinv hunsent,
      fun a t hok h => unsent_step_closer hinv hunsent hok h⟩

def sampleUpdate : WorkerUpdate :=
  ⟨some ⟨0, [sampleLayer 7 hwcOverlay]⟩, 1, 0, ⟨0, 0, 480, 800⟩, 0, 0⟩

/-- The worker reaches its wait before the first update is signalled. -/
def timelyActions : List WorkerAction :=
  [.main, .main, .main, .main, .worker, .worker, .set (some sampleUpdate), .main, .main, .main,
    .main, .worker, .worker, .worker, .worker, .worker, .worker, .main, .main, .main]

theorem worker_serves_sample : ∃ s, run WorkerSystem.step .opened timelyActions = some s ∧
    s.main = .returning ∧ s.sent = [some sampleUpdate] := by
  obtain ⟨-, hreturn, -⟩ := worker_serves_updates timelyActions (by decide) rfl
  exact ⟨_, rfl, rfl, (hreturn rfl).2⟩

/-- The main thread signals before the worker has reached its wait: the signal is lost, the
worker waits for it, and set waits for the worker. -/
theorem worker_misses_first_update : ∃ s, run WorkerSystem.step .opened
      [.main, .main, .main, .main, .set (some sampleUpdate), .main, .main, .main, .main,
        .main, .main, .worker, .worker] = some s ∧
    s.worker = .waiting ∧ s.working = true ∧ s.main = .waiting ∧
    s.signalled = [sampleUpdate] ∧ s.sent = [] :=
  ⟨_, rfl, rfl, rfl, rfl, rfl, rfl⟩

end Codinalte.Hwcomposer
