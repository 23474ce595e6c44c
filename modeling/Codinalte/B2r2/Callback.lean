import Codinalte.Lib.Machine
import Mathlib.Data.Int.Init

/-! The callbacks of a handle of the blit library: calls of `blt_request` from any number of
threads, the driver, the thread that runs the callbacks, and at last `blt_close`. A section under
`event_mutex` is one step. -/

namespace Codinalte.B2r2

inductive ThreadEvent where
  | none
  | handleTerminated
  | requestCallback
deriving DecidableEq

/-- `NULL` is zero. The driver finds `callback` and `callbackData` where it has `report1` and
`report2`. -/
structure Request where
  callback : Nat
  callbackData : Nat
  reportWhenDone : Bool
deriving DecidableEq

/-- The flags that go to the driver. -/
def Request.flagged (req : Request) : Request :=
  if req.callback ≠ 0 then { req with reportWhenDone := true } else req

/-- A request that the driver has accepted; `number` is a record of how many came before it. -/
structure Job where
  number : Nat
  requestId : Nat
  request : Request
deriving DecidableEq

def Job.hasCallback (j : Job) : Bool := j.request.callback != 0

/-- `numberReports` is the variable of the thread. What the driver reports is `requestId`, and
`callback` and `callbackData` of the request. -/
inductive ThreadPc where
  | loop (numberReports : Int)
  | waiting (numberReports : Int)
  | woken (numberReports : Int)
  | draining (event : ThreadEvent) (numberReports : Int)
  | calling (event : ThreadEvent) (numberReports : Int) (report : Job)
  | exited
deriving DecidableEq

inductive ClosePc where
  | absent
  | joining
  | closed
deriving DecidableEq

/-- `entered` and `accepted` are the calls of `blt_request` before their `ioctl`, and those with a
callback between it and their section. `admitted` and `called` are records: the requests that the
driver has accepted, and those whose callback has been run. -/
structure Handle where
  event : ThreadEvent
  numberReports : Int
  thread : ThreadPc
  closer : ClosePc
  entered : List Request
  accepted : List Job
  pending : List Job
  reports : List Job
  admitted : List Job
  called : List Job
deriving DecidableEq

def Handle.opened : Handle where
  event := .none
  numberReports := 0
  thread := .loop 0
  closer := .absent
  entered := []
  accepted := []
  pending := []
  reports := []
  admitted := []
  called := []

/-- What an `int` holds. -/
def toInt (value : Int) : Int := Int.bmod value 4294967296

/-- `pthread_cond_signal` finds the thread waiting or does nothing. -/
def ThreadPc.signalled : ThreadPc → ThreadPc
  | .waiting number => .woken number
  | pc => pc

namespace Handle

/-- `ioctl`: a request that is not accepted is given back at once, and so is one without a
callback. -/
def issue (h : Handle) (k : Nat) (req : Request) (ret : Option Nat) : Handle :=
  match ret with
  | none => { h with entered := h.entered.eraseIdx k }
  | some requestId =>
    let j : Job := ⟨h.admitted.length, requestId, req.flagged⟩
    { h with
      entered := h.entered.eraseIdx k
      accepted := if req.callback ≠ 0 then j :: h.accepted else h.accepted
      pending := j :: h.pending
      admitted := h.admitted ++ [j] }

/-- The section of `blt_request`. -/
def requestCallback (h : Handle) (k : Nat) : Handle :=
  { h with
    event := .requestCallback
    numberReports := toInt (h.numberReports + 1)
    thread := h.thread.signalled
    accepted := h.accepted.eraseIdx k }

def complete (h : Handle) (k : Nat) (j : Job) : Handle :=
  { h with
    pending := h.pending.eraseIdx k
    reports := if j.request.reportWhenDone then h.reports ++ [j] else h.reports }

/-- The rest of the section of the thread, once it does not wait. -/
def takeEvent (h : Handle) (number : Int) : Handle :=
  { h with
    event := .none
    numberReports := 0
    thread := .draining h.event (toInt (number + h.numberReports)) }

/-- A `read` that fails ends the thread; one without a report blocks. -/
def readReport (h : Handle) (event : ThreadEvent) (number : Int) (failed : Bool) : Option Handle :=
  if failed then some { h with thread := .exited }
  else match h.reports with
    | [] => none
    | report :: reports =>
      some { h with
        reports := reports
        thread := if report.hasCallback then .calling event number report
          else .draining event number }

def threadStep (h : Handle) (failed : Bool) : Option Handle :=
  match h.thread with
  | .loop number =>
    some (if h.event = .none then { h with thread := .waiting number } else h.takeEvent number)
  | .woken number => some (h.takeEvent number)
  | .draining event number =>
    if 0 < number then h.readReport event number failed
    else some { h with thread := if event = .handleTerminated then .exited else .loop number }
  | .calling event number report =>
    some { h with
      thread := .draining event (toInt (number - 1))
      called := h.called ++ [report] }
  | .waiting _ | .exited => none

def postTerminated (h : Handle) : Handle :=
  { h with event := .handleTerminated, thread := h.thread.signalled, closer := .joining }

end Handle

inductive BltAction where
  | enter (req : Request)
  | ioctl (k : Nat) (ret : Option Nat)
  | requestCallback (k : Nat)
  | complete (k : Nat)
  | thread (failed : Bool)
  | spuriousWakeUp
  | close
  | join

/-- After `blt_close` has freed the handle a new call is refused, and one that is still under way
has no defined step. -/
def Handle.step (h : Handle) : BltAction → Option Handle
  | .enter req =>
    if h.closer = .closed then some h else some { h with entered := req :: h.entered }
  | .ioctl k ret =>
    if h.closer = .closed then none else h.entered[k]?.map fun req => h.issue k req ret
  | .requestCallback k =>
    if h.closer = .closed then none else h.accepted[k]?.map fun _ => h.requestCallback k
  | .complete k => h.pending[k]?.map fun j => h.complete k j
  | .thread failed => h.threadStep failed
  | .spuriousWakeUp =>
    match h.thread with
    | .waiting number => some { h with thread := .woken number }
    | _ => none
  | .close => if h.closer = .absent then some h.postTerminated else none
  | .join =>
    if h.closer = .joining ∧ h.thread = .exited then some { h with closer := .closed } else none

section Cases
variable {h t : Handle}

theorem thread_step_cases {failed : Bool} (hstep : h.threadStep failed = some t) :
    (∃ n, h.thread = .loop n ∧ h.event = .none ∧ t = { h with thread := .waiting n }) ∨
    (∃ n, (h.thread = .loop n ∧ h.event ≠ .none ∨ h.thread = .woken n) ∧ t = h.takeEvent n) ∨
    (∃ event n, h.thread = .draining event n ∧ 0 < n ∧ h.readReport event n failed = some t) ∨
    (∃ event n, h.thread = .draining event n ∧ n ≤ 0 ∧
      t = { h with thread := if event = .handleTerminated then .exited else .loop n }) ∨
    ∃ event n report, h.thread = .calling event n report ∧
      t = { h with
        thread := .draining event (toInt (n - 1))
        called := h.called ++ [report] } := by
  unfold Handle.threadStep at hstep
  cases hpc : h.thread with
  | loop n =>
    simp only [hpc] at hstep
    by_cases hnone : h.event = .none
    · rw [if_pos hnone] at hstep
      exact .inl ⟨n, rfl, hnone, (Option.some.inj hstep).symm⟩
    · rw [if_neg hnone] at hstep
      exact .inr (.inl ⟨n, .inl ⟨rfl, hnone⟩, (Option.some.inj hstep).symm⟩)
  | woken n =>
    simp only [hpc] at hstep
    exact .inr (.inl ⟨n, .inr rfl, (Option.some.inj hstep).symm⟩)
  | draining event n =>
    simp only [hpc] at hstep
    by_cases hpos : 0 < n
    · rw [if_pos hpos] at hstep
      exact .inr (.inr (.inl ⟨event, n, rfl, hpos, hstep⟩))
    · rw [if_neg hpos] at hstep
      refine .inr (.inr (.inr (.inl ⟨event, n, rfl, ?_, (Option.some.inj hstep).symm⟩)))
      exact Int.not_lt.mp hpos
  | calling event n report =>
    simp only [hpc] at hstep
    exact .inr (.inr (.inr (.inr ⟨event, n, report, rfl, (Option.some.inj hstep).symm⟩)))
  | waiting n | exited =>
    simp only [hpc] at hstep
    cases hstep

theorem read_report_cases {event : ThreadEvent} {n : Int} {failed : Bool}
    (hstep : h.readReport event n failed = some t) :
    (failed = true ∧ t = { h with thread := .exited }) ∨
    failed = false ∧ ∃ report reports, h.reports = report :: reports ∧
      t = { h with
        reports := reports
        thread := if report.hasCallback then .calling event n report else .draining event n } := by
  unfold Handle.readReport at hstep
  cases failed with
  | true => exact .inl ⟨rfl, (Option.some.inj hstep).symm⟩
  | false =>
    cases hreports : h.reports with
    | nil =>
      simp only [hreports] at hstep
      cases hstep
    | cons report reports =>
      simp only [hreports] at hstep
      exact .inr ⟨rfl, report, reports, rfl, (Option.some.inj hstep).symm⟩

theorem enter_cases {req : Request} (hstep : h.step (.enter req) = some t) :
    t = h ∨ t = { h with entered := req :: h.entered } := by
  simp only [Handle.step] at hstep
  by_cases hclosed : h.closer = .closed
  · rw [if_pos hclosed] at hstep
    exact .inl (Option.some.inj hstep).symm
  · rw [if_neg hclosed] at hstep
    exact .inr (Option.some.inj hstep).symm

theorem spurious_cases (hstep : h.step .spuriousWakeUp = some t) :
    ∃ n, h.thread = .waiting n ∧ t = { h with thread := .woken n } := by
  simp only [Handle.step] at hstep
  cases hpc : h.thread with
  | waiting n =>
    rw [hpc] at hstep
    exact ⟨n, rfl, (Option.some.inj hstep).symm⟩
  | _ =>
    rw [hpc] at hstep
    cases hstep

end Cases

end Codinalte.B2r2
