import Codinalte.B2r2.Callback
import Mathlib.Data.List.Nodup
import Mathlib.Data.List.Perm.Basic
import Mathlib.Tactic.SplitIfs

/-! Every callback of a handle is run once before its thread leaves, and `blt_close` always finds an
end, where no accepted request is still to announce its report when `EVENT_HANDLE_TERMINATED` is
posted, none is accepted after it, and no `read` fails. -/

namespace Codinalte.B2r2
open Codinalte.Machine

def callbacks (js : List Job) : List Job := js.filter Job.hasCallback

namespace ThreadPc

/-- The report that has been read and whose callback is still to be run. -/
def held : ThreadPc → List Job
  | .calling _ _ report => [report]
  | _ => []

def number : ThreadPc → Int
  | .loop n | .waiting n | .woken n | .draining _ n | .calling _ n _ => n
  | .exited => 0

/-- The thread has found `EVENT_HANDLE_TERMINATED`. -/
def Observed : ThreadPc → Prop
  | .draining event _ | .calling event _ _ => event = .handleTerminated
  | .exited => True
  | _ => False

def Waits (pc : ThreadPc) : Prop := ∃ n, pc = .waiting n

@[simp] theorem signalled_held (pc : ThreadPc) : pc.signalled.held = pc.held := by
  cases pc <;> rfl

@[simp] theorem signalled_number (pc : ThreadPc) : pc.signalled.number = pc.number := by
  cases pc <;> rfl

theorem signalled_observed (pc : ThreadPc) : pc.signalled.Observed ↔ pc.Observed := by
  cases pc <;> exact Iff.rfl

theorem signalled_not_waits (pc : ThreadPc) : ¬ pc.signalled.Waits := by
  rintro ⟨n, hn⟩
  cases pc <;> cases hn

end ThreadPc

section Jobs
variable {js : List Job} {k : Nat} {j : Job}

theorem perm_of_get (h : js[k]? = some j) : (j :: js.eraseIdx k).Perm js := by
  obtain ⟨hlt, rfl⟩ := List.getElem?_eq_some_iff.mp h
  exact List.getElem_cons_eraseIdx_perm hlt

theorem callbacks_perm_of_get (h : js[k]? = some j) :
    (callbacks (j :: js.eraseIdx k)).Perm (callbacks js) := (perm_of_get h).filter _

theorem callbacks_cons (j : Job) (js : List Job) :
    callbacks (j :: js) = if j.hasCallback then j :: callbacks js else callbacks js :=
  List.filter_cons

theorem callbacks_append (js ks : List Job) :
    callbacks (js ++ ks) = callbacks js ++ callbacks ks := List.filter_append ..

theorem flagged_reports (req : Request) (h : req.callback ≠ 0) :
    req.flagged.reportWhenDone = true := by
  unfold Request.flagged
  rw [if_pos h]

theorem flagged_callback (req : Request) : req.flagged.callback = req.callback := by
  unfold Request.flagged
  split_ifs <;> rfl

end Jobs

/-- A request with a callback is reported, and is in one place from the driver to its callback. -/
structure PlacesInv (h : Handle) : Prop where
  numbers : h.admitted.map Job.number = List.range h.admitted.length
  reported : ∀ j ∈ h.pending, j.hasCallback = true → j.request.reportWhenDone = true
  places : ∀ j, (callbacks h.admitted).count j = h.called.count j + h.thread.held.count j +
    (callbacks h.reports).count j + (callbacks h.pending).count j

theorem places_inv_opened : PlacesInv .opened where
  numbers := rfl
  reported := by simp [Handle.opened]
  places := fun _ => rfl

section Steps
variable {h t : Handle}

theorem PlacesInv.congr (hinv : PlacesInv h) (hadmitted : t.admitted = h.admitted)
    (hpending : t.pending = h.pending) (hreports : t.reports = h.reports)
    (hcalled : t.called = h.called) (hheld : t.thread.held = h.thread.held) : PlacesInv t where
  numbers := by
    rw [hadmitted]
    exact hinv.numbers
  reported := by
    rw [hpending]
    exact hinv.reported
  places := by
    rw [hadmitted, hpending, hreports, hcalled, hheld]
    exact hinv.places

theorem places_inv_issue (hinv : PlacesInv h) (k : Nat) (req : Request) (ret : Option Nat) :
    PlacesInv (h.issue k req ret) := by
  cases ret with
  | none => exact hinv.congr rfl rfl rfl rfl rfl
  | some requestId =>
    constructor
    · show (h.admitted ++ [_]).map Job.number = List.range (h.admitted ++ [_]).length
      rw [List.map_append, hinv.numbers, List.length_append, List.length_singleton,
        List.range_succ]
      rfl
    · intro j hj hcallback
      rcases List.mem_cons.mp hj with rfl | hmem
      · have hne : req.callback ≠ 0 := by
          rw [← flagged_callback req]
          simpa [Job.hasCallback] using hcallback
        exact flagged_reports req hne
      · exact hinv.reported j hmem hcallback
    · intro j
      have hplaces := hinv.places j
      show (callbacks (h.admitted ++ [_])).count j = h.called.count j + h.thread.held.count j +
        (callbacks h.reports).count j + (callbacks (_ :: h.pending)).count j
      rw [callbacks_append, callbacks_cons, callbacks_cons, List.count_append]
      split_ifs
      · rw [List.count_cons, List.count_cons]
        show _ + (0 + _) = _
        omega
      · show _ + 0 = _
        omega

theorem places_inv_complete (hinv : PlacesInv h) {k : Nat} {j : Job}
    (hj : h.pending[k]? = some j) : PlacesInv (h.complete k j) := by
  have hperm := callbacks_perm_of_get hj
  refine ⟨hinv.numbers, ?_, ?_⟩
  · intro i hi
    exact hinv.reported i (List.mem_of_mem_eraseIdx hi)
  · intro i
    have hplaces := hinv.places i
    have hcount := hperm.count_eq i
    rw [callbacks_cons] at hcount
    have hreported := hinv.reported j (List.mem_of_getElem? hj)
    show (callbacks h.admitted).count i = h.called.count i + h.thread.held.count i +
      (callbacks (if j.request.reportWhenDone then h.reports ++ [j] else h.reports)).count i +
      (callbacks (h.pending.eraseIdx k)).count i
    by_cases hcallback : j.hasCallback
    · rw [if_pos (hreported hcallback), callbacks_append, callbacks_cons, if_pos hcallback,
        List.count_append, List.count_cons]
      rw [if_pos hcallback, List.count_cons] at hcount
      show _ = _ + (_ + (0 + _)) + _
      omega
    · rw [if_neg hcallback] at hcount
      have hsame : callbacks (if j.request.reportWhenDone then h.reports ++ [j] else h.reports) =
          callbacks h.reports := by
        split_ifs
        · rw [callbacks_append, callbacks_cons, if_neg hcallback]
          exact List.append_nil _
        · rfl
      rw [hsame]
      omega

theorem places_inv_read (hinv : PlacesInv h) {event : ThreadEvent} {n : Int} {failed : Bool}
    (hpc : h.thread = .draining event n) (hstep : h.readReport event n failed = some t) :
    PlacesInv t := by
  have hheld : h.thread.held = [] := by rw [hpc]; rfl
  rcases read_report_cases hstep with ⟨-, rfl⟩ | ⟨-, report, reports, hreports, rfl⟩
  · exact hinv.congr rfl rfl rfl rfl (by rw [hheld]; rfl)
  · refine ⟨hinv.numbers, hinv.reported, ?_⟩
    intro j
    have hplaces := hinv.places j
    rw [hheld, hreports, callbacks_cons] at hplaces
    simp only []
    split_ifs at hplaces ⊢ with hcallback
    · rw [List.count_cons, List.count_nil] at hplaces
      show _ = _ + [report].count j + _ + _
      rw [List.count_cons, List.count_nil]
      omega
    · exact hplaces

theorem places_inv_thread (hinv : PlacesInv h) {failed : Bool}
    (hstep : h.threadStep failed = some t) : PlacesInv t := by
  rcases thread_step_cases hstep with ⟨n, hpc, -, rfl⟩ | ⟨n, hpc | hpc, rfl⟩ |
    ⟨event, n, hpc, -, hread⟩ | ⟨event, n, hpc, -, rfl⟩ | ⟨event, n, report, hpc, rfl⟩
  · exact hinv.congr rfl rfl rfl rfl (by rw [hpc]; rfl)
  · exact hinv.congr rfl rfl rfl rfl (by rw [hpc.1]; rfl)
  · exact hinv.congr rfl rfl rfl rfl (by rw [hpc]; rfl)
  · exact places_inv_read hinv hpc hread
  · refine hinv.congr rfl rfl rfl rfl ?_
    rw [hpc]
    dsimp only
    split_ifs <;> rfl
  · refine ⟨hinv.numbers, hinv.reported, ?_⟩
    intro j
    have hplaces := hinv.places j
    rw [hpc] at hplaces
    show _ = (h.called ++ [report]).count j + 0 + _ + _
    rw [List.count_append]
    exact hplaces

theorem places_inv_step (h : Handle) (a : BltAction) (t : Handle) (hinv : PlacesInv h)
    (hstep : h.step a = some t) : PlacesInv t := by
  cases a with
  | enter req =>
    rcases enter_cases hstep with rfl | rfl
    · exact hinv
    · exact hinv.congr rfl rfl rfl rfl rfl
  | ioctl k ret =>
    obtain ⟨-, hmap⟩ := Option.ite_none_left_eq_some.mp hstep
    obtain ⟨req, -, rfl⟩ := Option.map_eq_some_iff.mp hmap
    exact places_inv_issue hinv k req ret
  | requestCallback k =>
    obtain ⟨-, hmap⟩ := Option.ite_none_left_eq_some.mp hstep
    obtain ⟨j, -, rfl⟩ := Option.map_eq_some_iff.mp hmap
    exact hinv.congr rfl rfl rfl rfl (ThreadPc.signalled_held _)
  | complete k =>
    obtain ⟨j, hj, rfl⟩ := Option.map_eq_some_iff.mp hstep
    exact places_inv_complete hinv hj
  | thread failed => exact places_inv_thread hinv hstep
  | spuriousWakeUp =>
    obtain ⟨n, hpc, rfl⟩ := spurious_cases hstep
    exact hinv.congr rfl rfl rfl rfl (by rw [hpc]; rfl)
  | close =>
    obtain ⟨-, heq⟩ := Option.ite_none_right_eq_some.mp hstep
    cases heq
    exact hinv.congr rfl rfl rfl rfl (ThreadPc.signalled_held _)
  | join =>
    obtain ⟨-, heq⟩ := Option.ite_none_right_eq_some.mp hstep
    cases heq
    exact hinv.congr rfl rfl rfl rfl rfl

end Steps

theorem places_inv_run {as : List BltAction} {h : Handle}
    (hrun : run Handle.step .opened as = some h) : PlacesInv h :=
  run_induction places_inv_step places_inv_opened hrun

theorem admitted_nodup {h : Handle} (hinv : PlacesInv h) : h.admitted.Nodup := by
  have hnumbers : (h.admitted.map Job.number).Nodup := by
    rw [hinv.numbers]
    exact List.nodup_range
  exact List.Nodup.of_map _ hnumbers

theorem called_count_le {h : Handle} (hinv : PlacesInv h) (j : Job) :
    h.called.count j ≤ (callbacks h.admitted).count j := by
  have hplaces := hinv.places j
  omega

theorem called_nodup {h : Handle} (hinv : PlacesInv h) : h.called.Nodup := by
  have hcallbacks : (callbacks h.admitted).Nodup := (admitted_nodup hinv).filter _
  rw [List.nodup_iff_count_le_one] at hcallbacks ⊢
  intro j
  exact Nat.le_trans (called_count_le hinv j) (hcallbacks j)

theorem called_admitted {h : Handle} (hinv : PlacesInv h) {j : Job} (hj : j ∈ h.called) :
    j ∈ h.admitted ∧ j.hasCallback = true := by
  have hpos : 0 < (callbacks h.admitted).count j :=
    Nat.lt_of_lt_of_le (List.count_pos_iff.mpr hj) (called_count_le hinv j)
  exact List.mem_filter.mp (List.count_pos_iff.mp hpos)

/-- The driver accepts no request with a callback once `EVENT_HANDLE_TERMINATED` is posted, and
every one before that has been announced by then; `number_reports` does not overflow; no `read`
fails. -/
def Handle.orderly (h : Handle) : BltAction → Bool
  | .ioctl k (some _) =>
    h.entered[k]?.all fun req => req.callback == 0 || h.closer == .absent
  | .requestCallback _ => h.numberReports < 2147483647
  | .close => h.accepted.isEmpty
  | .thread true =>
    match h.thread with
    | .draining _ n => n ≤ 0
    | _ => true
  | _ => true

def ThreadPc.AtEvent : ThreadPc → Prop
  | .loop _ | .waiting _ | .woken _ => True
  | _ => False

/-- The thread is told of as many reports as there are to come. -/
structure CountedInv (h : Handle) : Prop where
  counted : h.numberReports + h.thread.number + h.accepted.length =
    h.thread.held.length + (callbacks h.reports).length + (callbacks h.pending).length
  posted : 0 ≤ h.numberReports ∧ h.numberReports < 2147483648
  taken : 0 ≤ h.thread.number ∧ h.thread.number < 2147483648
  drained : h.thread.AtEvent → h.thread.number = 0
  running : ∀ event n report, h.thread = .calling event n report → 0 < n

theorem counted_inv_opened : CountedInv .opened where
  counted := rfl
  posted := ⟨by decide, by decide⟩
  taken := ⟨by decide, by decide⟩
  drained := fun _ => rfl
  running := by
    intro event n report heq
    cases heq

theorem toInt_of_nonneg {x : Int} (h0 : 0 ≤ x) (h1 : x < 2147483648) : toInt x = x :=
  Int.bmod_eq_of_le (by omega) (by omega)

section Steps
variable {h t : Handle}

/-- The thread stays where it is, but for a wake-up. -/
theorem CountedInv.keep (hinv : CountedInv h)
    (hthread : t.thread = h.thread ∨ t.thread = h.thread.signalled)
    (hposted : 0 ≤ t.numberReports ∧ t.numberReports < 2147483648)
    (hcounted : t.numberReports + t.accepted.length + (callbacks h.reports).length +
      (callbacks h.pending).length = h.numberReports + h.accepted.length +
      (callbacks t.reports).length + (callbacks t.pending).length) : CountedInv t := by
  have hnumber : t.thread.number = h.thread.number := by
    rcases hthread with heq | heq <;> rw [heq]
    exact ThreadPc.signalled_number _
  have hheld : t.thread.held = h.thread.held := by
    rcases hthread with heq | heq <;> rw [heq]
    exact ThreadPc.signalled_held _
  have hcount := hinv.counted
  refine ⟨?_, hposted, ?_, ?_, ?_⟩
  · rw [hnumber, hheld]
    omega
  · rw [hnumber]
    exact hinv.taken
  · intro hat
    rw [hnumber]
    apply hinv.drained
    rcases hthread with heq | heq <;> rw [heq] at hat
    · exact hat
    · cases hpc : h.thread <;> rw [hpc] at hat <;> first | exact trivial | exact hat
  · intro event n report hpc
    apply hinv.running event n report
    rcases hthread with heq | heq <;> rw [heq] at hpc
    · exact hpc
    · cases hold : h.thread <;> rw [hold] at hpc <;> first | exact hpc | cases hpc

theorem counted_inv_issue (hinv : CountedInv h) (k : Nat) (req : Request) (ret : Option Nat) :
    CountedInv (h.issue k req ret) := by
  cases ret with
  | none => exact hinv.keep (.inl rfl) hinv.posted rfl
  | some requestId =>
    refine hinv.keep (.inl rfl) hinv.posted ?_
    -- the request counts on both sides, or on none
    show _ + ((if req.callback ≠ 0 then _ :: h.accepted else h.accepted).length : Int) + _ + _ =
      _ + _ + _ + ((callbacks (_ :: h.pending)).length : Int)
    rw [callbacks_cons]
    have hiff : (⟨h.admitted.length, requestId, req.flagged⟩ : Job).hasCallback = true ↔
        req.callback ≠ 0 := by
      rw [← flagged_callback req]
      simp [Job.hasCallback]
    by_cases hcallback : req.callback ≠ 0
    · rw [if_pos hcallback, if_pos (hiff.mpr hcallback), List.length_cons, List.length_cons]
      simp only [Handle.issue]
      omega
    · rw [if_neg hcallback, if_neg (fun hc => hcallback (hiff.mp hc))]
      rfl

theorem counted_inv_request (hinv : CountedInv h) {k : Nat} {j : Job}
    (hj : h.accepted[k]? = some j) (hroom : h.numberReports < 2147483647) :
    CountedInv (h.requestCallback k) := by
  have hposted := hinv.posted
  have hnumber : toInt (h.numberReports + 1) = h.numberReports + 1 :=
    toInt_of_nonneg (by omega) (by omega)
  have hlength := (perm_of_get hj).length_eq
  rw [List.length_cons] at hlength
  have hnew : (h.requestCallback k).numberReports = h.numberReports + 1 := hnumber
  have haccepted : (h.requestCallback k).accepted = h.accepted.eraseIdx k := rfl
  have hreports : (h.requestCallback k).reports = h.reports := rfl
  have hpending : (h.requestCallback k).pending = h.pending := rfl
  refine hinv.keep (.inr rfl) ?_ ?_
  · rw [hnew]
    omega
  · rw [hnew, haccepted, hreports, hpending]
    omega

theorem counted_inv_complete (hplaces : PlacesInv h) (hinv : CountedInv h) {k : Nat} {j : Job}
    (hj : h.pending[k]? = some j) : CountedInv (h.complete k j) := by
  have hlength := (callbacks_perm_of_get hj).length_eq
  rw [callbacks_cons] at hlength
  have hreported := hplaces.reported j (List.mem_of_getElem? hj)
  refine hinv.keep (.inl rfl) hinv.posted ?_
  show h.numberReports + (h.accepted.length : Int) + _ + _ = h.numberReports + h.accepted.length +
    ((callbacks (if j.request.reportWhenDone then h.reports ++ [j] else h.reports)).length : Int) +
    (callbacks (h.pending.eraseIdx k)).length
  by_cases hcallback : j.hasCallback
  · rw [if_pos hcallback, List.length_cons] at hlength
    rw [if_pos (hreported hcallback), callbacks_append, callbacks_cons, if_pos hcallback,
      List.length_append, List.length_cons]
    have hnil : (callbacks []).length = 0 := rfl
    omega
  · rw [if_neg hcallback] at hlength
    have hsame : callbacks (if j.request.reportWhenDone then h.reports ++ [j] else h.reports) =
        callbacks h.reports := by
      split_ifs
      · rw [callbacks_append, callbacks_cons, if_neg hcallback]
        exact List.append_nil _
      · rfl
    rw [hsame]
    omega

theorem counted_inv_take (hinv : CountedInv h) {n : Int} (hat : h.thread.AtEvent)
    (hnumber : h.thread.number = n) (hheld : h.thread.held = []) : CountedInv (h.takeEvent n) := by
  have hzero := hinv.drained hat
  have hposted := hinv.posted
  have hcount := hinv.counted
  have hsum : toInt (n + h.numberReports) = h.numberReports := by
    rw [← hnumber, hzero, Int.zero_add]
    exact toInt_of_nonneg hposted.1 hposted.2
  have hnew : (h.takeEvent n).thread.number = h.numberReports := hsum
  have hnone : (h.takeEvent n).numberReports = 0 := rfl
  rw [hheld, hzero] at hcount
  refine ⟨?_, by rw [hnone]; decide, ?_, fun hfalse => hfalse.elim, ?_⟩
  · rw [hnew]
    show 0 + h.numberReports + (h.accepted.length : Int) = _
    rw [Int.zero_add, ← Int.add_zero h.numberReports, hcount]
    rfl
  · rw [hnew]
    exact hposted
  · intro event m report heq
    cases heq

theorem counted_inv_read (hinv : CountedInv h) {event : ThreadEvent} {n : Int} {failed : Bool}
    (hpc : h.thread = .draining event n) (hpos : 0 < n) (hread : failed = false)
    (hstep : h.readReport event n failed = some t) : CountedInv t := by
  have hcount := hinv.counted
  have htaken := hinv.taken
  rw [hpc] at hcount htaken
  rcases read_report_cases hstep with ⟨htrue, -⟩ | ⟨-, report, reports, hreports, rfl⟩
  · rw [hread] at htrue
    cases htrue
  · rw [hreports, callbacks_cons] at hcount
    by_cases hcallback : report.hasCallback
    · rw [if_pos hcallback, List.length_cons] at hcount
      rw [if_pos hcallback]
      refine ⟨?_, hinv.posted, htaken, fun hfalse => hfalse.elim, ?_⟩
      · have hheld : (ThreadPc.calling event n report).held.length = 1 := rfl
        have hnone : (ThreadPc.draining event n).held.length = 0 := rfl
        have hsame : (ThreadPc.calling event n report).number =
          (ThreadPc.draining event n).number := rfl
        simp only [hheld, hsame]
        omega
      · intro event' m report' heq
        cases heq
        exact hpos
    · rw [if_neg hcallback] at hcount
      rw [if_neg hcallback]
      refine ⟨hcount, hinv.posted, htaken, fun hfalse => hfalse.elim, ?_⟩
      intro event' m report' heq
      cases heq

theorem counted_inv_thread (hinv : CountedInv h) {failed : Bool}
    (hok : h.orderly (.thread failed) = true) (hstep : h.threadStep failed = some t) :
    CountedInv t := by
  have hcount := hinv.counted
  have htaken := hinv.taken
  rcases thread_step_cases hstep with ⟨n, hpc, -, rfl⟩ | ⟨n, hpc | hpc, rfl⟩ |
    ⟨event, n, hpc, hpos, hread⟩ | ⟨event, n, hpc, hdone, rfl⟩ | ⟨event, n, report, hpc, rfl⟩
  · have hzero : n = 0 := by
      have hdrained := hinv.drained
      rw [hpc] at hdrained
      exact hdrained trivial
    rw [hpc] at hcount htaken
    refine ⟨hcount, hinv.posted, htaken, fun _ => hzero, ?_⟩
    intro event m report heq
    cases heq
  · exact counted_inv_take hinv (by rw [hpc.1]; trivial) (by rw [hpc.1]; rfl) (by rw [hpc.1]; rfl)
  · exact counted_inv_take hinv (by rw [hpc]; trivial) (by rw [hpc]; rfl) (by rw [hpc]; rfl)
  · have hfailed : failed = false := by
      cases failed with
      | false => rfl
      | true =>
        simp only [Handle.orderly, hpc, decide_eq_true_eq] at hok
        omega
    exact counted_inv_read hinv hpc hpos hfailed hread
  · rw [hpc] at hcount htaken
    have hzero : n = 0 := Int.le_antisymm hdone htaken.1
    subst hzero
    split_ifs with hterminated
    · refine ⟨hcount, hinv.posted, htaken, fun hfalse => hfalse.elim, ?_⟩
      intro event' m report heq
      cases heq
    · refine ⟨hcount, hinv.posted, htaken, fun _ => rfl, ?_⟩
      intro event' m report heq
      cases heq
  · have hpos := hinv.running event n report hpc
    rw [hpc] at hcount htaken
    have hlimit : n < 2147483648 := htaken.2
    have hnumber : toInt (n - 1) = n - 1 := toInt_of_nonneg (by omega) (by omega)
    rw [hnumber]
    have hone : (ThreadPc.calling event n report).held.length = 1 := rfl
    have hn : (ThreadPc.calling event n report).number = n := rfl
    have hnone : (ThreadPc.draining event (n - 1)).held.length = 0 := rfl
    have hless : (ThreadPc.draining event (n - 1)).number = n - 1 := rfl
    refine ⟨?_, hinv.posted, ?_, fun hfalse => hfalse.elim, ?_⟩
    · simp only [hnone, hless]
      omega
    · simp only [hless]
      omega
    · intro event' m report' heq
      cases heq

theorem counted_inv_step (hplaces : PlacesInv h) (hinv : CountedInv h) {a : BltAction}
    (hok : h.orderly a = true) (hstep : h.step a = some t) : CountedInv t := by
  cases a with
  | enter req =>
    rcases enter_cases hstep with rfl | rfl
    · exact hinv
    · exact hinv.keep (.inl rfl) hinv.posted rfl
  | ioctl k ret =>
    obtain ⟨-, hmap⟩ := Option.ite_none_left_eq_some.mp hstep
    obtain ⟨req, -, rfl⟩ := Option.map_eq_some_iff.mp hmap
    exact counted_inv_issue hinv k req ret
  | requestCallback k =>
    obtain ⟨-, hmap⟩ := Option.ite_none_left_eq_some.mp hstep
    obtain ⟨j, hj, rfl⟩ := Option.map_eq_some_iff.mp hmap
    exact counted_inv_request hinv hj (of_decide_eq_true hok)
  | complete k =>
    obtain ⟨j, hj, rfl⟩ := Option.map_eq_some_iff.mp hstep
    exact counted_inv_complete hplaces hinv hj
  | thread failed => exact counted_inv_thread hinv hok hstep
  | spuriousWakeUp =>
    obtain ⟨n, hpc, rfl⟩ := spurious_cases hstep
    have hsignalled : ThreadPc.woken n = h.thread.signalled := by rw [hpc]; rfl
    exact hinv.keep (.inr hsignalled) hinv.posted rfl
  | close =>
    obtain ⟨-, heq⟩ := Option.ite_none_right_eq_some.mp hstep
    cases heq
    exact hinv.keep (.inr rfl) hinv.posted rfl
  | join =>
    obtain ⟨-, heq⟩ := Option.ite_none_right_eq_some.mp hstep
    cases heq
    exact hinv.keep (.inl rfl) hinv.posted rfl

end Steps

/-- From the post of `EVENT_HANDLE_TERMINATED` on, it is in the slot until the thread finds it, and
nothing is left to announce. -/
structure ClosingInv (h : Handle) : Prop where
  before : h.closer = .absent → h.event ≠ .handleTerminated ∧ ¬ h.thread.Observed
  accepted : h.closer ≠ .absent → h.accepted = []
  awake : h.closer ≠ .absent → ¬ h.thread.Waits
  slot : h.closer ≠ .absent → h.event = .handleTerminated ∧ ¬ h.thread.Observed ∨
    h.event = .none ∧ h.numberReports = 0 ∧ h.thread.Observed

theorem closing_inv_opened : ClosingInv .opened where
  before := fun _ => ⟨by decide, id⟩
  accepted := fun hne => (hne rfl).elim
  awake := fun hne => (hne rfl).elim
  slot := fun hne => (hne rfl).elim

section Steps
variable {h t : Handle}

theorem ClosingInv.keep (hinv : ClosingInv h) (hcloser : t.closer = .absent ↔ h.closer = .absent)
    (hevent : t.event = h.event) (hnumber : t.numberReports = h.numberReports)
    (haccepted : h.closer ≠ .absent → t.accepted = h.accepted)
    (hobserved : t.thread.Observed ↔ h.thread.Observed) (hwaits : t.thread.Waits → h.thread.Waits) :
    ClosingInv t := by
  refine ⟨?_, ?_, ?_, ?_⟩
  · intro habsent
    rw [hevent, hobserved]
    exact hinv.before (hcloser.mp habsent)
  · intro hne
    have hne' := mt hcloser.mpr hne
    rw [haccepted hne']
    exact hinv.accepted hne'
  · intro hne hwait
    exact hinv.awake (mt hcloser.mpr hne) (hwaits hwait)
  · intro hne
    rw [hevent, hnumber, hobserved]
    exact hinv.slot (mt hcloser.mpr hne)

/-- A state in which the thread has not been told to leave and nothing is in the slot is one in
which no call of `blt_close` has come. -/
theorem absent_of_none (hinv : ClosingInv h) (hevent : h.event ≠ .handleTerminated)
    (hobserved : ¬ h.thread.Observed) : h.closer = .absent := by
  by_contra hne
  rcases hinv.slot hne with ⟨hterminated, -⟩ | ⟨-, -, hobs⟩
  · exact hevent hterminated
  · exact hobserved hobs

theorem closing_inv_of_absent (habsent : t.closer = .absent) (hevent : t.event ≠ .handleTerminated)
    (hobserved : ¬ t.thread.Observed) : ClosingInv t where
  before := fun _ => ⟨hevent, hobserved⟩
  accepted := fun hne => absurd habsent hne
  awake := fun hne => absurd habsent hne
  slot := fun hne => absurd habsent hne

theorem closing_inv_issue (hinv : ClosingInv h) {k : Nat} {req : Request} {ret : Option Nat}
    (hreq : h.entered[k]? = some req) (hok : h.orderly (.ioctl k ret) = true) :
    ClosingInv (h.issue k req ret) := by
  cases ret with
  | none => exact hinv.keep Iff.rfl rfl rfl (fun _ => rfl) Iff.rfl id
  | some requestId =>
    refine hinv.keep Iff.rfl rfl rfl ?_ Iff.rfl id
    intro hne
    have hnull : req.callback = 0 := by
      simp only [Handle.orderly, hreq, Option.all_some, Bool.or_eq_true, beq_iff_eq] at hok
      exact hok.resolve_right hne
    show (if req.callback ≠ 0 then _ :: h.accepted else h.accepted) = h.accepted
    rw [if_neg (not_not_intro hnull)]

theorem closing_inv_request (hinv : ClosingInv h) {k : Nat} {j : Job}
    (hj : h.accepted[k]? = some j) : ClosingInv (h.requestCallback k) := by
  have habsent : h.closer = .absent := by
    by_contra hne
    rw [hinv.accepted hne] at hj
    cases hj
  refine closing_inv_of_absent habsent (fun heq => by cases heq) ?_
  show ¬ h.thread.signalled.Observed
  rw [ThreadPc.signalled_observed]
  exact (hinv.before habsent).2

theorem closing_inv_take (hinv : ClosingInv h) (n : Int) (hobserved : ¬ h.thread.Observed) :
    ClosingInv (h.takeEvent n) := by
  by_cases hterminated : h.event = .handleTerminated
  · refine ⟨?_, hinv.accepted, ?_, ?_⟩
    · intro habsent
      exact absurd hterminated (hinv.before habsent).1
    · rintro - ⟨m, hm⟩
      cases hm
    · intro _
      exact .inr ⟨rfl, rfl, hterminated⟩
  · have habsent := absent_of_none hinv hterminated hobserved
    exact closing_inv_of_absent habsent (fun heq => by cases heq) hterminated

theorem closing_inv_thread (hinv : ClosingInv h) {failed : Bool}
    (hok : h.orderly (.thread failed) = true) (hstep : h.threadStep failed = some t) :
    ClosingInv t := by
  rcases thread_step_cases hstep with ⟨n, hpc, hnone, rfl⟩ | ⟨n, hpc, rfl⟩ |
    ⟨event, n, hpc, hpos, hread⟩ | ⟨event, n, hpc, hdone, rfl⟩ | ⟨event, n, report, hpc, rfl⟩
  · have hevent : h.event ≠ .handleTerminated := by
      rw [hnone]
      decide
    have habsent := absent_of_none hinv hevent (by rw [hpc]; exact id)
    exact closing_inv_of_absent habsent hevent id
  · have hobserved : ¬ h.thread.Observed := by
      rcases hpc with hpc | hpc
      · rw [hpc.1]
        exact id
      · rw [hpc]
        exact id
    exact closing_inv_take hinv n hobserved
  · rcases read_report_cases hread with ⟨hfailed, -⟩ | ⟨-, report, reports, -, rfl⟩
    · subst hfailed
      simp only [Handle.orderly, hpc, decide_eq_true_eq] at hok
      omega
    · refine hinv.keep Iff.rfl rfl rfl (fun _ => rfl) ?_ ?_
      · rw [hpc]
        dsimp only
        split_ifs <;> exact Iff.rfl
      · rintro ⟨m, hm⟩
        dsimp only at hm
        split_ifs at hm
  · refine hinv.keep Iff.rfl rfl rfl (fun _ => rfl) ?_ ?_
    · rw [hpc]
      dsimp only
      split_ifs with hterminated
      · exact ⟨fun _ => hterminated, fun _ => trivial⟩
      · exact ⟨False.elim, fun heq => absurd heq hterminated⟩
    · rintro ⟨m, hm⟩
      dsimp only at hm
      split_ifs at hm
  · refine hinv.keep Iff.rfl rfl rfl (fun _ => rfl) ?_ ?_
    · rw [hpc]
      exact Iff.rfl
    · rintro ⟨m, hm⟩
      cases hm

theorem closing_inv_step (hinv : ClosingInv h) {a : BltAction} (hok : h.orderly a = true)
    (hstep : h.step a = some t) : ClosingInv t := by
  cases a with
  | enter req =>
    rcases enter_cases hstep with rfl | rfl
    · exact hinv
    · exact hinv.keep Iff.rfl rfl rfl (fun _ => rfl) Iff.rfl id
  | ioctl k ret =>
    obtain ⟨-, hmap⟩ := Option.ite_none_left_eq_some.mp hstep
    obtain ⟨req, hreq, rfl⟩ := Option.map_eq_some_iff.mp hmap
    exact closing_inv_issue hinv hreq hok
  | requestCallback k =>
    obtain ⟨-, hmap⟩ := Option.ite_none_left_eq_some.mp hstep
    obtain ⟨j, hj, rfl⟩ := Option.map_eq_some_iff.mp hmap
    exact closing_inv_request hinv hj
  | complete k =>
    obtain ⟨j, -, rfl⟩ := Option.map_eq_some_iff.mp hstep
    exact hinv.keep Iff.rfl rfl rfl (fun _ => rfl) Iff.rfl id
  | thread failed => exact closing_inv_thread hinv hok hstep
  | spuriousWakeUp =>
    obtain ⟨n, hpc, rfl⟩ := spurious_cases hstep
    refine hinv.keep Iff.rfl rfl rfl (fun _ => rfl) (by rw [hpc]; exact Iff.rfl) ?_
    rintro ⟨m, hm⟩
    cases hm
  | close =>
    obtain ⟨habsent, heq⟩ := Option.ite_none_right_eq_some.mp hstep
    cases heq
    refine ⟨(fun hjoining => by cases hjoining), ?_, ?_, ?_⟩
    · intro _
      exact List.isEmpty_iff.mp hok
    · intro _
      exact ThreadPc.signalled_not_waits _
    · intro _
      left
      refine ⟨rfl, ?_⟩
      show ¬ h.thread.signalled.Observed
      rw [ThreadPc.signalled_observed]
      exact (hinv.before habsent).2
  | join =>
    obtain ⟨hjoining, heq⟩ := Option.ite_none_right_eq_some.mp hstep
    cases heq
    refine hinv.keep ?_ rfl rfl (fun _ => rfl) Iff.rfl id
    rw [hjoining.1]
    exact ⟨(fun hclosed => by cases hclosed), (fun habsent => by cases habsent)⟩

end Steps

theorem closing_run {as : List BltAction} {h : Handle}
    (hrun : run Handle.step .opened as = some h)
    (hok : Meets Handle.step (fun h a => h.orderly a = true) .opened as) :
    PlacesInv h ∧ CountedInv h ∧ ClosingInv h := by
  have hstart : PlacesInv .opened ∧ CountedInv .opened ∧ ClosingInv .opened :=
    ⟨places_inv_opened, counted_inv_opened, closing_inv_opened⟩
  refine run_induction_of_meets (P := fun h => PlacesInv h ∧ CountedInv h ∧ ClosingInv h)
    ?_ hstart hok hrun
  rintro h a t ⟨hplaces, hcounted, hclosing⟩ horderly hstep
  exact ⟨places_inv_step h a t hplaces hstep, counted_inv_step hplaces hcounted horderly hstep,
    closing_inv_step hclosing horderly hstep⟩

/-- At the exit of the thread no report is still to come. -/
theorem called_of_exited {h : Handle} (hplaces : PlacesInv h) (hcounted : CountedInv h)
    (hclosing : ClosingInv h) (hexited : h.thread = .exited) {j : Job} (hj : j ∈ h.admitted)
    (hcallback : j.hasCallback = true) : h.called.count j = 1 := by
  have hobserved : h.thread.Observed := by
    rw [hexited]
    trivial
  have hne : h.closer ≠ .absent := fun habsent => (hclosing.before habsent).2 hobserved
  have hnumber : h.numberReports = 0 := by
    rcases hclosing.slot hne with ⟨-, hnot⟩ | ⟨-, hzero, -⟩
    · exact absurd hobserved hnot
    · exact hzero
  have hcount := hcounted.counted
  rw [hnumber, hclosing.accepted hne, hexited] at hcount
  have hnil : (callbacks h.reports).length = 0 ∧ (callbacks h.pending).length = 0 := by
    have hnone : ThreadPc.exited.held.length = 0 := rfl
    have hzero : ThreadPc.exited.number = 0 := rfl
    have hempty : ([] : List Job).length = 0 := rfl
    omega
  have hplace := hplaces.places j
  rw [List.eq_nil_of_length_eq_zero hnil.1, List.eq_nil_of_length_eq_zero hnil.2, hexited]
    at hplace
  have hone : (callbacks h.admitted).count j = 1 := by
    have hnodup : (callbacks h.admitted).Nodup := (admitted_nodup hplaces).filter _
    exact List.count_eq_one_of_mem hnodup (List.mem_filter.mpr ⟨hj, hcallback⟩)
  rw [hone] at hplace
  exact hplace.symm

/-- A thread that has not left has a step, unless it reads and the driver has yet to complete a
request with a callback. -/
theorem thread_proceeds {h : Handle} (hcounted : CountedInv h) (hclosing : ClosingInv h)
    (hjoining : h.closer = .joining) : h.thread = .exited ∨
      (∃ t, h.step (.thread false) = some t) ∨
      h.reports = [] ∧ ∃ j ∈ h.pending, j.hasCallback = true := by
  have hne : h.closer ≠ .absent := by
    rw [hjoining]
    decide
  cases hpc : h.thread with
  | loop n => exact .inr (.inl ⟨_, by simp only [Handle.step, Handle.threadStep, hpc]; rfl⟩)
  | waiting n => exact absurd ⟨n, hpc⟩ (hclosing.awake hne)
  | woken n => exact .inr (.inl ⟨_, by simp only [Handle.step, Handle.threadStep, hpc]; rfl⟩)
  | calling event n report =>
    exact .inr (.inl ⟨_, by simp only [Handle.step, Handle.threadStep, hpc]; rfl⟩)
  | exited => exact .inl rfl
  | draining event n =>
    right
    by_cases hpos : 0 < n
    · cases hreports : h.reports with
      | cons report reports =>
        left
        simp only [Handle.step, Handle.threadStep, hpc, if_pos hpos, Handle.readReport, hreports]
        exact ⟨_, rfl⟩
      | nil =>
        right
        refine ⟨rfl, ?_⟩
        have hcount := hcounted.counted
        have hposted := hcounted.posted.1
        rw [hpc, hreports] at hcount
        have hn : (ThreadPc.draining event n).number = n := rfl
        have hnone : (ThreadPc.draining event n).held.length = 0 := rfl
        have hempty : (callbacks []).length = 0 := rfl
        have hlength : 0 < (callbacks h.pending).length := by omega
        obtain ⟨j, hj⟩ := List.exists_mem_of_length_pos hlength
        exact ⟨j, List.mem_filter.mp hj⟩
    · left
      simp only [Handle.step, Handle.threadStep, hpc, if_neg hpos]
      exact ⟨_, rfl⟩

/-- In every orderly run a callback is run at most once, and once by the exit of the thread;
`EVENT_HANDLE_TERMINATED` stays until the thread finds it; the call of `blt_close` that joins the
thread waits for the thread or for the driver only. -/
theorem callbacks_run_before_exit (as : List BltAction) (h : Handle)
    (hrun : run Handle.step .opened as = some h)
    (hok : Meets Handle.step (fun h a => h.orderly a = true) .opened as) :
    (h.called.Nodup ∧ ∀ j ∈ h.called, j ∈ h.admitted ∧ j.hasCallback = true) ∧
      (h.thread = .exited → h.closer ≠ .absent ∧
        ∀ j ∈ h.admitted, j.hasCallback = true → h.called.count j = 1) ∧
      (h.closer ≠ .absent → h.event = .handleTerminated ∨ h.thread.Observed) ∧
      (h.closer = .joining → ¬ h.thread.Waits ∧ (h.thread = .exited ∨
        (∃ t, h.step (.thread false) = some t) ∨
        h.reports = [] ∧ ∃ j ∈ h.pending, j.hasCallback = true)) := by
  obtain ⟨hplaces, hcounted, hclosing⟩ := closing_run hrun hok
  refine ⟨⟨called_nodup hplaces, fun j hj => called_admitted hplaces hj⟩, ?_, ?_, ?_⟩
  · intro hexited
    refine ⟨?_, fun j hj hcallback => called_of_exited hplaces hcounted hclosing hexited hj hcallback⟩
    intro habsent
    have hnot := (hclosing.before habsent).2
    rw [hexited] at hnot
    exact hnot trivial
  · intro hne
    rcases hclosing.slot hne with ⟨hterminated, -⟩ | ⟨-, -, hobserved⟩
    · exact .inl hterminated
    · exact .inr hobserved
  · intro hjoining
    refine ⟨hclosing.awake ?_, thread_proceeds hcounted hclosing hjoining⟩
    rw [hjoining]
    decide

/-- Two requests with a callback and one without, announced before the thread looks; the handle is
closed while the thread drains the reports. -/
def sampleActions : List BltAction :=
  [.enter ⟨5, 50, false⟩, .enter ⟨6, 60, false⟩, .enter ⟨0, 0, false⟩, .ioctl 2 (some 1),
    .ioctl 1 (some 2), .ioctl 0 (some 3), .requestCallback 0, .requestCallback 0, .thread false,
    .complete 0, .complete 0, .thread false, .thread false, .close, .complete 0, .thread false,
    .thread false, .thread false, .thread false, .thread false]

theorem callbacks_run_sample : ∃ h, run Handle.step .opened sampleActions = some h ∧
    h.thread = .exited ∧ h.admitted.length = 3 ∧
    ∀ j ∈ h.admitted, j.hasCallback = true → h.called.count j = 1 := by
  have hrun : ∃ h, run Handle.step .opened sampleActions = some h ∧ h.thread = .exited ∧
      h.admitted.length = 3 := ⟨_, rfl, rfl, rfl⟩
  obtain ⟨h, hh, hexited, hlength⟩ := hrun
  have hspec := callbacks_run_before_exit sampleActions h hh (by decide)
  exact ⟨h, hh, hexited, hlength, (hspec.2.1 hexited).2⟩

/-- Announced after `EVENT_HANDLE_TERMINATED`, a request takes its place in the slot, and
`blt_close` waits for a thread that waits; where the thread is faster, it leaves before the callback
of the request. -/
theorem terminated_overwritten :
    (∃ h, run Handle.step .opened [.enter ⟨5, 50, false⟩, .ioctl 0 (some 1), .thread false, .close,
        .requestCallback 0, .complete 0, .thread false, .thread false, .thread false,
        .thread false, .thread false] = some h ∧
      h.closer = .joining ∧ h.thread = .waiting 0 ∧ h.event = .none ∧ h.entered = [] ∧
      h.accepted = []) ∧
    ∃ h, run Handle.step .opened [.enter ⟨5, 50, false⟩, .ioctl 0 (some 1), .close, .thread false,
        .thread false] = some h ∧
      h.thread = .exited ∧ h.called = [] ∧ ∃ j ∈ h.admitted, j.hasCallback = true :=
  ⟨⟨_, rfl, rfl, rfl, rfl, rfl, rfl⟩, _, rfl, rfl, rfl, _, List.mem_singleton_self _, rfl⟩

end Codinalte.B2r2
