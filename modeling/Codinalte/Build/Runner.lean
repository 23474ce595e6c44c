import Codinalte.Lib.Machine
import Mathlib.Data.List.Range
import Mathlib.Data.List.Perm.Basic

/-! Commands that are started by a pool of threads once their predecessors have finished. -/

namespace Codinalte.Build.Runner
open Codinalte.Machine

inductive Tstate where
  | WAIT
  | RUN
  | FINISH
deriving DecidableEq

/-- Where the thread is that starts tasks and waits for them. `scheduleTasks` is called from
`startArgc` and, with the flag, from `waitProcesses`; it is at an index of the waiting tasks. -/
inductive Pc where
  | idle
  | scheduling (i : Nat) (waiting : Bool)
  | waiting
  | take
  | returned
deriving DecidableEq

/-- The predecessors of a call: none, a list that is made of earlier tasks, or a list that an
earlier call was given already. -/
inductive Predecessors where
  | null
  | new (tasks : List Nat)
  | shared (list : Nat)
deriving DecidableEq

/-- Tasks and lists of predecessors have numbers. Of a list there is what it was made of, and what
is left of it; `given` is the list that a task was created with. -/
structure Exec where
  tasks : Nat
  state : Nat → Tstate
  given : Nat → Option Nat
  predecessors : Nat → Option Nat
  nblists : Nat
  made : Nat → List Nat
  list : Nat → List Nat
  waitingTasks : List Nat
  submitted : List Nat
  active : List Nat
  completed : List Nat
  taken : List Nat
  started : List Nat
  pc : Pc

def initial : Exec where
  tasks := 0
  state _ := .WAIT
  given _ := none
  predecessors _ := none
  nblists := 0
  made _ := []
  list _ := []
  waitingTasks := []
  submitted := []
  active := []
  completed := []
  taken := []
  started := []
  pc := .idle

inductive Action where
  | startArgc (predecessors : Predecessors)
  | waitProcesses
  | next
  | dequeue
  | start (task : Nat)
  | finish (task : Nat)
  | complete (task : Nat)

namespace Exec

/-- A task that waits for the tasks of a list, or for none. -/
def create (s : Exec) (list : Option Nat) : Exec :=
  { s with
    tasks := s.tasks + 1
    given := Function.update s.given s.tasks list
    predecessors := Function.update s.predecessors s.tasks list
    waitingTasks := s.waitingTasks ++ [s.tasks]
    pc := .scheduling 0 false }

def newList (s : Exec) (tasks : List Nat) : Exec :=
  { s with
    nblists := s.nblists + 1
    made := Function.update s.made s.nblists tasks
    list := Function.update s.list s.nblists tasks }

def startArgc (s : Exec) : Predecessors → Option Exec
  | .null => some (s.create none)
  | .new tasks =>
    if ∀ t ∈ tasks, t < s.tasks then some ((s.newList tasks).create (some s.nblists)) else none
  | .shared list => if list < s.nblists then some (s.create (some list)) else none

/-- The task at the index is not waiting any more, it is submitted to the pool. -/
def submit (s : Exec) (i task : Nat) : Exec :=
  { s with
    waitingTasks := s.waitingTasks.eraseIdx i
    submitted := s.submitted ++ [task] }

/-- One turn of the loops of `scheduleTasks` and `checkPredecessor`. -/
def schedule (s : Exec) (i : Nat) (waiting : Bool) : Exec :=
  match s.waitingTasks[i]? with
  | none => { s with pc := if waiting then .waiting else .idle }
  | some waiter =>
    match s.predecessors waiter with
    | none => s.submit i waiter
    | some list =>
      match s.list list with
      | [] => { s with predecessors := Function.update s.predecessors waiter none }
      | predecessor :: rest =>
        if s.state predecessor = .FINISH then { s with list := Function.update s.list list rest }
        else { s with pc := .scheduling (i + 1) waiting }

/-- The next step of the thread that starts tasks and waits for them. -/
def next (s : Exec) : Option Exec :=
  match s.pc with
  | .idle => none
  | .scheduling i waiting => some (s.schedule i waiting)
  | .waiting => some { s with pc := if s.waitingTasks = [] then .returned else .take }
  | .take =>
    match s.completed with
    | [] => none
    | t :: rest =>
      some { s with completed := rest, taken := s.taken ++ [t], pc := .scheduling 0 true }
  | .returned => none

end Exec

/-- A step of the thread that makes the calls, or of a thread of the pool. -/
def step (numberOfJobs : Nat) (s : Exec) : Action → Option Exec
  | .startArgc predecessors => if s.pc = .idle then s.startArgc predecessors else none
  | .waitProcesses => if s.pc = .idle then some { s with pc := .waiting } else none
  | .next => s.next
  | .dequeue =>
    match s.submitted with
    | [] => none
    | t :: rest =>
      if s.active.length < numberOfJobs then
        some { s with submitted := rest, active := s.active ++ [t] }
      else none
  | .start t =>
    if t ∈ s.active ∧ s.state t = .WAIT then
      some { s with state := Function.update s.state t .RUN, started := s.started ++ [t] }
    else none
  | .finish t =>
    if t ∈ s.active ∧ s.state t = .RUN then
      some { s with state := Function.update s.state t .FINISH }
    else none
  | .complete t =>
    if t ∈ s.active ∧ s.state t = .FINISH then
      some { s with active := s.active.erase t, completed := s.completed ++ [t] }
    else none

/-- The predecessors of a task are those that its list was made of. -/
def Exec.predecessorsOf (s : Exec) (t : Nat) : List Nat :=
  match s.given t with
  | none => []
  | some list => s.made list

/-- Every task is in one place. -/
def Exec.places (s : Exec) : List Nat :=
  s.waitingTasks ++ s.submitted ++ s.active ++ s.completed ++ s.taken

/-- The waiting tasks that have been checked since a task was taken. -/
def Exec.checked (s : Exec) : List Nat :=
  match s.pc with
  | .scheduling i _ => s.waitingTasks.take i
  | _ => s.waitingTasks

structure Inv (s : Exec) : Prop where
  places : s.places.Perm (List.range s.tasks)
  earlier : ∀ t < s.tasks, ∀ p ∈ s.predecessorsOf t, p < t
  lists : ∀ t list, s.given t = some list → list < s.nblists
  made : ∀ list < s.nblists, ∀ p ∈ s.made list, p < s.tasks
  fresh : ∀ t, s.tasks ≤ t → s.given t = none
  left : ∀ list, ∀ p ∈ s.list list, p ∈ s.made list
  removed : ∀ list, ∀ p ∈ s.made list, p ∈ s.list list ∨ s.state p = .FINISH
  same : ∀ t list, s.predecessors t = some list → s.given t = some list
  checked : ∀ t, s.predecessors t = none → ∀ p ∈ s.predecessorsOf t, s.state p = .FINISH
  submitted : ∀ t < s.tasks, t ∉ s.waitingTasks → ∀ p ∈ s.predecessorsOf t, s.state p = .FINISH
  notStarted : ∀ t, s.tasks ≤ t ∨ t ∈ s.waitingTasks ++ s.submitted → s.state t = .WAIT
  finished : ∀ t ∈ s.completed ++ s.taken, s.state t = .FINISH
  nodup : s.started.Nodup
  started : ∀ t, t ∈ s.started ↔ s.state t ≠ .WAIT
  blocked : ∀ t ∈ s.checked, ∃ p ∈ s.predecessorsOf t, p ∉ s.taken
  returned : s.pc = .returned → s.waitingTasks = []
  take : s.pc = .take → s.waitingTasks ≠ []

section Steps
variable {numberOfJobs : Nat} {s s' : Exec}

theorem inv_initial : Inv initial where
  places := .nil
  earlier := fun _ h => nomatch h
  lists := fun _ _ h => nomatch h
  made := fun _ h => nomatch h
  fresh _ _ := rfl
  left := fun _ _ h => nomatch h
  removed := fun _ _ h => nomatch h
  same := fun _ _ h => nomatch h
  checked := fun _ _ _ h => nomatch h
  submitted := fun _ h => nomatch h
  notStarted _ _ := rfl
  finished := fun _ h => nomatch h
  nodup := .nil
  started _ := iff_of_false (fun h => nomatch h) fun h => h rfl
  blocked := fun _ h => nomatch h
  returned := fun h => nomatch h
  take := fun h => nomatch h

theorem Inv.nodup_places (h : Inv s) : s.places.Nodup := h.places.nodup_iff.mpr List.nodup_range

theorem Inv.mem_places (h : Inv s) {t : Nat} : t ∈ s.places ↔ t < s.tasks :=
  h.places.mem_iff.trans List.mem_range

theorem Inv.active (h : Inv s) {t : Nat} (ht : t ∈ s.active) :
    t < s.tasks ∧ t ∉ s.waitingTasks ++ s.submitted := by
  constructor
  · refine h.mem_places.mp ?_
    simp only [Exec.places, List.mem_append]
    exact .inl (.inl (.inr ht))
  · have hnodup := h.nodup_places
    simp only [Exec.places, List.append_assoc] at hnodup
    rw [← List.append_assoc] at hnodup
    have hdisjoint := (List.nodup_append.mp hnodup).2.2
    exact fun hmem => hdisjoint t hmem t (List.mem_append_left _ ht) rfl

/-- The state of a task that runs or ends. -/
theorem Inv.setState (h : Inv s) {t : Nat} (ht : t ∈ s.active) {state : Tstate} {started : List Nat}
    (hstate : state ≠ .WAIT) (hkeep : s.state t ≠ .FINISH) (hnodup : started.Nodup)
    (hstarted : ∀ x, x ∈ started ↔ x ∈ s.started ∨ x = t) :
    Inv { s with state := Function.update s.state t state, started := started } := by
  have hfinish : ∀ p, s.state p = .FINISH → Function.update s.state t state p = .FINISH := by
    intro p hp
    have hne : p ≠ t := fun heq => hkeep (heq ▸ hp)
    exact (Function.update_of_ne hne _ _).trans hp
  obtain ⟨hlt, hnot⟩ := h.active ht
  exact { h with
    removed := fun list p hp => (h.removed list p hp).imp_right (hfinish p)
    checked := fun x hx p hp => hfinish p (h.checked x hx p hp)
    submitted := fun x hlt hx p hp => hfinish p (h.submitted x hlt hx p hp)
    notStarted := fun x hx => by
      have hne : x ≠ t := by
        rintro rfl
        rcases hx with hx | hx
        · exact Nat.not_lt.mpr hx hlt
        · exact hnot hx
      exact (Function.update_of_ne hne _ _).trans (h.notStarted x hx)
    finished := fun x hx => hfinish x (h.finished x hx)
    nodup := hnodup
    started := fun x => by
      change x ∈ started ↔ Function.update s.state t state x ≠ .WAIT
      rw [hstarted]
      by_cases heq : x = t
      · subst heq
        rw [Function.update_self]
        exact iff_of_true (.inr rfl) hstate
      · rw [Function.update_of_ne heq, ← h.started x]
        exact or_iff_left heq }

theorem Inv.setPc (h : Inv s) {pc : Pc} (hblocked : ∀ t ∈ ({ s with pc := pc } : Exec).checked,
      ∃ p ∈ s.predecessorsOf t, p ∉ s.taken) (hreturned : pc = .returned → s.waitingTasks = [])
    (htake : pc = .take → s.waitingTasks ≠ []) : Inv { s with pc := pc } :=
  { h with
    blocked := hblocked
    returned := hreturned
    take := htake }

theorem Inv.create (h : Inv s) {list : Option Nat} (hlist : ∀ l, list = some l → l < s.nblists) :
    Inv (s.create list) := by
  have hgiven : ∀ t, t ≠ s.tasks → (s.create list).given t = s.given t :=
    fun t hne => Function.update_of_ne hne _ _
  have hself : (s.create list).given s.tasks = list := Function.update_self ..
  have hold : ∀ t, t ≠ s.tasks → (s.create list).predecessorsOf t = s.predecessorsOf t := by
    intro t hne
    unfold Exec.predecessorsOf
    rw [hgiven t hne]
    rfl
  have hnew : ∀ p ∈ (s.create list).predecessorsOf s.tasks,
      ∃ l, list = some l ∧ p ∈ s.made l := by
    intro p hp
    unfold Exec.predecessorsOf at hp
    rw [hself] at hp
    cases list with
    | none => cases hp
    | some l => exact ⟨l, rfl, hp⟩
  refine ⟨?_, fun t ht p hp => ?_, fun t l hl => ?_, fun l hl p hp => ?_, fun t ht => ?_, h.left,
    h.removed, fun t l hl => ?_, fun t hnone p hp => ?_, fun t ht hwaiting p hp => ?_,
    fun t ht => ?_, h.finished, h.nodup, h.started, (fun _ h => nomatch h), (fun h => nomatch h),
    fun h => nomatch h⟩
  · have hplaces : (s.create list).places.Perm (s.places ++ [s.tasks]) := by
      simp only [Exec.places, Exec.create, List.append_assoc]
      exact List.Perm.append_left _ (List.perm_append_comm.trans (by
        simp only [List.append_assoc]
        exact .refl _))
    refine hplaces.trans ((h.places.append_right _).trans ?_)
    rw [Exec.create, List.range_succ]
  · by_cases heq : t = s.tasks
    · subst heq
      obtain ⟨l, hl, hmade⟩ := hnew p hp
      exact h.made l (hlist l hl) p hmade
    · rw [hold t heq] at hp
      exact h.earlier t (Nat.lt_of_le_of_ne (Nat.le_of_lt_succ ht) heq) p hp
  · by_cases heq : t = s.tasks
    · subst heq
      exact hlist l (hself.symm.trans hl)
    · exact h.lists t l ((hgiven t heq).symm.trans hl)
  · exact Nat.lt_succ_of_lt (h.made l hl p hp)
  · have hlt : s.tasks < t := ht
    exact (hgiven t (Nat.ne_of_gt hlt)).trans (h.fresh t hlt.le)
  · by_cases heq : t = s.tasks
    · subst heq
      exact hself.trans ((Function.update_self _ _ s.predecessors).symm.trans hl)
    · exact (hgiven t heq).trans (h.same t l ((Function.update_of_ne heq _ _).symm.trans hl))
  · by_cases heq : t = s.tasks
    · subst heq
      obtain ⟨l, hl, -⟩ := hnew p hp
      exact nomatch hl.symm.trans ((Function.update_self _ _ s.predecessors).symm.trans hnone)
    · rw [hold t heq] at hp
      exact h.checked t ((Function.update_of_ne heq _ _).symm.trans hnone) p hp
  · have heq : t ≠ s.tasks := by
      rintro rfl
      exact hwaiting (List.mem_append_right _ List.mem_cons_self)
    rw [hold t heq] at hp
    exact h.submitted t (Nat.lt_of_le_of_ne (Nat.le_of_lt_succ ht) heq)
      (fun hmem => hwaiting (List.mem_append_left _ hmem)) p hp
  · refine h.notStarted t ?_
    rcases ht with ht | ht
    · exact .inl (Nat.le_of_succ_le ht)
    · rcases List.mem_append.mp ht with ht | ht
      · rcases List.mem_append.mp ht with ht | ht
        · exact .inr (List.mem_append_left _ ht)
        · exact .inl (Nat.le_of_eq (List.mem_singleton.mp ht).symm)
      · exact .inr (List.mem_append_right _ ht)

theorem Inv.newList (h : Inv s) {tasks : List Nat} (htasks : ∀ t ∈ tasks, t < s.tasks) :
    Inv (s.newList tasks) := by
  have hmade : ∀ list, list ≠ s.nblists → (s.newList tasks).made list = s.made list :=
    fun list hne => Function.update_of_ne hne _ _
  have hmadeSelf : (s.newList tasks).made s.nblists = tasks := Function.update_self ..
  have hlistSelf : (s.newList tasks).list s.nblists = tasks := Function.update_self ..
  have hold : ∀ t, (s.newList tasks).predecessorsOf t = s.predecessorsOf t := by
    intro t
    unfold Exec.predecessorsOf
    cases hgiven : s.given t with
    | none =>
      have hgiven' : (s.newList tasks).given t = none := hgiven
      rw [hgiven']
    | some list =>
      have hgiven' : (s.newList tasks).given t = some list := hgiven
      rw [hgiven']
      exact hmade list (Nat.ne_of_lt (h.lists t list hgiven))
  have hpreds : ∀ {t p : Nat}, p ∈ (s.newList tasks).predecessorsOf t → p ∈ s.predecessorsOf t :=
    fun {t} _ hp => hold t ▸ hp
  refine ⟨h.places, fun t ht p hp => h.earlier t ht p (hpreds hp), fun t list hlist => ?_,
    fun list hlist p hp => ?_, h.fresh, fun list p hp => ?_, fun list p hp => ?_, h.same,
    fun t hnone p hp => h.checked t hnone p (hpreds hp),
    fun t ht hwaiting p hp => h.submitted t ht hwaiting p (hpreds hp), h.notStarted, h.finished,
    h.nodup, h.started, fun t ht => ?_, h.returned, h.take⟩
  · exact Nat.lt_succ_of_lt (h.lists t list hlist)
  · by_cases heq : list = s.nblists
    · subst heq
      rw [hmadeSelf] at hp
      exact htasks p hp
    · rw [hmade list heq] at hp
      exact h.made list (Nat.lt_of_le_of_ne (Nat.le_of_lt_succ hlist) heq) p hp
  · by_cases heq : list = s.nblists
    · subst heq
      rw [hmadeSelf, ← hlistSelf]
      exact hp
    · rw [hmade list heq]
      exact h.left list p ((Function.update_of_ne heq _ s.list) ▸ hp)
  · by_cases heq : list = s.nblists
    · subst heq
      rw [hmadeSelf, ← hlistSelf] at hp
      exact .inl hp
    · rw [hmade list heq] at hp
      have hlist : (s.newList tasks).list list = s.list list := Function.update_of_ne heq _ _
      rw [hlist]
      exact h.removed list p hp
  · obtain ⟨p, hp, htaken⟩ := h.blocked t ht
    exact ⟨p, (hold t).symm ▸ hp, htaken⟩

theorem perm_move (t : Nat) (a b c : List Nat) :
    (a ++ (b ++ ([t] ++ c))).Perm (t :: a ++ (b ++ c)) := by
  rw [← List.append_assoc, List.singleton_append, List.cons_append, ← List.append_assoc]
  exact List.perm_middle

/-- A task without predecessors that are left is submitted. -/
theorem Inv.submit (h : Inv s) {i t : Nat} {waiting : Bool} (hpc : s.pc = .scheduling i waiting)
    (ht : s.waitingTasks[i]? = some t) (hnone : s.predecessors t = none) : Inv (s.submit i t) := by
  have hperm : s.waitingTasks.Perm (t :: s.waitingTasks.eraseIdx i) := by
    obtain ⟨hlt, rfl⟩ := List.getElem?_eq_some_iff.mp ht
    exact (List.getElem_cons_eraseIdx_perm hlt).symm
  have hmem : ∀ x, x ∈ s.waitingTasks → x ≠ t → x ∈ s.waitingTasks.eraseIdx i := by
    intro x hx hne
    exact (List.mem_cons.mp (hperm.mem_iff.mp hx)).resolve_left hne
  have hsub : ∀ x, x ∈ s.waitingTasks.eraseIdx i → x ∈ s.waitingTasks :=
    fun x hx => List.mem_of_mem_eraseIdx hx
  exact { h with
    places := by
      refine List.Perm.trans ?_ h.places
      simp only [Exec.places, Exec.submit, List.append_assoc]
      refine List.Perm.trans ?_ (hperm.symm.append_right _)
      exact perm_move ..
    submitted := fun x hx hwaiting p hp => by
      by_cases heq : x = t
      · subst heq
        exact h.checked x hnone p hp
      · exact h.submitted x hx (fun hmem' => hwaiting (hmem x hmem' heq)) p hp
    notStarted := fun x hx => by
      refine h.notStarted x (hx.imp_right fun hx => ?_)
      have hx' : x ∈ s.waitingTasks.eraseIdx i ++ (s.submitted ++ [t]) := hx
      rcases List.mem_append.mp hx' with hx | hx
      · exact List.mem_append_left _ (hsub x hx)
      · rcases List.mem_append.mp hx with hx | hx
        · exact List.mem_append_right _ hx
        · rw [List.mem_singleton.mp hx]
          exact List.mem_append_left _ (List.mem_of_getElem? ht)
    blocked := by
      have hblocked := h.blocked
      have hchecked : (s.submit i t).checked = s.checked := by
        have hpc' : (s.submit i t).pc = .scheduling i waiting := hpc
        unfold Exec.checked
        rw [hpc, hpc']
        exact List.take_eraseIdx_eq_take_of_le _ _ _ le_rfl
      rw [hchecked]
      exact hblocked
    returned := fun hreturned => nomatch hpc.symm.trans hreturned
    take := fun htake => nomatch hpc.symm.trans htake }

theorem take_succ_of_get {l : List Nat} {i t : Nat} (h : l[i]? = some t) :
    l.take (i + 1) = l.take i ++ [t] := by
  rw [List.take_add_one, h]
  rfl

/-- One turn of the loops. -/
theorem Inv.schedule (h : Inv s) {i : Nat} {waiting : Bool} (hpc : s.pc = .scheduling i waiting) :
    Inv (s.schedule i waiting) := by
  have hreturned : s.pc ≠ .returned := fun heq => nomatch hpc.symm.trans heq
  have htake : s.checked = s.waitingTasks.take i := by
    unfold Exec.checked
    rw [hpc]
  unfold Exec.schedule
  split
  · next hend =>
    have hall : s.waitingTasks.take i = s.waitingTasks :=
      List.take_of_length_le (List.getElem?_eq_none_iff.mp hend)
    refine h.setPc (fun t ht => ?_) (by split <;> nofun) (by split <;> nofun)
    have ht' : t ∈ s.waitingTasks := by
      cases waiting <;> exact ht
    rw [← hall, ← htake] at ht'
    exact h.blocked t ht'
  · next t ht =>
    have hwaiting := List.mem_of_getElem? ht
    split
    · next hnone => exact h.submit hpc ht hnone
    · next list hlist =>
      have hgiven := h.same t list hlist
      have hpreds : s.predecessorsOf t = s.made list := by
        unfold Exec.predecessorsOf
        rw [hgiven]
      split
      · next hempty =>
        exact { h with
          same := fun x l hl => by
            by_cases heq : x = t
            · subst heq
              exact nomatch (Function.update_self _ _ s.predecessors).symm.trans hl
            · exact h.same x l ((Function.update_of_ne heq _ _).symm.trans hl)
          checked := fun x hx p hp => by
            by_cases heq : x = t
            · subst heq
              have hp' : p ∈ s.made list := hpreds ▸ hp
              refine (h.removed list p hp').resolve_left ?_
              rw [hempty]
              exact List.not_mem_nil
            · exact h.checked x ((Function.update_of_ne heq _ _).symm.trans hx) p hp }
      · next predecessor rest hhead =>
        split
        · next hfinish =>
          have hrest : ∀ l, l ≠ list → Function.update s.list list rest l = s.list l :=
            fun l hne => Function.update_of_ne hne _ _
          have hself : Function.update s.list list rest list = rest := Function.update_self ..
          exact { h with
            left := fun l p hp => by
              by_cases heq : l = list
              · subst heq
                have hp' : p ∈ rest := hself ▸ hp
                refine h.left l p ?_
                rw [hhead]
                exact List.mem_cons_of_mem _ hp'
              · exact h.left l p (hrest l heq ▸ hp)
            removed := fun l p hp => by
              by_cases heq : l = list
              · subst heq
                rcases h.removed l p hp with hmem | hdone
                · rw [hhead] at hmem
                  rcases List.mem_cons.mp hmem with rfl | hmem
                  · exact .inr hfinish
                  · refine .inl ?_
                    change p ∈ Function.update s.list l rest l
                    rw [hself]
                    exact hmem
                · exact .inr hdone
              · change p ∈ Function.update s.list list rest l ∨ _
                rw [hrest l heq]
                exact h.removed l p hp }
        · next hfinish =>
          refine h.setPc (fun x hx => ?_) (fun h => nomatch h) (fun h => nomatch h)
          have hx' : x ∈ s.waitingTasks.take (i + 1) := hx
          rw [take_succ_of_get ht, ← htake] at hx'
          rcases List.mem_append.mp hx' with hx | hx
          · exact h.blocked x hx
          · rw [List.mem_singleton.mp hx, hpreds]
            refine ⟨predecessor, h.left list predecessor ?_, fun htaken => ?_⟩
            · rw [hhead]
              exact List.mem_cons_self
            · exact hfinish (h.finished predecessor (List.mem_append_right _ htaken))

/-- What one step of any thread preserves. -/
theorem Inv.step (h : Inv s) {a : Action} (hstep : step numberOfJobs s a = some s') : Inv s' := by
  cases a with
  | startArgc predecessors =>
    simp only [Runner.step] at hstep
    split at hstep
    · cases predecessors with
      | null =>
        cases hstep
        exact h.create (fun _ h => nomatch h)
      | new tasks =>
        simp only [Exec.startArgc] at hstep
        split at hstep
        · next htasks =>
          cases hstep
          refine (h.newList htasks).create fun l hl => ?_
          cases hl
          exact Nat.lt_succ_self _
        · cases hstep
      | shared list =>
        simp only [Exec.startArgc] at hstep
        split at hstep
        · next hlist =>
          cases hstep
          refine h.create fun l hl => ?_
          cases hl
          exact hlist
        · cases hstep
    · cases hstep
  | waitProcesses =>
    simp only [Runner.step] at hstep
    split at hstep
    · next hpc =>
      cases hstep
      have hchecked : s.checked = s.waitingTasks := by
        unfold Exec.checked
        rw [hpc]
      exact h.setPc (fun t ht => h.blocked t (hchecked ▸ ht)) (fun h => nomatch h)
        (fun h => nomatch h)
    · cases hstep
  | next =>
    simp only [Runner.step, Exec.next] at hstep
    split at hstep
    · cases hstep
    · next i waiting hpc =>
      cases hstep
      exact h.schedule hpc
    · next hpc =>
      cases hstep
      have hchecked : s.checked = s.waitingTasks := by
        unfold Exec.checked
        rw [hpc]
      by_cases hnil : s.waitingTasks = []
      · rw [if_pos hnil]
        exact h.setPc (fun t ht => h.blocked t (hchecked ▸ ht)) (fun _ => hnil) (fun h => nomatch h)
      · rw [if_neg hnil]
        exact h.setPc (fun t ht => h.blocked t (hchecked ▸ ht)) (fun h => nomatch h) fun _ => hnil
    · next hpc =>
      split at hstep
      · cases hstep
      · next t rest hcompleted =>
        cases hstep
        have hfinished := h.finished
        rw [hcompleted] at hfinished
        exact { h with
          places := by
            refine List.Perm.trans ?_ h.places
            simp only [Exec.places, hcompleted, List.append_assoc]
            refine List.Perm.append_left _ (List.Perm.append_left _ (List.Perm.append_left _ ?_))
            rw [← List.append_assoc]
            exact List.perm_append_comm
          finished := fun x hx => by
            refine hfinished x ?_
            have hx' : x ∈ rest ++ (s.taken ++ [t]) := hx
            rw [List.cons_append, List.mem_cons, List.mem_append]
            rw [List.mem_append, List.mem_append, List.mem_singleton] at hx'
            tauto
          blocked := fun _ h => nomatch h
          returned := fun h => nomatch h
          take := (fun h => nomatch h) }
    · cases hstep
  | dequeue =>
    simp only [Runner.step] at hstep
    split at hstep
    · cases hstep
    · next t rest hsubmitted =>
      split at hstep
      · cases hstep
        have hnotStarted := h.notStarted
        rw [hsubmitted] at hnotStarted
        exact { h with
          places := by
            refine List.Perm.trans ?_ h.places
            simp only [Exec.places, hsubmitted, List.append_assoc]
            refine List.Perm.append_left _ ?_
            exact perm_move ..
          notStarted := fun x hx => by
            refine hnotStarted x (hx.imp_right fun hx => ?_)
            rcases List.mem_append.mp hx with hx | hx
            · exact List.mem_append_left _ hx
            · exact List.mem_append_right _ (List.mem_cons_of_mem _ hx) }
      · cases hstep
  | start t =>
    simp only [Runner.step] at hstep
    split at hstep
    · next ht =>
      cases hstep
      have hnew : t ∉ s.started := fun hmem => (h.started t).mp hmem ht.2
      refine h.setState ht.1 (fun h => nomatch h) (ht.2 ▸ (fun h => nomatch h)) ?_ fun x => ?_
      · have hcons : (t :: s.started).Nodup := List.nodup_cons.mpr ⟨hnew, h.nodup⟩
        exact (List.perm_append_singleton t s.started).nodup_iff.mpr hcons
      · rw [List.mem_append, List.mem_singleton]
    · cases hstep
  | finish t =>
    simp only [Runner.step] at hstep
    split at hstep
    · next ht =>
      cases hstep
      have hold : t ∈ s.started := (h.started t).mpr (ht.2 ▸ (fun h => nomatch h))
      refine h.setState ht.1 (fun h => nomatch h) (ht.2 ▸ (fun h => nomatch h)) h.nodup fun x => ?_
      exact ⟨.inl, fun hx => hx.elim id fun heq => heq ▸ hold⟩
    · cases hstep
  | complete t =>
    simp only [Runner.step] at hstep
    split at hstep
    · next ht =>
      cases hstep
      exact { h with
        places := by
          refine List.Perm.trans ?_ h.places
          simp only [Exec.places, List.append_assoc]
          refine List.Perm.append_left _ (List.Perm.append_left _ ?_)
          exact (perm_move ..).trans ((List.perm_cons_erase ht.1).symm.append_right _)
        finished := fun x hx => by
          have hx' : x ∈ s.completed ++ [t] ++ s.taken := hx
          rw [List.append_assoc, List.mem_append, List.mem_append, List.mem_singleton] at hx'
          rcases hx' with hx | rfl | hx
          · exact h.finished x (List.mem_append_left _ hx)
          · exact ht.2
          · exact h.finished x (List.mem_append_right _ hx) }
    · cases hstep

/-- While a task waits, one that is submitted has not been taken: the first one that waits has only
predecessors that have been submitted, and one of them has not been taken. -/
theorem Inv.untaken (h : Inv s) (hpc : s.pc = .take) {t : Nat} (ht : t ∈ s.waitingTasks) : ∃ p, p ∈ s.submitted ++ s.active ++ s.completed := by
  induction t using Nat.strong_induction_on with
  | h t ih =>
    have hlt : t < s.tasks := by
      refine h.mem_places.mp ?_
      simp only [Exec.places, List.append_assoc]
      exact List.mem_append_left _ ht
    have hchecked : s.checked = s.waitingTasks := by
      unfold Exec.checked
      rw [hpc]
    obtain ⟨p, hp, htaken⟩ := h.blocked t (hchecked ▸ ht)
    have hearlier := h.earlier t hlt p hp
    have hplace := h.mem_places.mpr (hearlier.trans hlt)
    simp only [Exec.places, List.mem_append] at hplace
    rcases hplace with (((hwaiting | hsubmitted) | hactive) | hcompleted) | htaken'
    · exact ih p hearlier hwaiting
    · exact ⟨p, by simp only [List.mem_append]; exact .inl (.inl hsubmitted)⟩
    · exact ⟨p, by simp only [List.mem_append]; exact .inl (.inr hactive)⟩
    · exact ⟨p, by simp only [List.mem_append]; exact .inr hcompleted⟩
    · exact absurd htaken' htaken

theorem Inv.blocking (h : Inv s) (hpc : s.pc = .take) :
    ∃ p, p ∈ s.submitted ++ s.active ++ s.completed := by
  obtain ⟨t, ht⟩ := List.exists_mem_of_ne_nil _ (h.take hpc)
  exact h.untaken hpc ht

/-- The thread that makes the calls is waiting, or has returned, and no thread can go on. -/
def Exec.Stuck (numberOfJobs : Nat) (s : Exec) : Prop :=
  s.pc ≠ .idle ∧ step numberOfJobs s .next = none ∧ step numberOfJobs s .dequeue = none ∧
    ∀ t, step numberOfJobs s (.start t) = none ∧ step numberOfJobs s (.finish t) = none ∧
      step numberOfJobs s (.complete t) = none

theorem Exec.Stuck.active (h : s.Stuck numberOfJobs) : s.active = [] := by
  obtain ⟨-, -, -, htasks⟩ := h
  refine List.eq_nil_iff_forall_not_mem.mpr fun t ht => ?_
  obtain ⟨hstart, hfinish, hcomplete⟩ := htasks t
  cases hstate : s.state t with
  | WAIT =>
    simp only [step, if_pos (And.intro ht hstate)] at hstart
    cases hstart
  | RUN =>
    simp only [step, if_pos (And.intro ht hstate)] at hfinish
    cases hfinish
  | FINISH =>
    simp only [step, if_pos (And.intro ht hstate)] at hcomplete
    cases hcomplete

theorem Exec.Stuck.submitted (h : s.Stuck numberOfJobs) (hjobs : 0 < numberOfJobs) :
    s.submitted = [] := by
  have hactive := h.active
  obtain ⟨-, -, hdequeue, -⟩ := h
  have hroom : s.active.length < numberOfJobs := by
    rw [hactive]
    exact hjobs
  cases hsubmitted : s.submitted with
  | nil => rfl
  | cons t rest =>
    simp only [step, hsubmitted, if_pos hroom] at hdequeue
    cases hdequeue

/-- Nothing is stuck before all commands have been run. -/
theorem Inv.stuck (h : Inv s) (hjobs : 0 < numberOfJobs) (hstuck : s.Stuck numberOfJobs) :
    s.pc = .returned ∧ s.started.Perm (List.range s.tasks) := by
  have hactive := hstuck.active
  have hsubmitted := hstuck.submitted hjobs
  obtain ⟨hidle, hnext, -, -⟩ := hstuck
  have hpc : s.pc = .returned := by
    simp only [Runner.step, Exec.next] at hnext
    split at hnext
    · next hpc => exact absurd hpc hidle
    · cases hnext
    · cases hnext
    · next hpc =>
      split at hnext
      · next hcompleted =>
        obtain ⟨t, ht⟩ := h.blocking hpc
        simp only [hsubmitted, hactive, hcompleted] at ht
        cases ht
      · cases hnext
    · next hpc => exact hpc
  have hwaiting := h.returned hpc
  refine ⟨hpc, (List.perm_ext_iff_of_nodup h.nodup List.nodup_range).mpr fun t => ?_⟩
  rw [List.mem_range, h.started t]
  constructor
  · exact fun hstate => Nat.not_le.mp fun hle => hstate (h.notStarted t (.inl hle))
  · intro hlt
    have hplace := h.mem_places.mpr hlt
    simp only [Exec.places, hwaiting, hsubmitted, hactive, List.nil_append] at hplace
    exact (h.finished t hplace) ▸ (fun h => nomatch h)

end Steps

/-- With more than one job, in every run: a command is started once at most, and when its
predecessors have finished; whoever waits in `take` has a task that is submitted and not taken;
`waitProcesses` returns when no task waits, and nothing is stuck before every command has been
started once. -/
theorem commands_started {numberOfJobs : Nat} (hjobs : 1 < numberOfJobs) {actions : List Action}
    {s : Exec} (h : Machine.run (step numberOfJobs) initial actions = some s) :
    s.started.Nodup ∧
    (∀ t ∈ s.started, t < s.tasks ∧ ∀ p ∈ s.predecessorsOf t, s.state p = .FINISH) ∧
    (s.pc = .take → ∃ t, t ∈ s.submitted ++ s.active ++ s.completed) ∧
    (s.pc = .returned → s.waitingTasks = []) ∧
    (s.Stuck numberOfJobs → s.pc = .returned ∧ s.started.Perm (List.range s.tasks)) := by
  have hinv : Inv s := run_induction (fun _ _ _ hinv hstep => hinv.step hstep) inv_initial h
  refine ⟨hinv.nodup, fun t ht => ?_, hinv.blocking, hinv.returned, hinv.stuck (by omega)⟩
  · have hstate := (hinv.started t).mp ht
    have hlt : t < s.tasks := Nat.not_le.mp fun hle => hstate (hinv.notStarted t (.inl hle))
    refine ⟨hlt, hinv.submitted t hlt fun hwaiting => hstate ?_⟩
    exact hinv.notStarted t (.inr (List.mem_append_left _ hwaiting))

/-- A task, and two that share the list of their predecessors. -/
def sampleActions : List Action :=
  [.startArgc .null, .next, .next, .startArgc (.new [0]), .next, .next, .startArgc (.shared 0), .next,
    .next, .next, .waitProcesses, .next, .dequeue, .start 0, .finish 0, .complete 0, .next, .next, .next,
    .next, .next, .next, .next, .next, .dequeue, .dequeue, .start 2, .start 1, .finish 1, .finish 2,
    .complete 2, .complete 1]

theorem commands_started_sample : ∃ s, Machine.run (step 2) initial sampleActions = some s ∧
    s.started = [0, 2, 1] ∧ s.predecessorsOf 2 = [0] ∧ s.pc = .returned ∧ s.started.Nodup := by
  refine ⟨_, rfl, rfl, rfl, rfl, ?_⟩
  exact (@commands_started 2 (by decide) sampleActions _ rfl).1

end Codinalte.Build.Runner
