import Codinalte.Composite.Generated
import Mathlib.Data.List.Induction

/-! The levels of a construction: what each of them does, what undoes it, and that both passes give
it the same number. -/

namespace Codinalte.Composite
open Codinalte.Numbering

/-- What `construct` does between two values of `levelOfConstruction`. -/
inductive Level where
  | mutex (c : Path)
  | component (c : Path) (priority : String)
  | constructed (c : Path) (constructor destructor : Bool)
  | event (c : Path) (target : Option Path)
  | trace (c : Path)
  | instance (c : Path)
  | bind (c : Path) (client : Option Path)
  | skeleton (c : Path) (priority : String)
  | none

namespace Level

def statements : Level → List Statement
  | .mutex c => [.eeMutexCreate c]
  | .component c priority => [.signalComponentCreation c priority true]
  | .constructed c constructor _ => [.construct c constructor]
  | .event c (some target) => [.eeMutexCreate c, .createFifo c target]
  | .event c Option.none => [.eeMutexCreate c]
  | .trace c => [.eeMutexCreate c]
  | .instance c => [.instantiateComponent c]
  | .bind c client => [.bindComponent c client]
  | .skeleton c priority => [.signalComponentCreation c priority false, .bindComponent c Option.none]
  | .none => []

def undos : Level → List Undo
  | .mutex c => [.eeMutexDestroy c]
  | .component c priority => [.signalComponentDestruction (.component c priority)]
  | .constructed c _ destructor => [.destroy c destructor]
  | .event c _ => [.destroyFifo c, .eeMutexDestroy c]
  | .trace c => [.eeMutexDestroy c]
  | .instance c => [.destroyComponent c]
  | .bind c client => [.unbindComponent c client]
  | .skeleton c priority =>
    [.unbindComponent c Option.none, .signalComponentDestruction (.skeleton c priority)]
  | .none => []

/-- The effects of a level that was completed. -/
def done (world : World) : Level → List Effect
  | .mutex c => [.mutex c]
  | .component c priority => [.component c priority]
  | .constructed c _ _ => [.constructed c]
  | .event c (some target) =>
    if world.succeeds (.createFifo c target) then [.mutex c, .fifo c] else [.mutex c]
  | .event c Option.none => [.mutex c]
  | .trace c => [.mutex c]
  | .instance c => [.instance c]
  | .bind c _ => [.binding c]
  | .skeleton c priority =>
    if world.succeeds (.signalComponentCreation c priority false) then
      [.skeleton c priority, .binding c] else [.binding c]
  | .none => []

/-- The effects that are undone for it. -/
def undone (world : World) : Level → List Effect
  | .skeleton c priority => [.binding c, .skeleton c priority]
  | level => (level.done world).reverse

/-- The effects of a level that failed. -/
def partly (world : World) : Level → List Effect
  | .skeleton c priority =>
    if world.succeeds (.signalComponentCreation c priority false) then [.skeleton c priority]
    else []
  | _ => []

/-- The binding component whose events the level creates. -/
def eventPath : Level → Option Path
  | .event c _ => some c
  | _ => Option.none

end Level

def levelsOf (leaf : Leaf) : List Level :=
  let c := leaf.path
  match leaf.kind with
  | .primitive priority constructor destructor _ _ =>
    [.mutex c, .component c priority, .constructed c constructor destructor]
  | .event target => [.event c target]
  | .trace => [.trace c]
  | .proxycomp => [.instance c]
  | .proxystub => [.bind c none]
  | .proxyskel priority => [.skeleton c priority]
  | .proxybind client => [.bind c (some client)]
  | .automanaged => [.none]

def allLevels (top : Top) : List Level := (browseComponent false top).flatMap levelsOf

section Passes

theorem constructLeaf_eq (leaf : Leaf) :
    constructLeaf leaf = (levelsOf leaf).map Level.statements := by
  obtain ⟨path, kind⟩ := leaf
  cases kind with
  | event target => cases target <;> rfl
  | _ => rfl

theorem destroyLeaf_eq (leaf : Leaf) :
    destroyLeaf leaf = (levelsOf leaf).reverse.map Level.undos := by
  obtain ⟨path, kind⟩ := leaf
  cases kind <;> rfl

theorem numberUp_map {S T : Type} (f : S → T) (l : List S) (n : Nat) :
    numberUp (l.map f) n = (numberUp l n).map fun p => (p.1, f p.2) := by
  induction l generalizing n with
  | nil => rfl
  | cons s l ih =>
    rw [List.map_cons, numberUp, ih]
    rfl

theorem constructPass_eq (top : Top) :
    constructPass top = numberUp ((allLevels top).map Level.statements) 0 := by
  unfold constructPass allLevels
  rw [List.map_flatMap]
  congr 1
  exact List.flatMap_congr fun leaf _ => constructLeaf_eq leaf

theorem levels_eq (top : Top) : levels top = (allLevels top).length := by
  have hstatements : (browseComponent false top).flatMap constructLeaf =
      (allLevels top).map Level.statements := by
    unfold allLevels
    rw [List.map_flatMap]
    exact List.flatMap_congr fun leaf _ => constructLeaf_eq leaf
  unfold levels
  rw [hstatements, List.length_map]

/-- The number that a step has in `construct` is the one that `destroy` tests for it. -/
theorem destroyPass_eq (top : Top) :
    destroyPass top = (numberUp ((allLevels top).map Level.undos) 0).reverse := by
  have hundos : (browseComponent true top).flatMap destroyLeaf =
      ((allLevels top).map Level.undos).reverse := by
    rw [browseComponent_reverse, ← List.map_reverse]
    unfold allLevels
    rw [List.reverse_flatMap, List.map_flatMap]
    refine List.flatMap_congr fun leaf _ => ?_
    rw [destroyLeaf_eq]
    rfl
  have hdown := numberDown_reverse ((allLevels top).map Level.undos) 0
  unfold destroyPass
  rw [hundos, levels_eq, ← hdown, List.length_map, Nat.zero_add]

end Passes

section Statements
variable {world : World} {s s' s'' : Instance} {statement : Statement}

/-- The fields that no statement changes. -/
structure Alike (s s' : Instance) : Prop where
  levelOfConstruction : s'.levelOfConstruction = s.levelOfConstruction
  startNumber : s'.startNumber = s.startNumber
  constructedNumber : s'.constructedNumber = s.constructedNumber
  nmfState : s'.nmfState = s.nmfState

theorem Alike.refl (s : Instance) : Alike s s := ⟨rfl, rfl, rfl, rfl⟩

theorem Alike.trans (h : Alike s s') (h' : Alike s' s'') : Alike s s'' where
  levelOfConstruction := h'.levelOfConstruction.trans h.levelOfConstruction
  startNumber := h'.startNumber.trans h.startNumber
  constructedNumber := h'.constructedNumber.trans h.constructedNumber
  nmfState := h'.nmfState.trans h.nmfState

/-- What statements leave: their effects, the handles that were set, and no other events than those
of their own binding component. -/
structure Ran (s s' : Instance) (event : Option Path) (effects : List Effect) : Prop where
  alike : Alike s s'
  trace : s'.trace = s.trace ++ effects.map .did
  components : ∀ c, s.components c = true → s'.components c = true
  fifo : ∀ c, event ≠ some c → s'.fifo c = s.fifo c

theorem Ran.refl (s : Instance) (event : Option Path) : Ran s s event [] where
  alike := .refl s
  trace := (List.append_nil _).symm
  components := fun _ h => h
  fifo := fun _ _ => rfl

theorem Ran.trans {event : Option Path} {effects effects' : List Effect}
    (h : Ran s s' event effects) (h' : Ran s' s'' event effects') :
    Ran s s'' event (effects ++ effects') where
  alike := h.alike.trans h'.alike
  trace := by rw [h'.trace, h.trace, List.append_assoc, List.map_append]
  components := fun c hc => h'.components c (h.components c hc)
  fifo := fun c hc => (h'.fifo c hc).trans (h.fifo c hc)

theorem Ran.mono {event : Option Path} {effects : List Effect} (h : Ran s s' none effects) :
    Ran s s' event effects where
  alike := h.alike
  trace := h.trace
  components := h.components
  fifo := fun c _ => h.fifo c (fun h => nomatch h)

theorem Ran.record (h : Ran s s' none []) (e : Effect) : Ran s (s'.record (.did e)) none [e] where
  alike := h.alike.trans ⟨rfl, rfl, rfl, rfl⟩
  trace := by
    have htrace : s'.trace = s.trace := h.trace.trans (List.append_nil _)
    unfold Instance.record
    rw [htrace]
    rfl
  components := h.components
  fifo := h.fifo

/-- The binding component whose events a statement creates. -/
def Statement.event : Statement → Option Path
  | .createFifo c _ => some c
  | _ => none

/-- The effect of a statement after which the construction goes on. -/
def Statement.done (world : World) : Statement → List Effect
  | .eeMutexCreate c => [.mutex c]
  | .signalComponentCreation c priority checked =>
    if world.succeeds (.signalComponentCreation c priority checked) then
      [if checked then .component c priority else .skeleton c priority] else []
  | .construct c _ => [.constructed c]
  | .createFifo c target => if world.succeeds (.createFifo c target) then [.fifo c] else []
  | .instantiateComponent c => [.instance c]
  | .bindComponent c _ => [.binding c]

theorem statement_goes_on (h : execStatement world s statement = (s', true)) :
    Ran s s' statement.event (statement.done world) := by
  cases statement with
  | eeMutexCreate c =>
    have hset : Ran s { s with mutexHandle := Function.update s.mutexHandle c (world.mutex c) }
        none [] := ⟨⟨rfl, rfl, rfl, rfl⟩, (List.append_nil _).symm, fun _ h => h, fun _ _ => rfl⟩
    simp only [execStatement] at h
    split at h
    · cases h
    · cases h
      exact hset.record _
  | signalComponentCreation c priority checked =>
    simp only [execStatement] at h
    split at h
    · next hsucceeds =>
      cases h
      simp only [Statement.done, if_pos hsucceeds]
      exact (Ran.refl s none).record _
    · next hsucceeds =>
      have hs : s = s' := congrArg Prod.fst h
      simp only [Statement.done, if_neg hsucceeds]
      rw [hs]
      exact .refl s' none
  | construct c provided =>
    simp only [execStatement] at h
    split at h
    · cases h
    · cases h
      exact (Ran.refl s none).record _
  | createFifo c target =>
    simp only [execStatement] at h
    have hother : ∀ (x : Option Nat) (d : Path), Statement.event (.createFifo c target) ≠ some d →
        Function.update s.fifo c x d = s.fifo d := by
      intro x d hd
      refine Function.update_of_ne ?_ _ _
      rintro rfl
      exact hd rfl
    split at h
    · next hsucceeds =>
      cases h
      simp only [Statement.done, if_pos hsucceeds]
      exact ⟨⟨rfl, rfl, rfl, rfl⟩, rfl, fun _ h => h, hother _⟩
    · next hsucceeds =>
      cases h
      simp only [Statement.done, if_neg hsucceeds]
      exact ⟨⟨rfl, rfl, rfl, rfl⟩, (List.append_nil _).symm, fun _ h => h, hother _⟩
  | instantiateComponent c =>
    simp only [execStatement] at h
    split at h
    · cases h
      refine ⟨⟨rfl, rfl, rfl, rfl⟩, rfl, ?_, fun _ _ => rfl⟩
      intro d hd
      by_cases hdc : d = c
      · rw [hdc]
        exact Function.update_self ..
      · exact (Function.update_of_ne hdc _ _).trans hd
    · cases h
  | bindComponent c client =>
    simp only [execStatement] at h
    split at h
    · cases h
      exact (Ran.refl s none).record _
    · cases h

theorem statement_stops (h : execStatement world s statement = (s', false)) :
    Ran s s' none [] := by
  cases statement with
  | eeMutexCreate c =>
    simp only [execStatement] at h
    split at h
    · cases h
      exact ⟨⟨rfl, rfl, rfl, rfl⟩, (List.append_nil _).symm, fun _ h => h, fun _ _ => rfl⟩
    · cases h
  | signalComponentCreation c priority checked =>
    simp only [execStatement] at h
    split at h
    · cases h
    · have hs : s = s' := congrArg Prod.fst h
      rw [hs]
      exact .refl s' none
  | construct c provided =>
    simp only [execStatement] at h
    split at h
    · cases h
      exact .refl s none
    · cases h
  | createFifo c target =>
    simp only [execStatement] at h
    split at h <;> cases h
  | instantiateComponent c =>
    simp only [execStatement] at h
    split at h
    · cases h
    · cases h
      exact .refl s none
  | bindComponent c client =>
    simp only [execStatement] at h
    split at h
    · cases h
    · cases h
      exact .refl s none

end Statements

section Levels
variable {world : World} {level : Level} {s s' t : Instance}

theorem execLevel_cons {statement : Statement} {statements : List Statement} {r : Option Statement}
    (h : execLevel world (statement :: statements) s = (s', r)) :
    (∃ s₁, execStatement world s statement = (s₁, true) ∧
        execLevel world statements s₁ = (s', r)) ∨
      (execStatement world s statement = (s', false) ∧ r = some statement) := by
  unfold execLevel at h
  cases hstatement : execStatement world s statement with
  | mk s₁ goesOn =>
    rw [hstatement] at h
    cases goesOn with
    | true => exact .inl ⟨s₁, rfl, h⟩
    | false =>
      cases h
      exact .inr ⟨rfl, rfl⟩

theorem execLevel_one {statement : Statement}
    (h : execLevel world [statement] s = (s', none)) :
    execStatement world s statement = (s', true) := by
  rcases execLevel_cons h with ⟨s₁, hrun, hrest⟩ | ⟨_, hr⟩
  · cases hrest
    exact hrun
  · cases hr

theorem execLevel_one_fails {statement st : Statement}
    (h : execLevel world [statement] s = (s', some st)) :
    execStatement world s statement = (s', false) ∧ st = statement := by
  rcases execLevel_cons h with ⟨s₁, _, hrest⟩ | ⟨hrun, hr⟩
  · cases hrest
  · cases hr
    exact ⟨hrun, rfl⟩

/-- What the undoing of a completed level relies on. -/
def Level.Kept (world : World) (s : Instance) : Level → Prop
  | .event c (some target) => (s.fifo c).isSome = world.succeeds (.createFifo c target)
  | .event c Option.none => s.fifo c = Option.none
  | .bind _ client => client.all s.components = true
  | _ => True

theorem level_completes (h : execLevel world level.statements s = (s', none))
    (hfifo : ∀ c, level.eventPath = some c → s.fifo c = none) :
    Ran s s' level.eventPath (level.done world) ∧ level.Kept world s' := by
  cases level with
  | mutex c => exact ⟨statement_goes_on (execLevel_one h), trivial⟩
  | component c priority =>
    have hrun := execLevel_one h
    have hran := statement_goes_on hrun
    have hsucceeds : world.succeeds (.signalComponentCreation c priority true) = true := by
      by_contra hne
      simp [execStatement, hne] at hrun
    simp only [Statement.done, if_pos hsucceeds] at hran
    exact ⟨hran, trivial⟩
  | constructed c constructor destructor => exact ⟨statement_goes_on (execLevel_one h), trivial⟩
  | trace c => exact ⟨statement_goes_on (execLevel_one h), trivial⟩
  | «instance» c => exact ⟨statement_goes_on (execLevel_one h), trivial⟩
  | bind c client =>
    have hrun := execLevel_one h
    have hran := statement_goes_on hrun
    refine ⟨hran, ?_⟩
    simp only [execStatement] at hrun
    split at hrun
    · next hok =>
      cases hrun
      exact (Bool.and_eq_true_iff.mp hok).2
    · cases hrun
  | skeleton c priority =>
    rcases execLevel_cons h with ⟨s₁, hrun, hrest⟩ | ⟨-, hr⟩
    · have hbound : Ran s₁ s' none [.binding c] := statement_goes_on (execLevel_one hrest)
      have hran := (statement_goes_on hrun).trans hbound
      refine ⟨?_, trivial⟩
      simp only [Statement.done] at hran
      simp only [Level.done]
      split at hran
      · next hsucceeds =>
        rw [if_pos hsucceeds]
        exact hran
      · next hsucceeds =>
        rw [if_neg hsucceeds]
        exact hran
    · cases hr
  | none =>
    cases h
    exact ⟨.refl s none, trivial⟩
  | event c target =>
    cases target with
    | none =>
      have hran := statement_goes_on (execLevel_one h)
      exact ⟨hran.mono, (hran.fifo c (Option.some_ne_none c).symm).trans (hfifo c rfl)⟩
    | some target =>
      rcases execLevel_cons h with ⟨s₁, hrun, hrest⟩ | ⟨-, hr⟩
      · have hcreate := execLevel_one hrest
        have hran := (statement_goes_on hrun).mono.trans (statement_goes_on hcreate)
        simp only [Statement.done] at hran
        simp only [Level.done, Level.Kept]
        simp only [execStatement] at hcreate
        split at hcreate
        · next hsucceeds =>
          rw [if_pos hsucceeds] at hran ⊢
          cases hcreate
          refine ⟨hran, ?_⟩
          rw [hsucceeds]
          simp [Instance.record]
        · next hsucceeds =>
          rw [if_neg hsucceeds] at hran ⊢
          cases hcreate
          refine ⟨hran, ?_⟩
          simp [hsucceeds]
      · cases hr

theorem level_fails {statement : Statement}
    (h : execLevel world level.statements s = (s', some statement)) :
    Ran s s' none (level.partly world) ∧ statement ∈ level.statements := by
  cases level with
  | mutex c =>
    obtain ⟨hrun, rfl⟩ := execLevel_one_fails h
    exact ⟨statement_stops hrun, List.mem_singleton_self _⟩
  | component c priority =>
    obtain ⟨hrun, rfl⟩ := execLevel_one_fails h
    exact ⟨statement_stops hrun, List.mem_singleton_self _⟩
  | constructed c constructor destructor =>
    obtain ⟨hrun, rfl⟩ := execLevel_one_fails h
    exact ⟨statement_stops hrun, List.mem_singleton_self _⟩
  | trace c =>
    obtain ⟨hrun, rfl⟩ := execLevel_one_fails h
    exact ⟨statement_stops hrun, List.mem_singleton_self _⟩
  | «instance» c =>
    obtain ⟨hrun, rfl⟩ := execLevel_one_fails h
    exact ⟨statement_stops hrun, List.mem_singleton_self _⟩
  | bind c client =>
    obtain ⟨hrun, rfl⟩ := execLevel_one_fails h
    exact ⟨statement_stops hrun, List.mem_singleton_self _⟩
  | none => cases h
  | skeleton c priority =>
    rcases execLevel_cons h with ⟨s₁, hrun, hrest⟩ | ⟨hrun, -⟩
    · obtain ⟨hfailed, rfl⟩ := execLevel_one_fails hrest
      have hran := (statement_goes_on hrun).trans (statement_stops hfailed)
      rw [List.append_nil] at hran
      exact ⟨hran, List.mem_cons_of_mem _ (List.mem_singleton_self _)⟩
    · -- the result of the creation is not looked at
      simp only [execStatement] at hrun
      split at hrun <;> cases hrun
  | event c target =>
    cases target with
    | none =>
      obtain ⟨hrun, rfl⟩ := execLevel_one_fails h
      exact ⟨statement_stops hrun, List.mem_singleton_self _⟩
    | some target =>
      rcases execLevel_cons h with ⟨s₁, -, hrest⟩ | ⟨hrun, hr⟩
      · obtain ⟨hfailed, -⟩ := execLevel_one_fails hrest
        simp only [execStatement] at hfailed
        split at hfailed <;> cases hfailed
      · cases hr
        exact ⟨statement_stops hrun, List.mem_cons_self⟩

end Levels

section Undo
variable {world : World} {level : Level} {s s' s'' t : Instance} {ls : List Level}

/-- What the undoing of levels leaves. -/
structure Undid (s s' : Instance) (events : List Path) (effects : List Effect) : Prop where
  alike : Alike s s'
  trace : s'.trace = s.trace ++ effects.map .undid
  components : s'.components = s.components
  emptied : ∀ c ∈ events, s'.fifo c = none
  fifo : ∀ c ∉ events, s'.fifo c = s.fifo c

theorem Undid.refl (s : Instance) : Undid s s [] [] where
  alike := .refl s
  trace := (List.append_nil _).symm
  components := rfl
  emptied := fun _ h => nomatch h
  fifo := fun _ _ => rfl

theorem Undid.trans {events events' : List Path} {effects effects' : List Effect}
    (h : Undid s s' events effects) (h' : Undid s' s'' events' effects') :
    Undid s s'' (events ++ events') (effects ++ effects') where
  alike := h.alike.trans h'.alike
  trace := by rw [h'.trace, h.trace, List.append_assoc, List.map_append]
  components := h'.components.trans h.components
  emptied := by
    intro c hc
    by_cases hc' : c ∈ events'
    · exact h'.emptied c hc'
    · exact (h'.fifo c hc').trans (h.emptied c ((List.mem_append.mp hc).resolve_right hc'))
  fifo := by
    intro c hc
    rw [List.mem_append, not_or] at hc
    exact (h'.fifo c hc.2).trans (h.fifo c hc.1)

theorem undid_record (s : Instance) (e : Effect) : Undid s (s.record (.undid e)) [] [e] where
  alike := ⟨rfl, rfl, rfl, rfl⟩
  trace := rfl
  components := rfl
  emptied := fun _ h => nomatch h
  fifo := fun _ _ => rfl

def undoLevel (s : Instance) (level : Level) : Instance := level.undos.foldl execUndo s

theorem undid_fifo (c : Path) (hsome : (s.fifo c).isSome = true) :
    Undid s (execUndo s (.destroyFifo c)) [c] [.fifo c] := by
  simp only [execUndo, if_pos hsome]
  refine ⟨⟨rfl, rfl, rfl, rfl⟩, rfl, rfl, ?_, ?_⟩
  · intro d hd
    rw [List.mem_singleton.mp hd]
    exact Function.update_self ..
  · intro d hd
    exact Function.update_of_ne (fun h => hd (List.mem_singleton.mpr h)) _ _

theorem undid_no_fifo (c : Path) (hnone : s.fifo c = none) :
    Undid s (execUndo s (.destroyFifo c)) [c] [] := by
  have hstate : execUndo s (.destroyFifo c) = s := by
    simp [execUndo, hnone]
  rw [hstate]
  refine ⟨.refl s, (List.append_nil _).symm, rfl, ?_, fun _ _ => rfl⟩
  intro d hd
  rw [List.mem_singleton.mp hd]
  exact hnone

/-- The undoing of a completed level. -/
theorem undoLevel_undid (h : level.Kept world s) :
    Undid s (undoLevel s level) level.eventPath.toList (level.undone world) := by
  cases level with
  | mutex c => exact undid_record s _
  | component c priority => exact undid_record s _
  | constructed c constructor destructor => exact undid_record s _
  | trace c => exact undid_record s _
  | «instance» c => exact undid_record s _
  | none => exact .refl s
  | skeleton c priority =>
    have hunbind : execUndo s (.unbindComponent c none) = s.record (.undid (.binding c)) := rfl
    have hboth := (undid_record s (.binding c)).trans
      (undid_record (s.record (.undid (.binding c))) (.skeleton c priority))
    exact hboth
  | bind c client =>
    have hclient : client.all s.components = true := h
    have hunbind : undoLevel s (.bind c client) = s.record (.undid (.binding c)) := by
      simp only [undoLevel, Level.undos, List.foldl_cons, List.foldl_nil, execUndo, if_pos hclient]
    rw [hunbind]
    exact undid_record s _
  | event c target =>
    cases target with
    | none =>
      exact (undid_no_fifo c h).trans (undid_record _ (.mutex c))
    | some target =>
      have hkept : (s.fifo c).isSome = world.succeeds (.createFifo c target) := h
      have hmutex := undid_record (execUndo s (.destroyFifo c)) (.mutex c)
      simp only [Level.undone, Level.done]
      by_cases hsucceeds : world.succeeds (.createFifo c target) = true
      · rw [if_pos hsucceeds]
        exact (undid_fifo c (hkept.trans hsucceeds)).trans hmutex
      · rw [if_neg hsucceeds]
        have hnone : s.fifo c = none := by
          rw [Bool.not_eq_true] at hsucceeds
          exact Option.isNone_iff_eq_none.mp
            (Option.isSome_eq_false_iff.mp (hkept.trans hsucceeds))
        exact (undid_no_fifo c hnone).trans hmutex

theorem Level.Kept.transfer (h : level.Kept world s)
    (hfifo : ∀ c, level.eventPath = some c → s'.fifo c = s.fifo c)
    (hcomponents : ∀ c, s.components c = true → s'.components c = true) :
    level.Kept world s' := by
  cases level with
  | event c target =>
    cases target with
    | none => exact (hfifo c rfl).trans h
    | some target =>
      have hkept : (s.fifo c).isSome = world.succeeds (.createFifo c target) := h
      exact (congrArg Option.isSome (hfifo c rfl)).trans hkept
  | bind c client =>
    cases client with
    | none => rfl
    | some client => exact hcomponents client h
  | _ => trivial

/-- The binding components whose events the levels create. -/
def events (ls : List Level) : List Path := ls.filterMap Level.eventPath

theorem events_append (ls ls' : List Level) : events (ls ++ ls') = events ls ++ events ls' :=
  List.filterMap_append

theorem events_single (level : Level) : events [level] = level.eventPath.toList := by
  unfold events
  cases h : level.eventPath <;> simp [h]

/-- The levels are undone from the last one on. -/
theorem undoLevels_undid (hevents : (events ls).Nodup) (hkept : ∀ level ∈ ls, level.Kept world s) :
    ∃ gone, Undid s (ls.reverse.foldl undoLevel s) gone (ls.reverse.flatMap (Level.undone world)) ∧
      ∀ c, c ∈ gone ↔ c ∈ events ls := by
  induction ls using List.reverseRecOn generalizing s with
  | nil => exact ⟨[], .refl s, fun _ => Iff.rfl⟩
  | append_singleton ls level ih =>
    rw [events_append, events_single] at hevents
    have hlast := undoLevel_undid (hkept level (List.mem_append_right _ (List.mem_singleton_self _)))
    have hrest : ∀ l ∈ ls, l.Kept world (undoLevel s level) := by
      intro l hl
      refine (hkept l (List.mem_append_left _ hl)).transfer ?_ ?_
      · intro c hc
        refine hlast.fifo c fun hmem => ?_
        have hin : c ∈ events ls := List.mem_filterMap.mpr ⟨l, hl, hc⟩
        exact List.disjoint_of_nodup_append hevents hin hmem
      · intro c hc
        rw [hlast.components]
        exact hc
    obtain ⟨gone, hundid, hgone⟩ := ih hevents.of_append_left hrest
    refine ⟨level.eventPath.toList ++ gone, ?_, ?_⟩
    · rw [List.reverse_append, List.reverse_singleton, List.singleton_append, List.foldl_cons,
        List.flatMap_cons]
      exact hlast.trans hundid
    · intro c
      rw [List.mem_append, events_append, events_single, List.mem_append, hgone, Or.comm]

end Undo

section Runs
variable {world : World} {s s' : Instance} {ls : List Level}

/-- The levels were completed one after the other. -/
inductive Completes (world : World) (s : Instance) : List Level → Instance → Prop where
  | nil : Completes world s [] s
  | snoc {ls : List Level} {level : Level} {s₁ s₂ : Instance} (h : Completes world s ls s₁)
      (hrun : execLevel world level.statements s₁ = (s₂, none)) :
      Completes world s (ls ++ [level])
        { s₂ with levelOfConstruction := sint16 (ls.length + 1 : Nat) }

/-- What completed levels leave. -/
structure Built (world : World) (s s' : Instance) (ls : List Level) : Prop where
  levelOfConstruction : s.levelOfConstruction = 0 → s'.levelOfConstruction = sint16 ls.length
  startNumber : s'.startNumber = s.startNumber
  constructedNumber : s'.constructedNumber = s.constructedNumber
  nmfState : s'.nmfState = s.nmfState
  trace : s'.trace = s.trace ++ (ls.flatMap (Level.done world)).map .did
  components : ∀ c, s.components c = true → s'.components c = true
  fifo : ∀ c ∉ events ls, s'.fifo c = s.fifo c
  kept : ∀ l ∈ ls, l.Kept world s'

theorem Completes.built (h : Completes world s ls s') (hfifo : ∀ c, s.fifo c = none)
    (hevents : (events ls).Nodup) : Built world s s' ls := by
  induction h with
  | nil =>
    exact ⟨fun h => h.trans (by decide), rfl, rfl, rfl, (List.append_nil _).symm, fun _ h => h,
      fun _ _ => rfl, fun _ h => nomatch h⟩
  | snoc h hrun ih =>
    rename_i ls level s₁ s₂
    rw [events_append, events_single] at hevents
    have hbuilt := ih hevents.of_append_left
    have hempty : ∀ c, level.eventPath = some c → s₁.fifo c = none := by
      intro c hc
      have hnot : c ∉ events ls := by
        intro hmem
        refine List.disjoint_of_nodup_append hevents hmem ?_
        rw [hc]
        exact List.mem_singleton_self c
      exact (hbuilt.fifo c hnot).trans (hfifo c)
    obtain ⟨hran, hkept⟩ := level_completes hrun hempty
    refine ⟨?_, ?_, ?_, ?_, ?_, ?_, ?_, ?_⟩
    · intro _
      rw [List.length_append, List.length_singleton]
    · exact hran.alike.startNumber.trans hbuilt.startNumber
    · exact hran.alike.constructedNumber.trans hbuilt.constructedNumber
    · exact hran.alike.nmfState.trans hbuilt.nmfState
    · have htrace : s₂.trace = s.trace ++ ((ls ++ [level]).flatMap (Level.done world)).map .did := by
        rw [hran.trace, hbuilt.trace, List.flatMap_append, List.map_append, List.append_assoc,
          List.flatMap_singleton]
      exact htrace
    · exact fun c hc => hran.components c (hbuilt.components c hc)
    · intro c hc
      rw [events_append, events_single, List.mem_append, not_or] at hc
      have hother : level.eventPath ≠ some c := by
        intro h
        refine hc.2 ?_
        rw [h]
        exact List.mem_singleton_self c
      exact (hran.fifo c hother).trans (hbuilt.fifo c hc.1)
    · intro l hl
      rcases List.mem_append.mp hl with hl | hl
      · refine (hbuilt.kept l hl).transfer ?_ hran.components
        intro c hc
        refine hran.fifo c fun h => ?_
        refine List.disjoint_of_nodup_append hevents (List.mem_filterMap.mpr ⟨l, hl, hc⟩) ?_
        rw [h]
        exact List.mem_singleton_self c
      · rw [List.mem_singleton.mp hl]
        exact hkept.transfer (fun _ _ => rfl) (fun _ h => h)

/-- A construction completes all its levels, or it fails in the one after those that it has
completed. -/
theorem construct_cases (rest : List Level) (h : Completes world s ls s') :
    (∃ s₁, Completes world s (ls ++ rest) s₁ ∧
        execConstruct world (numberUp (rest.map Level.statements) ls.length) s' = (s₁, none)) ∨
      ∃ before level after s₁ s₂ statement, rest = before ++ level :: after ∧
        Completes world s (ls ++ before) s₁ ∧
        execLevel world level.statements s₁ = (s₂, some statement) ∧
        execConstruct world (numberUp (rest.map Level.statements) ls.length) s' =
          (s₂, some statement) := by
  induction rest generalizing ls s' with
  | nil =>
    refine .inl ⟨s', ?_, rfl⟩
    rw [List.append_nil]
    exact h
  | cons level rest ih =>
    rw [List.map_cons, numberUp]
    unfold execConstruct
    cases hrun : execLevel world level.statements s' with
    | mk s₁ r =>
      cases r with
      | some statement =>
        refine .inr ⟨[], level, rest, s', s₁, statement, rfl, ?_, hrun, rfl⟩
        rw [List.append_nil]
        exact h
      | none =>
        have hsnoc := h.snoc hrun
        have hlength : (ls ++ [level]).length = ls.length + 1 := by
          rw [List.length_append, List.length_singleton]
        rcases ih hsnoc with ⟨s₂, hall, hexec⟩ | ⟨before, l, after, s₂, s₃, statement, heq, hall,
          hfails, hexec⟩
        · refine .inl ⟨s₂, ?_, ?_⟩
          · rw [List.append_assoc] at hall
            exact hall
          · rw [hlength] at hexec
            exact hexec
        · refine .inr ⟨level :: before, l, after, s₂, s₃, statement, ?_, ?_, hfails, ?_⟩
          · rw [heq]
            rfl
          · rw [List.append_assoc] at hall
            exact hall
          · rw [hlength] at hexec
            exact hexec

theorem execUndo_level (s : Instance) (undo : Undo) :
    (execUndo s undo).levelOfConstruction = s.levelOfConstruction := by
  cases undo with
  | destroyFifo c =>
    simp only [execUndo]
    split <;> rfl
  | unbindComponent c client =>
    simp only [execUndo]
    split <;> rfl
  | _ => rfl

theorem undos_level (undos : List Undo) (s : Instance) :
    (undos.foldl execUndo s).levelOfConstruction = s.levelOfConstruction := by
  induction undos generalizing s with
  | nil => rfl
  | cons undo undos ih => exact (ih _).trans (execUndo_level s undo)

/-- Only the statements whose test holds are run. -/
theorem execDestroy_filter {m : Nat} (pass : List (Nat × List Undo))
    (hlevel : s.levelOfConstruction = m) :
    execDestroy pass s = ((pass.filter fun p => decide (p.1 ≤ m)).map Prod.snd).foldl
      (fun s undos => undos.foldl execUndo s) s := by
  induction pass generalizing s with
  | nil => rfl
  | cons p pass ih =>
    have hcons : execDestroy (p :: pass) s = execDestroy pass
        (if s.levelOfConstruction ≥ p.1 then p.2.foldl execUndo s else s) := rfl
    rw [hcons, hlevel]
    by_cases hp : p.1 ≤ m
    · have htest : (m : Int) ≥ p.1 := Int.ofNat_le.mpr hp
      have hdecide : decide (p.1 ≤ m) = true := decide_eq_true hp
      rw [if_pos htest, List.filter_cons, if_pos hdecide, List.map_cons, List.foldl_cons]
      exact ih ((undos_level p.2 s).trans hlevel)
    · have htest : ¬ (m : Int) ≥ p.1 := fun h => hp (Int.ofNat_le.mp h)
      have hdecide : ¬ decide (p.1 ≤ m) = true := fun h => hp (of_decide_eq_true h)
      rw [if_neg htest, List.filter_cons, if_neg hdecide]
      exact ih hlevel

/-- Under as many levels, `destroy` undoes those levels from the last one on. -/
theorem execDestroy_eq (top : Top) {m : Nat} (hlevel : s.levelOfConstruction = m) :
    execDestroy (destroyPass top) s = ((allLevels top).take m).reverse.foldl undoLevel s := by
  have hfilter := numberUp_filter ((allLevels top).map Level.undos) 0 m
  rw [Nat.zero_add] at hfilter
  rw [execDestroy_filter _ hlevel, destroyPass_eq, List.filter_reverse, List.map_reverse, hfilter,
    ← List.map_take, ← List.map_reverse, List.foldl_map]
  rfl

end Runs

end Codinalte.Composite
