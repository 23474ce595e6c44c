import Codinalte.Composite.RollBack
import Codinalte.Lib.Machine
import Mathlib.Data.List.Count
import Mathlib.Algebra.Ring.Nat

/-! The life cycle of a composite over whole sequences of calls. -/

namespace Codinalte.Composite
open Codinalte.Numbering Codinalte.Machine

inductive Call where
  | construct (world : World)
  | start
  | stop
  | stop_flush
  | destroy

/-- A call, and what it returns; `start`, `stop` and `stop_flush` return nothing. -/
def perform (top : Top) (s : Instance) : Call → Instance × Option NmfError
  | .construct world => ((construct top world s).1, some (construct top world s).2)
  | .start => (start top s, none)
  | .stop => (stop top s, none)
  | .stop_flush => (stop_flush top s, none)
  | .destroy => ((destroy top s).1, some (destroy top s).2)

def step (top : Top) (s : Instance) (call : Call) : Option Instance := some (perform top s call).1

/-- How often the component was constructed and not destroyed since. -/
def net (c : Path) (trace : List Event) : Int :=
  trace.count (.did (.constructed c)) - trace.count (.undid (.constructed c))

/-- Whether the component is started, as long as its `start` and `stop` alternate. -/
def running (c : Path) (started : Option Bool) (trace : List Event) : Option Bool :=
  trace.foldl (fun started event =>
    match event with
    | .started d => if d = c then (if started = some false then some true else none) else started
    | .stopped d => if d = c then (if started = some true then some false else none) else started
    | _ => started) started

/-- The kinds with a `start` and a `stop` of their own. -/
def Kind.methods : Kind → Bool
  | .primitive _ _ _ starter stopper => starter && stopper
  | .proxycomp => true
  | _ => false

def Kind.isPrimitive : Kind → Bool
  | .primitive .. => true
  | _ => false

/-- The same numbers, and the same constructed primitives. -/
structure SameState (s s' : Instance) : Prop where
  constructedNumber : s'.constructedNumber = s.constructedNumber
  startNumber : s'.startNumber = s.startNumber
  levelOfConstruction : s'.levelOfConstruction = s.levelOfConstruction
  constructed : ∀ c, net c s'.trace = net c s.trace

/-- Some calls of `stop` and `destroy` take the instance down. -/
def Releasable (top : Top) (s : Instance) : Prop :=
  ∃ calls : List Call, (∀ call ∈ calls, call = .stop ∨ call = .destroy) ∧
    ∃ t, run (step top) s calls = some t ∧ t.levelOfConstruction = 0 ∧ ∀ c, net c t.trace = 0

/-- What a call has to keep. -/
structure Proper (top : Top) (s : Instance) (call : Call) : Prop where
  error : ∀ e, (perform top s call).2 = some e → e ≠ .ok → SameState s (perform top s call).1
  alternate : ∀ leaf ∈ browseComponent false top, leaf.kind.methods = true →
    (running leaf.path (some false) (perform top s call).1.trace).isSome = true
  standing : call = .destroy → s.startNumber > 0 → (perform top s call).1.trace = s.trace
  releasable : (perform top s call).1.levelOfConstruction ≠ 0 →
    Releasable top (perform top s call).1
  delivered : call = .start → s.constructedNumber ≠ 0 → ∀ leaf ∈ browseComponent false top,
    leaf.kind.isPrimitive = true →
      posted (perform top s call).1 leaf.path = true ∧ reacted (perform top s call).1 leaf.path = true

/-- `construct` of an instance that is constructed is called on a singleton only; nothing is started
once it was flushed, stopped while it is not started, or destroyed for good while it is started or
not constructed. The numbers are those of a `t_sint8`. -/
def Allowed (top : Top) (s : Instance) : Call → Prop
  | .construct _ =>
    s.constructedNumber = 0 ∨ (top.singleton = true ∧ s.constructedNumber < 127)
  | .start => s.constructedNumber = 0 ∨
    (s.startNumber < 127 ∧ ∀ leaf ∈ browseComponent false top, leaf.kind.isPrimitive = true →
      s.nmfState leaf.path = .default)
  | .stop => s.constructedNumber = 0 ∨ s.startNumber > 0
  | .stop_flush => s.constructedNumber = 0 ∨ s.startNumber > 0
  | .destroy => s.constructedNumber > 1 ∨ (s.constructedNumber = 1 ∧ s.startNumber = 0)

section Traces
variable {c : Path} {world : World}

theorem running_append (started : Option Bool) (l l' : List Event) :
    running c started (l ++ l') = running c (running c started l) l' := List.foldl_append

theorem running_did (started : Option Bool) (effects : List Effect) :
    running c started (effects.map .did) = started := by
  induction effects with
  | nil => rfl
  | cons e effects ih => exact ih

theorem running_undid (started : Option Bool) (effects : List Effect) :
    running c started (effects.map .undid) = started := by
  induction effects with
  | nil => rfl
  | cons e effects ih => exact ih

theorem net_append (l l' : List Event) : net c (l ++ l') = net c l + net c l' := by
  unfold net
  rw [List.count_append, List.count_append]
  omega

theorem net_did (effects : List Effect) :
    net c (effects.map .did) = effects.count (.constructed c) := by
  unfold net
  have hdid : (effects.map Event.did).count (.did (.constructed c)) =
      effects.count (.constructed c) :=
    List.count_map_of_injective _ _ (fun _ _ h => Event.did.inj h) _
  have hundid : (effects.map Event.did).count (.undid (.constructed c)) = 0 :=
    List.count_eq_zero.mpr (by simp)
  rw [hdid, hundid]
  omega

theorem net_undid (effects : List Effect) :
    net c (effects.map .undid) = -effects.count (.constructed c) := by
  unfold net
  have hundid : (effects.map Event.undid).count (.undid (.constructed c)) =
      effects.count (.constructed c) :=
    List.count_map_of_injective _ _ (fun _ _ h => Event.undid.inj h) _
  have hdid : (effects.map Event.undid).count (.did (.constructed c)) = 0 :=
    List.count_eq_zero.mpr (by simp)
  rw [hdid, hundid]
  omega

/-- How often a level constructs the component. -/
def Level.share (c : Path) : Level → Nat
  | .constructed d _ _ => if d = c then 1 else 0
  | _ => 0

theorem done_share (level : Level) : (level.done world).count (.constructed c) = level.share c := by
  cases level with
  | constructed d constructor destructor =>
    simp only [Level.done, Level.share, List.count_singleton, beq_iff_eq, Effect.constructed.injEq]
  | event d target =>
    cases target with
    | none => rfl
    | some target =>
      simp only [Level.done, Level.share]
      split <;> rfl
  | skeleton d priority =>
    simp only [Level.done, Level.share]
    split <;> rfl
  | _ => rfl

theorem undone_share (level : Level) :
    (level.undone world).count (.constructed c) = level.share c := by
  cases level with
  | skeleton d priority => rfl
  | _ => exact List.count_reverse.trans (done_share _)

theorem partly_share (level : Level) : (level.partly world).count (.constructed c) = 0 := by
  cases level with
  | skeleton d priority =>
    simp only [Level.partly]
    split <;> rfl
  | _ => rfl

theorem count_flatMap_share {f : Level → List Effect}
    (h : ∀ level, (f level).count (.constructed c) = level.share c) (ls : List Level) :
    (ls.flatMap f).count (.constructed c) = (ls.map (Level.share c)).sum := by
  induction ls with
  | nil => rfl
  | cons level ls ih =>
    rw [List.flatMap_cons, List.count_append, ih, h, List.map_cons, List.sum_cons]

theorem sum_share_reverse (ls : List Level) :
    (ls.reverse.map (Level.share c)).sum = (ls.map (Level.share c)).sum := by
  rw [List.map_reverse, List.sum_reverse]

end Traces

section Passes
variable {top : Top} {s : Instance} {leaves : List Leaf}

/-- The event that `start` records for a leaf. -/
def startEvent (leaf : Leaf) : Option Event :=
  match leaf.kind with
  | .primitive _ _ _ starter _ => if starter then some (.started leaf.path) else none
  | .proxycomp => some (.started leaf.path)
  | _ => none

def stopEvent (leaf : Leaf) : Option Event :=
  match leaf.kind with
  | .primitive _ _ _ _ stopper => if stopper then some (.stopped leaf.path) else none
  | .proxycomp => some (.stopped leaf.path)
  | _ => none

theorem startLeaf_eq (s : Instance) (leaf : Leaf) :
    startLeaf s leaf = { s with trace := s.trace ++ (startEvent leaf).toList } := by
  obtain ⟨path, kind⟩ := leaf
  cases kind with
  | primitive priority constructor destructor starter stopper =>
    cases starter <;> simp [startLeaf, startEvent, Instance.record]
  | _ => simp [startLeaf, startEvent, Instance.record]

theorem stopLeaf_eq (s : Instance) (leaf : Leaf) :
    stopLeaf s leaf = { s with trace := s.trace ++ (stopEvent leaf).toList } := by
  obtain ⟨path, kind⟩ := leaf
  cases kind with
  | primitive priority constructor destructor starter stopper =>
    cases stopper <;> simp [stopLeaf, stopEvent, Instance.record]
  | _ => simp [stopLeaf, stopEvent, Instance.record]

theorem start_pass (leaves : List Leaf) (s : Instance) : leaves.foldl startLeaf s =
    { s with trace := s.trace ++ leaves.filterMap startEvent } := by
  induction leaves generalizing s with
  | nil => simp
  | cons leaf leaves ih =>
    rw [List.foldl_cons, startLeaf_eq, ih]
    cases h : startEvent leaf <;> simp [h]

theorem stop_pass (leaves : List Leaf) (s : Instance) : leaves.foldl stopLeaf s =
    { s with trace := s.trace ++ leaves.filterMap stopEvent } := by
  induction leaves generalizing s with
  | nil => simp
  | cons leaf leaves ih =>
    rw [List.foldl_cons, stopLeaf_eq, ih]
    cases h : stopEvent leaf <;> simp [h]

theorem startEvent_path {leaf : Leaf} {e : Event} (h : startEvent leaf = some e) :
    e = .started leaf.path := by
  obtain ⟨path, kind⟩ := leaf
  cases kind with
  | primitive priority constructor destructor starter stopper =>
    cases starter with
    | false => cases h
    | true => exact (Option.some.inj h).symm
  | proxycomp => exact (Option.some.inj h).symm
  | _ => cases h

theorem stopEvent_path {leaf : Leaf} {e : Event} (h : stopEvent leaf = some e) :
    e = .stopped leaf.path := by
  obtain ⟨path, kind⟩ := leaf
  cases kind with
  | primitive priority constructor destructor starter stopper =>
    cases stopper with
    | false => cases h
    | true => exact (Option.some.inj h).symm
  | proxycomp => exact (Option.some.inj h).symm
  | _ => cases h

theorem methods_events {leaf : Leaf} (h : leaf.kind.methods = true) :
    startEvent leaf = some (.started leaf.path) ∧ stopEvent leaf = some (.stopped leaf.path) := by
  obtain ⟨path, kind⟩ := leaf
  cases kind with
  | primitive priority constructor destructor starter stopper =>
    obtain ⟨rfl, rfl⟩ := Bool.and_eq_true_iff.mp h
    exact ⟨rfl, rfl⟩
  | proxycomp => exact ⟨rfl, rfl⟩
  | _ => cases h

/-- The leaves with other paths do not matter. -/
theorem running_others {c : Path} (f : Leaf → Option Event)
    (hf : ∀ leaf e, f leaf = some e → e = .started leaf.path ∨ e = .stopped leaf.path)
    (h : c ∉ leaves.map Leaf.path) (started : Option Bool) :
    running c started (leaves.filterMap f) = started := by
  induction leaves with
  | nil => rfl
  | cons leaf leaves ih =>
    rw [List.map_cons, List.mem_cons, not_or] at h
    cases hleaf : f leaf with
    | none =>
      rw [List.filterMap_cons_none hleaf]
      exact ih h.2
    | some e =>
      have hother : leaf.path ≠ c := fun heq => h.1 heq.symm
      rw [List.filterMap_cons_some hleaf]
      have hskip : running c started (e :: leaves.filterMap f) =
          running c started (leaves.filterMap f) := by
        rcases hf leaf e hleaf with rfl | rfl
        · simp only [running, List.foldl_cons, if_neg hother]
        · simp only [running, List.foldl_cons, if_neg hother]
      exact hskip.trans (ih h.2)

/-- A pass meets each leaf once. -/
theorem running_pass {leaf : Leaf} {e : Event} (f : Leaf → Option Event)
    (hf : ∀ leaf e, f leaf = some e → e = .started leaf.path ∨ e = .stopped leaf.path)
    (hnodup : (leaves.map Leaf.path).Nodup) (hleaf : leaf ∈ leaves) (he : f leaf = some e)
    (started : Option Bool) :
    running leaf.path started (leaves.filterMap f) = running leaf.path started [e] := by
  obtain ⟨before, after, rfl⟩ := List.append_of_mem hleaf
  rw [List.map_append, List.map_cons, List.nodup_middle, List.nodup_cons, List.mem_append,
    not_or] at hnodup
  rw [List.filterMap_append, running_append, running_others f hf hnodup.1.1,
    List.filterMap_cons_some he]
  exact (running_append started [e] (after.filterMap f)).trans
    (running_others f hf hnodup.1.2 _)

end Passes

end Codinalte.Composite
