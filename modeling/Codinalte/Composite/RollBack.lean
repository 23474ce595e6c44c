import Codinalte.Composite.Construction

/-! A construction that fails is rolled back, but for the creations that skeletons signal. -/

namespace Codinalte.Composite
open Codinalte.Numbering

/-- An instance that is not constructed. -/
structure Unconstructed (s : Instance) : Prop where
  levelOfConstruction : s.levelOfConstruction = 0
  startNumber : s.startNumber = 0
  constructedNumber : s.constructedNumber = 0
  fifo : ∀ c, s.fifo c = none

theorem create_unconstructed : Unconstructed create := ⟨rfl, rfl, rfl, fun _ => rfl⟩

theorem events_sublist (leaves : List Leaf) :
    (events (leaves.flatMap levelsOf)).Sublist (leaves.map Leaf.path) := by
  induction leaves with
  | nil => exact .slnil
  | cons leaf leaves ih =>
    rw [List.flatMap_cons, events_append, List.map_cons]
    obtain ⟨path, kind⟩ := leaf
    cases kind with
    | event target => exact ih.cons_cons _
    | _ => exact ih.cons _

theorem events_nodup {top : Top} (h : top.Named) : (events (allLevels top)).Nodup :=
  (browse_paths h).sublist (events_sublist _)

section Failed
variable {top : Top} {world : World} {s s' : Instance} {statement : Statement}

theorem sint8_one : sint8 (0 + 1) = 1 := by decide

theorem sint8_zero : sint8 (1 - 1) = 0 := by decide

theorem sint16_of_le {n : Nat} (h : n ≤ 32767) : sint16 n = n := by
  unfold sint16
  rw [Int.bmod_def]
  omega

theorem construct_unconstructed (top : Top) (world : World) (hs : Unconstructed s) :
    construct top world s =
      match execConstruct world (constructPass top) { s with constructedNumber := 1 } with
      | (s, some statement) => ((destroy top s).1, .failed statement)
      | (s, none) => ({ s.record (.did .registered) with
          levelOfConstruction := sint16 (levels top + 1 : Nat) }, .ok) := by
  have hnumber : ¬ (0 : Int) > 0 := Int.lt_irrefl 0
  have hlevel : ¬ s.levelOfConstruction ≠ 0 := not_not_intro hs.levelOfConstruction
  unfold construct
  simp only [hs.constructedNumber, sint8_one, if_neg hnumber, if_neg hlevel] <;> rfl

/-- `destroy` after a construction that came as far as some level. -/
theorem destroy_partial {m : Nat} (hm : m ≤ levels top) (hlevel : s.levelOfConstruction = m)
    (hconstructed : s.constructedNumber = 1) (hstart : s.startNumber = 0) :
    (destroy top s).1 = { ((allLevels top).take m).reverse.foldl undoLevel
      { s with constructedNumber := 0 } with levelOfConstruction := 0 } := by
  have hstarted : ¬ s.startNumber > 0 := by
    rw [hstart]
    decide
  have hnumber : ¬ (0 : Int) > 0 := Int.lt_irrefl 0
  unfold destroy
  simp only [hconstructed, sint8_zero, if_neg hnumber, if_neg hstarted]
  by_cases hzero : s.levelOfConstruction = 0
  · have hm0 : m = 0 := by omega
    rw [if_pos hzero, hm0, List.take_zero, ← hzero]
    rfl
  · have hunregistered : ¬ s.levelOfConstruction ≥ (levels top + 1 : Nat) := by omega
    have hexec : execDestroy (destroyPass top) { s with constructedNumber := 0 } =
        ((allLevels top).take m).reverse.foldl undoLevel { s with constructedNumber := 0 } :=
      execDestroy_eq top hlevel
    rw [if_neg hzero, if_neg hunregistered, hexec]

/-- What a construction that failed has done and undone. -/
theorem construct_failed (h : top.Named) (hlevels : levels top ≤ 32767) (hs : Unconstructed s)
    (hrun : construct top world s = (s', .failed statement)) :
    ∃ before level after, allLevels top = before ++ level :: after ∧
      statement ∈ level.statements ∧
      s'.trace = s.trace ++
        (before.flatMap (Level.done world) ++ level.partly world).map .did ++
        (before.reverse.flatMap (Level.undone world)).map .undid ∧
      Unconstructed s' ∧ s'.nmfState = s.nmfState := by
  have hevents := events_nodup h
  rw [construct_unconstructed top world hs] at hrun
  have hbegin : Completes world { s with constructedNumber := 1 } []
      { s with constructedNumber := 1 } := .nil
  have hcases := construct_cases (allLevels top) hbegin
  rw [List.length_nil, ← constructPass_eq] at hcases
  rcases hcases with ⟨s₁, -, hexec⟩ | ⟨before, level, after, s₁, s₂, st, hsplit, hall, hfails, hexec⟩
  · simp only [hexec, Prod.mk.injEq, reduceCtorEq, and_false] at hrun
  · simp only [hexec, Prod.mk.injEq, NmfError.failed.injEq] at hrun
    obtain ⟨hs', rfl⟩ := hrun
    rw [List.nil_append] at hall
    have hbefore : (events before).Nodup := by
      rw [hsplit, events_append] at hevents
      exact hevents.of_append_left
    have hbuilt := hall.built hs.fifo hbefore
    obtain ⟨hran, hmem⟩ := level_fails hfails
    have hlength : before.length ≤ levels top := by
      rw [levels_eq, hsplit, List.length_append]
      exact Nat.le_add_right _ _
    have hlevel : s₂.levelOfConstruction = before.length := by
      rw [hran.alike.levelOfConstruction, hbuilt.levelOfConstruction hs.levelOfConstruction]
      exact sint16_of_le (Nat.le_trans hlength hlevels)
    have htake : (allLevels top).take before.length = before := by
      rw [hsplit, List.take_left]
    have hstart : s₂.startNumber = 0 :=
      hran.alike.startNumber.trans (hbuilt.startNumber.trans hs.startNumber)
    have hkept : ∀ l ∈ before, l.Kept world { s₂ with constructedNumber := 0 } := fun l hl =>
      (hbuilt.kept l hl).transfer (fun c _ => hran.fifo c (fun h => nomatch h)) hran.components
    obtain ⟨gone, hundid, hgone⟩ := undoLevels_undid hbefore hkept
    have hdestroy := destroy_partial hlength hlevel
      (hran.alike.constructedNumber.trans hbuilt.constructedNumber) hstart
    rw [htake] at hdestroy
    rw [← hs', hdestroy]
    refine ⟨before, level, after, hsplit, hmem, ?_, ⟨rfl, ?_, ?_, ?_⟩, ?_⟩
    · have htrace := hundid.trace
      dsimp only at htrace ⊢
      rw [htrace, hran.trace, hbuilt.trace, List.map_append, List.append_assoc s.trace]
    · exact hundid.alike.startNumber.trans hstart
    · exact hundid.alike.constructedNumber
    · intro c
      by_cases hc : c ∈ gone
      · exact hundid.emptied c hc
      · have hnot : c ∉ events before := fun hmem => hc ((hgone c).mpr hmem)
        exact (hundid.fifo c hc).trans
          ((hran.fifo c (fun h => nomatch h)).trans ((hbuilt.fifo c hnot).trans (hs.fifo c)))
    · exact hundid.alike.nmfState.trans (hran.alike.nmfState.trans hbuilt.nmfState)

end Failed

section Exact
variable {world : World}

theorem undone_eq_iff (level : Level) : level.undone world = (level.done world).reverse ↔
    ∀ c priority, level = .skeleton c priority →
      world.succeeds (.signalComponentCreation c priority false) = true := by
  cases level with
  | skeleton c priority =>
    simp only [Level.undone, Level.done, Level.skeleton.injEq, and_imp]
    by_cases hsucceeds : world.succeeds (.signalComponentCreation c priority false) = true
    · rw [if_pos hsucceeds]
      refine iff_of_true rfl ?_
      rintro _ _ rfl rfl
      exact hsucceeds
    · rw [if_neg hsucceeds]
      refine iff_of_false (by simp) ?_
      exact fun h => hsucceeds (h c priority rfl rfl)
  | _ =>
    refine iff_of_true rfl fun c priority h => ?_
    cases h

theorem partly_eq_nil_iff (level : Level) : level.partly world = [] ↔
    ∀ c priority, level = .skeleton c priority →
      world.succeeds (.signalComponentCreation c priority false) = false := by
  cases level with
  | skeleton c priority =>
    simp only [Level.partly, Level.skeleton.injEq, and_imp]
    by_cases hsucceeds : world.succeeds (.signalComponentCreation c priority false) = true
    · rw [if_pos hsucceeds]
      refine iff_of_false (by simp) ?_
      intro h
      rw [h c priority rfl rfl] at hsucceeds
      exact absurd hsucceeds (by decide)
    · rw [if_neg hsucceeds]
      refine iff_of_true rfl ?_
      rintro _ _ rfl rfl
      exact Bool.not_eq_true _ ▸ hsucceeds
  | _ =>
    refine iff_of_true rfl fun c priority h => ?_
    cases h

/-- At least as much is undone as was done. -/
theorem done_length_le (level : Level) :
    ((level.done world).reverse).length ≤ (level.undone world).length := by
  cases level with
  | skeleton c priority =>
    simp only [Level.undone, Level.done]
    split <;> simp
  | _ => exact Nat.le_refl _

/-- No undoing begins with the creation of a skeleton. -/
theorem undone_head (ls : List Level) (c : Path) (priority : String) (effects : List Effect) :
    ls.flatMap (Level.undone world) ≠ .skeleton c priority :: effects := by
  induction ls with
  | nil => exact fun h => nomatch h
  | cons level ls ih =>
    rw [List.flatMap_cons]
    cases level with
    | none => exact ih
    | event d target =>
      cases target with
      | none => simp [Level.undone, Level.done]
      | some target =>
        simp only [Level.undone, Level.done]
        split <;> simp
    | _ => simp [Level.undone, Level.done]

theorem flatMap_eq_of_length {α β : Type} {f g : α → List β} {l : List α}
    (hle : ∀ x, (g x).length ≤ (f x).length) (h : l.flatMap f = l.flatMap g) :
    ∀ x ∈ l, f x = g x := by
  have hsum : ∀ l' : List α, (l'.flatMap g).length ≤ (l'.flatMap f).length := by
    intro l'
    induction l' with
    | nil => exact Nat.le_refl _
    | cons x l' ih =>
      have hx := hle x
      rw [List.flatMap_cons, List.flatMap_cons, List.length_append, List.length_append]
      omega
  induction l with
  | nil => exact fun _ h => nomatch h
  | cons x l ih =>
    rw [List.flatMap_cons, List.flatMap_cons] at h
    have hlength := congrArg List.length h
    rw [List.length_append, List.length_append] at hlength
    have hx := hle x
    have hl := hsum l
    obtain ⟨hhead, htail⟩ := List.append_inj h (by omega)
    intro y hy
    rcases List.mem_cons.mp hy with rfl | hy
    · exact hhead
    · exact ih htail y hy

/-- What was undone is the reverse of what was done just where no skeleton gets in the way. -/
theorem undone_exactly_iff (before : List Level) (level : Level) :
    before.reverse.flatMap (Level.undone world) =
        (before.flatMap (Level.done world) ++ level.partly world).reverse ↔
      (∀ l ∈ before, l.undone world = (l.done world).reverse) ∧ level.partly world = [] := by
  rw [List.reverse_append, List.reverse_flatMap]
  constructor
  · intro h
    have hnone : level.partly world = [] := by
      cases level with
      | skeleton c priority =>
        simp only [Level.partly] at h ⊢
        split
        · next hsucceeds =>
          rw [if_pos hsucceeds] at h
          exact absurd h (undone_head _ c priority _)
        · rfl
      | _ => rfl
    refine ⟨?_, hnone⟩
    rw [hnone, List.reverse_nil, List.nil_append] at h
    intro l hl
    exact flatMap_eq_of_length done_length_le h l (List.mem_reverse.mpr hl)
  · rintro ⟨hall, hnone⟩
    rw [hnone, List.reverse_nil, List.nil_append]
    exact List.flatMap_congr fun l hl => hall l (List.mem_reverse.mp hl)

end Exact

section Leaves
variable {world : World}

/-- A level of a component tree lies in one leaf, after all levels of the leaves before. -/
theorem leaf_of_level {leaves : List Leaf} {before after : List Level} {level : Level}
    (h : leaves.flatMap levelsOf = before ++ level :: after) :
    ∃ first leaf last part part', leaves = first ++ leaf :: last ∧
      before = first.flatMap levelsOf ++ part ∧ levelsOf leaf = part ++ level :: part' := by
  induction leaves generalizing before with
  | nil => exact absurd h.symm (by simp)
  | cons leaf leaves ih =>
    rw [List.flatMap_cons] at h
    rcases List.append_eq_append_iff.mp h with ⟨part, hbefore, hrest⟩ | ⟨part, hleaf, hrest⟩
    · obtain ⟨first, leaf', last, part', part'', hsplit, hpart, hlevels⟩ := ih hrest
      refine ⟨leaf :: first, leaf', last, part', part'', ?_, ?_, hlevels⟩
      · rw [hsplit]
        rfl
      · rw [hbefore, hpart, List.flatMap_cons, List.append_assoc]
    · cases part with
      | nil =>
        have hnext : leaves.flatMap levelsOf = [] ++ level :: after := hrest.symm
        obtain ⟨first, leaf', last, part', part'', hsplit, hpart, hlevels⟩ := ih hnext
        refine ⟨leaf :: first, leaf', last, part', part'', ?_, ?_, hlevels⟩
        · rw [hsplit]
          rfl
        · rw [List.flatMap_cons, List.append_assoc, ← hpart, hleaf]
          simp
      | cons level' part =>
        rw [List.cons_append, List.cons.injEq] at hrest
        refine ⟨[], leaf, leaves, before, part, rfl, rfl, ?_⟩
        rw [hleaf, hrest.1]

theorem skeleton_mem_levelsOf {leaf : Leaf} {c : Path} {priority : String} :
    Level.skeleton c priority ∈ levelsOf leaf ↔
      leaf.kind = .proxyskel priority ∧ leaf.path = c := by
  obtain ⟨path, kind⟩ := leaf
  cases kind <;> simp [levelsOf, and_comm, eq_comm]

/-- The creations that the skeletons signal do not get in the way: none of those that were
constructed before was refused, and none was signalled by the one that fails. -/
def SkeletonsTold (world : World) (before : List Leaf) (failing : Leaf) : Prop :=
  (∀ leaf ∈ before, ∀ priority, leaf.kind = .proxyskel priority →
    world.succeeds (.signalComponentCreation leaf.path priority false) = true) ∧
  ∀ priority, failing.kind = .proxyskel priority →
    world.succeeds (.signalComponentCreation failing.path priority false) = false

theorem skeletonsTold_iff {first : List Leaf} {leaf : Leaf} {part part' : List Level}
    {level : Level} (h : levelsOf leaf = part ++ level :: part') :
    SkeletonsTold world first leaf ↔
      (∀ l ∈ first.flatMap levelsOf ++ part, l.undone world = (l.done world).reverse) ∧
        level.partly world = [] := by
  have hlevel : level ∈ levelsOf leaf := by
    rw [h]
    exact List.mem_append_right _ List.mem_cons_self
  constructor
  · rintro ⟨hfirst, hfailing⟩
    constructor
    · intro l hl
      refine (undone_eq_iff l).mpr ?_
      rintro c priority rfl
      rcases List.mem_append.mp hl with hl | hl
      · obtain ⟨leaf', hleaf', hmem⟩ := List.mem_flatMap.mp hl
        obtain ⟨hkind, rfl⟩ := skeleton_mem_levelsOf.mp hmem
        exact hfirst leaf' hleaf' priority hkind
      · -- a skeleton has one level only
        have hmem : Level.skeleton c priority ∈ levelsOf leaf := by
          rw [h]
          exact List.mem_append_left _ hl
        obtain ⟨hkind, hpath⟩ := skeleton_mem_levelsOf.mp hmem
        have hone : levelsOf leaf = [.skeleton leaf.path priority] := by
          unfold levelsOf
          rw [hkind]
        rw [hone] at h
        have hlength := congrArg List.length h
        rw [List.length_append] at hlength
        have hpos := List.length_pos_of_mem hl
        simp only [List.length_cons, List.length_nil] at hlength
        omega
    · refine (partly_eq_nil_iff level).mpr ?_
      rintro c priority rfl
      obtain ⟨hkind, rfl⟩ := skeleton_mem_levelsOf.mp hlevel
      exact hfailing priority hkind
  · rintro ⟨hbefore, hpartly⟩
    constructor
    · intro leaf' hleaf' priority hkind
      have hmem : Level.skeleton leaf'.path priority ∈ levelsOf leaf' :=
        skeleton_mem_levelsOf.mpr ⟨hkind, rfl⟩
      have hundone := hbefore _ (List.mem_append_left _ (List.mem_flatMap.mpr ⟨leaf', hleaf', hmem⟩))
      exact (undone_eq_iff _).mp hundone leaf'.path priority rfl
    · intro priority hkind
      have hone : levelsOf leaf = [.skeleton leaf.path priority] := by
        unfold levelsOf
        rw [hkind]
      rw [hone, List.mem_singleton] at hlevel
      exact (partly_eq_nil_iff level).mp hpartly leaf.path priority hlevel

end Leaves

/-- What was done since is undone, each effect once and in the reverse order, and nothing else. -/
def RolledBack (s s' : Instance) : Prop :=
  ∃ effects : List Effect,
    s'.trace = s.trace ++ effects.map .did ++ effects.reverse.map .undid

theorem did_undid_inj {a b c d : List Effect}
    (h : a.map Event.did ++ b.map Event.undid = c.map Event.did ++ d.map Event.undid) :
    a = c ∧ b = d := by
  induction a generalizing c with
  | nil =>
    cases c with
    | nil => exact ⟨rfl, List.map_injective_iff.mpr (fun _ _ h => Event.undid.inj h) h⟩
    | cons e c =>
      cases b with
      | nil => cases h
      | cons e' b => cases h
  | cons e a ih =>
    cases c with
    | nil =>
      cases d with
      | nil => cases h
      | cons e' d => cases h
    | cons e' c =>
      rw [List.map_cons, List.map_cons, List.cons_append, List.cons_append, List.cons.injEq] at h
      obtain ⟨hhead, htail⟩ := h
      obtain ⟨rfl, rfl⟩ := ih htail
      rw [Event.did.inj hhead]
      exact ⟨rfl, rfl⟩

/-- Both passes number the steps alike, and a construction that fails is rolled back, unless the
creation that a skeleton signals was refused or is left behind. -/
theorem construction_rolls_back {top : Top} (h : top.Named) :
    (∃ steps : List Level,
      constructPass top = numberUp (steps.map Level.statements) 0 ∧
      destroyPass top = (numberUp (steps.map Level.undos) 0).reverse) ∧
    ∀ (world : World) (s s' : Instance) (statement : Statement), levels top ≤ 32767 →
      Unconstructed s → construct top world s = (s', .failed statement) →
      ∃ before failing after, browseComponent false top = before ++ failing :: after ∧
        statement ∈ (constructLeaf failing).flatten ∧
        (RolledBack s s' ↔ SkeletonsTold world before failing) := by
  refine ⟨⟨allLevels top, constructPass_eq top, destroyPass_eq top⟩, ?_⟩
  intro world s s' statement hlevels hs hrun
  obtain ⟨before, level, after, hsplit, hmem, htrace, -, -⟩ := construct_failed h hlevels hs hrun
  obtain ⟨first, leaf, last, part, part', hleaves, rfl, hlevel⟩ := leaf_of_level hsplit
  refine ⟨first, leaf, last, hleaves, ?_, ?_⟩
  · rw [constructLeaf_eq, hlevel]
    refine List.mem_flatten.mpr ⟨level.statements, ?_, hmem⟩
    exact List.mem_map_of_mem (List.mem_append_right _ List.mem_cons_self)
  · rw [skeletonsTold_iff hlevel, ← undone_exactly_iff]
    unfold RolledBack
    constructor
    · rintro ⟨effects, heffects⟩
      rw [htrace, List.append_assoc, List.append_assoc, List.append_cancel_left_eq] at heffects
      obtain ⟨hdone, hundone⟩ := did_undid_inj heffects
      rw [hundone, ← hdone]
    · intro hundone
      exact ⟨_, by rw [htrace, hundone]⟩

/-- A component on the MPC that calls a primitive of the host, with the binding components that
are given. -/
def sampleTop (controllers : List Component) : Top where
  singleton := false
  subcomponents := [.raw "dsp" 2147483647 true .proxycomp,
    .raw "host" 2147483647 true (.primitive "1" true true true true)]
  controllercomponents := .raw "bc0" 2147483647 true (.event (some ["host"])) :: controllers

def sampleSkeleton : Component := .raw "p0" 2147483647 true (.proxyskel "1")

/-- Every call but one succeeds. -/
def allBut (statement : Statement) : World := ⟨fun _ => 1, fun st => st ≠ statement⟩

theorem sample_named : (sampleTop []).Named :=
  ⟨by decide, ⟨trivial, trivial, trivial⟩, ⟨trivial, trivial⟩⟩

theorem construction_rolls_back_sample : RolledBack create
    (construct (sampleTop []) (allBut (.construct ["host"] true)) create).1 := by
  obtain ⟨before, failing, after, hsplit, -, hiff⟩ := (construction_rolls_back sample_named).2
    (allBut (.construct ["host"] true)) create _ (.construct ["host"] true) (by decide)
    create_unconstructed rfl
  refine hiff.mpr ?_
  have hnone : ∀ leaf ∈ browseComponent false (sampleTop []), ∀ priority,
      leaf.kind ≠ .proxyskel priority := by
    intro leaf hleaf priority
    simp only [browseComponent, travelEach, travelComponent, sampleTop, if_true, List.flatten_cons,
      List.flatten_nil, List.cons_append, List.nil_append, List.mem_cons, List.not_mem_nil,
      or_false, Bool.false_eq_true, if_false] at hleaf
    rcases hleaf with rfl | rfl | rfl <;> exact fun h => by cases h
  rw [hsplit] at hnone
  exact ⟨fun leaf hleaf priority hkind =>
      absurd hkind (hnone leaf (List.mem_append_left _ hleaf) priority),
    fun priority hkind =>
      absurd hkind (hnone failing (List.mem_append_right _ List.mem_cons_self) priority)⟩

/-- The binding of the skeleton fails, and the creation that it has signalled stays. -/
theorem skeleton_creation_left :
    ∃ (top : Top) (world : World) (s' : Instance) (statement : Statement), top.Named ∧
      construct top world create = (s', .failed statement) ∧ ¬ RolledBack create s' := by
  refine ⟨sampleTop [sampleSkeleton], allBut (.bindComponent ["p0"] none), _,
    .bindComponent ["p0"] none, ?_, rfl, ?_⟩
  · exact ⟨by decide, ⟨trivial, trivial, trivial⟩, ⟨trivial, trivial, trivial⟩⟩
  · rintro ⟨effects, heffects⟩
    have htrace : (construct (sampleTop [sampleSkeleton]) (allBut (.bindComponent ["p0"] none))
        create).1.trace =
        [.instance ["dsp"], .mutex ["host"], .component ["host"] "1", .constructed ["host"],
          .mutex ["bc0"], .fifo ["bc0"], .skeleton ["p0"] "1"].map Event.did ++
        [.fifo ["bc0"], .mutex ["bc0"], .constructed ["host"], .component ["host"] "1",
          .mutex ["host"], .instance ["dsp"]].map Event.undid := by
      decide
    have hinj := did_undid_inj (htrace.symm.trans heffects)
    rw [← hinj.1] at hinj
    exact absurd hinj.2 (by decide)

end Codinalte.Composite
