import Codinalte.Composite.LifeCycle

/-! What a sequence of calls keeps, as long as each call is allowed. -/

namespace Codinalte.Composite
open Codinalte.Numbering Codinalte.Machine

section States
variable {top : Top} {s s' : Instance}

/-- Each component with a `start` and a `stop` is started or not as the composite is. -/
def Balanced (top : Top) (started : Bool) (trace : List Event) : Prop :=
  ∀ leaf ∈ browseComponent false top, leaf.kind.methods = true →
    running leaf.path (some false) trace = some started

structure Down (top : Top) (s : Instance) : Prop where
  unconstructed : Unconstructed s
  net : ∀ c, net c s.trace = 0
  balanced : Balanced top false s.trace

structure Up (top : Top) (s : Instance) : Prop where
  levelOfConstruction : s.levelOfConstruction = (levels top + 1 : Nat)
  constructedNumber : 0 < s.constructedNumber ∧ s.constructedNumber ≤ 127
  startNumber : 0 ≤ s.startNumber ∧ s.startNumber ≤ 127
  kept : ∃ world, ∀ l ∈ allLevels top, l.Kept world s
  fifo : ∀ c ∉ events (allLevels top), s.fifo c = none
  net : ∀ c, net c s.trace = ((allLevels top).map (Level.share c)).sum
  balanced : Balanced top (decide (0 < s.startNumber)) s.trace

def Inv (top : Top) (s : Instance) : Prop := Down top s ∨ Up top s

theorem create_down (top : Top) : Down top create :=
  ⟨create_unconstructed, fun _ => rfl, fun _ _ _ => rfl⟩

theorem Down.constructedNumber (h : Down top s) : s.constructedNumber = 0 :=
  h.unconstructed.constructedNumber

theorem Inv.up (h : Inv top s) (hne : s.constructedNumber ≠ 0) : Up top s :=
  h.resolve_left fun hdown => hne hdown.constructedNumber

theorem Inv.down (h : Inv top s) (hzero : s.constructedNumber = 0) : Down top s := by
  refine h.resolve_right fun hup => ?_
  have hpos := hup.constructedNumber.1
  omega

theorem sint8_of_range {x : Int} (h : 0 ≤ x ∧ x ≤ 127) : sint8 x = x := by
  unfold sint8
  rw [Int.bmod_def]
  omega

/-- The numbers may change while the rest stays. -/
theorem Up.numbers (h : Up top s) {n m : Int} (hn : 0 < n ∧ n ≤ 127) (hm : 0 ≤ m ∧ m ≤ 127)
    {trace : List Event} (hnet : ∀ c, Composite.net c trace = Composite.net c s.trace)
    (hbalanced : Balanced top (decide (0 < m)) trace) :
    Up top { s with constructedNumber := n, startNumber := m, trace := trace } where
  levelOfConstruction := h.levelOfConstruction
  constructedNumber := hn
  startNumber := hm
  kept := by
    obtain ⟨world, hkept⟩ := h.kept
    exact ⟨world, fun l hl => (hkept l hl).transfer (fun _ _ => rfl) (fun _ h => h)⟩
  fifo := h.fifo
  net := fun c => (hnet c).trans (h.net c)
  balanced := hbalanced

end States

section Construct
variable {top : Top} {world : World} {s : Instance}

theorem construct_up (h : Up top s) : construct top world s =
    ({ s with constructedNumber := sint8 (s.constructedNumber + 1) },
      if top.singleton then .ok else .invalidComponentStateTransition) := by
  unfold construct
  rw [if_pos h.constructedNumber.1]

theorem net_cycle (world : World) (before : List Level) (level : Level) (c : Path) :
    net c ((before.flatMap (Level.done world) ++ level.partly world).map .did) +
      net c ((before.reverse.flatMap (Level.undone world)).map .undid) = 0 := by
  rw [net_did, net_undid, List.count_append, partly_share, count_flatMap_share done_share,
    count_flatMap_share undone_share, sum_share_reverse]
  omega

/-- A construction that fails leaves the instance as it was. -/
theorem construct_down_failed (h : top.Named) (hlevels : levels top ≤ 32767) (hs : Down top s)
    {s' : Instance} {statement : Statement}
    (hrun : construct top world s = (s', .failed statement)) :
    Down top s' ∧ SameState s s' := by
  obtain ⟨before, level, after, -, -, htrace, hunconstructed, -⟩ :=
    construct_failed h hlevels hs.unconstructed hrun
  have hnet : ∀ c, net c s'.trace = net c s.trace := by
    intro c
    have hcycle := net_cycle world before level c
    rw [htrace, net_append, net_append]
    omega
  refine ⟨⟨hunconstructed, fun c => (hnet c).trans (hs.net c), ?_⟩, ?_, ?_, ?_, hnet⟩
  · intro leaf hleaf hmethods
    rw [htrace, running_append, running_append, running_did, running_undid]
    exact hs.balanced leaf hleaf hmethods
  · exact hunconstructed.constructedNumber.trans hs.unconstructed.constructedNumber.symm
  · exact hunconstructed.startNumber.trans hs.unconstructed.startNumber.symm
  · exact hunconstructed.levelOfConstruction.trans hs.unconstructed.levelOfConstruction.symm

/-- What a construction that succeeds leaves. -/
theorem built_up (h : top.Named) (hs : Down top s) {s₁ : Instance}
    (hall : Completes world { s with constructedNumber := 1 } (allLevels top) s₁) :
    Up top { s₁.record (.did .registered) with
      levelOfConstruction := (levels top + 1 : Nat) } := by
  have hbuilt := hall.built hs.unconstructed.fifo (events_nodup h)
  have hnumber : s₁.constructedNumber = 1 := hbuilt.constructedNumber
  have hstart : s₁.startNumber = 0 := hbuilt.startNumber.trans hs.unconstructed.startNumber
  have htrace : (s₁.record (.did .registered)).trace =
      s.trace ++ ((allLevels top).flatMap (Level.done world) ++ [Effect.registered]).map .did := by
    unfold Instance.record
    rw [hbuilt.trace, List.map_append, List.append_assoc]
    rfl
  refine ⟨rfl, ?_, ?_, ?_, ?_, ?_, ?_⟩
  · simp only [Instance.record, hnumber]
    decide
  · simp only [Instance.record, hstart]
    decide
  · exact ⟨world, fun l hl => (hbuilt.kept l hl).transfer (fun _ _ => rfl) (fun _ h => h)⟩
  · exact fun c hc => (hbuilt.fifo c hc).trans (hs.unconstructed.fifo c)
  · intro c
    have hregistered : [Effect.registered].count (.constructed c) = 0 := rfl
    dsimp only
    rw [htrace, net_append, hs.net c, net_did, List.count_append, hregistered,
      count_flatMap_share done_share]
    omega
  · intro leaf hleaf hmethods
    have hstopped : decide (0 < (s₁.record (.did .registered)).startNumber) = false := by
      simp [Instance.record, hstart]
    dsimp only
    rw [hstopped, htrace, running_append, running_did]
    exact hs.balanced leaf hleaf hmethods

theorem construct_down (h : top.Named) (hlevels : levels top < 32767) (hs : Down top s) :
    (Down top (construct top world s).1 ∧ SameState s (construct top world s).1) ∨
      (Up top (construct top world s).1 ∧ (construct top world s).2 = .ok) := by
  have hbegin : Completes world { s with constructedNumber := 1 } []
      { s with constructedNumber := 1 } := .nil
  have hcases := construct_cases (allLevels top) hbegin
  rw [List.length_nil, ← constructPass_eq] at hcases
  have hconstruct := construct_unconstructed top world hs.unconstructed
  have hlevel : sint16 (levels top + 1 : Nat) = (levels top + 1 : Nat) := sint16_of_le hlevels
  rcases hcases with ⟨s₁, hall, hexec⟩ | ⟨before, level, after, s₁, s₂, st, -, -, -, hexec⟩
  · simp only [hexec, hlevel] at hconstruct
    rw [hconstruct]
    exact .inr ⟨built_up h hs hall, rfl⟩
  · simp only [hexec] at hconstruct
    rw [hconstruct]
    exact .inl (construct_down_failed h (Nat.le_of_lt hlevels) hs hconstruct)

end Construct

section Destroy
variable {top : Top} {s : Instance}

theorem destroy_shared (h : Up top s) (hone : s.constructedNumber > 1) : destroy top s =
    ({ s with constructedNumber := s.constructedNumber - 1 }, .ok) := by
  have hnumber := h.constructedNumber
  have hsint : sint8 (s.constructedNumber - 1) = s.constructedNumber - 1 :=
    sint8_of_range ⟨by omega, by omega⟩
  have hpos : s.constructedNumber - 1 > 0 := by omega
  unfold destroy
  simp only [hsint, if_pos hpos]

theorem destroy_up (h : Up top s) (hone : s.constructedNumber = 1) (hstart : s.startNumber = 0) :
    destroy top s = ({ (allLevels top).reverse.foldl undoLevel
      ({ s with constructedNumber := 0 }.record (.undid .registered)) with
        levelOfConstruction := 0 }, .ok) := by
  have hnumber : ¬ (0 : Int) > 0 := Int.lt_irrefl 0
  have hlevel := h.levelOfConstruction
  have hstarted : ¬ s.startNumber > 0 := by omega
  have hzero : ¬ s.levelOfConstruction = 0 := by omega
  have hregistered : s.levelOfConstruction ≥ (levels top + 1 : Nat) := by omega
  have hexec : execDestroy (destroyPass top)
      ({ s with constructedNumber := 0 }.record (.undid .registered)) =
        ((allLevels top).take (levels top + 1)).reverse.foldl undoLevel
          ({ s with constructedNumber := 0 }.record (.undid .registered)) :=
    execDestroy_eq top hlevel
  have htake : (allLevels top).take (levels top + 1) = allLevels top := by
    rw [levels_eq]
    exact List.take_of_length_le (Nat.le_succ _)
  rw [htake] at hexec
  unfold destroy
  simp only [hone, sint8_zero, if_neg hnumber, if_neg hstarted, if_neg hzero, if_pos hregistered]
  rw [← hexec]

/-- The last `destroy` of a composite that is not started. -/
theorem destroy_last (htop : top.Named) (h : Up top s) (hone : s.constructedNumber = 1)
    (hstart : s.startNumber = 0) : Down top (destroy top s).1 ∧ (destroy top s).2 = .ok := by
  have hevents := events_nodup htop
  obtain ⟨world, hkept⟩ := h.kept
  have hkept' : ∀ l ∈ allLevels top,
      l.Kept world ({ s with constructedNumber := 0 }.record (.undid .registered)) :=
    fun l hl => (hkept l hl).transfer (fun _ _ => rfl) (fun _ h => h)
  obtain ⟨gone, hundid, hgone⟩ := undoLevels_undid hevents hkept'
  have htrace := hundid.trace
  have hbefore : ({ s with constructedNumber := 0 }.record (.undid .registered)).trace =
      s.trace ++ [Effect.registered].map .undid := rfl
  rw [hbefore, List.append_assoc, ← List.map_append] at htrace
  rw [destroy_up h hone hstart]
  refine ⟨⟨⟨rfl, ?_, ?_, ?_⟩, ?_, ?_⟩, rfl⟩
  · exact hundid.alike.startNumber.trans hstart
  · exact hundid.alike.constructedNumber
  · intro c
    by_cases hc : c ∈ gone
    · exact hundid.emptied c hc
    · exact (hundid.fifo c hc).trans (h.fifo c fun hmem => hc ((hgone c).mpr hmem))
  · intro c
    have hregistered : [Effect.registered].count (.constructed c) = 0 := rfl
    dsimp only
    rw [htrace, net_append, h.net c, net_undid, List.count_append, hregistered,
      count_flatMap_share undone_share, sum_share_reverse]
    omega
  · intro leaf hleaf hmethods
    have hbalanced := h.balanced leaf hleaf hmethods
    rw [hstart] at hbalanced
    dsimp only
    rw [htrace, running_append, running_undid]
    exact hbalanced

end Destroy

section StartStop
variable {top : Top} {s : Instance}

theorem sint8_succ {x : Int} (h : 0 ≤ x ∧ x < 127) : sint8 (x + 1) = x + 1 :=
  sint8_of_range ⟨by omega, by omega⟩

theorem net_events {f : Leaf → Option Event} (c : Path) (leaves : List Leaf)
    (hf : ∀ leaf e, f leaf = some e → e = .started leaf.path ∨ e = .stopped leaf.path) :
    net c (leaves.filterMap f) = 0 := by
  have hno : ∀ e : Event, (∀ d, e ≠ .started d) → (∀ d, e ≠ .stopped d) →
      (leaves.filterMap f).count e = 0 := by
    intro e hstarted hstopped
    refine List.count_eq_zero.mpr fun hmem => ?_
    obtain ⟨leaf, -, hleaf⟩ := List.mem_filterMap.mp hmem
    rcases hf leaf e hleaf with h | h
    · exact hstarted _ h
    · exact hstopped _ h
  unfold net
  rw [hno (.did (.constructed c)) (fun _ h => nomatch h) (fun _ h => nomatch h), hno
    (.undid (.constructed c)) (fun _ h => nomatch h) (fun _ h => nomatch h)]
  rfl

theorem startEvent_either : ∀ leaf e, startEvent leaf = some e →
    e = .started leaf.path ∨ e = .stopped leaf.path := fun _ _ h => .inl (startEvent_path h)

theorem stopEvent_either : ∀ leaf e, stopEvent leaf = some e →
    e = .started leaf.path ∨ e = .stopped leaf.path := fun _ _ h => .inr (stopEvent_path h)

/-- A `start` that is counted, or that starts everything. -/
theorem start_up (htop : top.Named) (h : Up top s) (hlt : s.startNumber < 127) :
    Up top (start top s) ∧ (start top s).constructedNumber = s.constructedNumber ∧
      (start top s).nmfState = s.nmfState := by
  have hconstructed : ¬ s.constructedNumber = 0 := by
    have hpos := h.constructedNumber.1
    omega
  have hnumber := h.startNumber
  have hsint := sint8_succ ⟨hnumber.1, hlt⟩
  have hrange : 0 ≤ s.startNumber + 1 ∧ s.startNumber + 1 ≤ 127 := ⟨by omega, by omega⟩
  unfold start
  simp only [if_neg hconstructed, hsint]
  by_cases hstarted : s.startNumber > 0
  · rw [if_pos hstarted]
    refine ⟨h.numbers h.constructedNumber hrange (fun _ => rfl) ?_, rfl, rfl⟩
    have hboth : decide (0 < s.startNumber + 1) = decide (0 < s.startNumber) := by
      rw [decide_eq_true hstarted]
      exact decide_eq_true (by omega)
    rw [hboth]
    exact h.balanced
  · rw [if_neg hstarted, start_pass]
    refine ⟨h.numbers h.constructedNumber hrange ?_ ?_, rfl, rfl⟩
    · intro c
      rw [net_append, net_events c _ startEvent_either]
      exact Int.add_zero _
    · intro leaf hleaf hmethods
      have hbefore := h.balanced leaf hleaf hmethods
      have hstopped : decide (0 < s.startNumber) = false := decide_eq_false hstarted
      have hnow : decide (0 < s.startNumber + 1) = true := decide_eq_true (by omega)
      rw [hstopped] at hbefore
      rw [running_append, hbefore, hnow, running_pass startEvent startEvent_either
        (browse_paths htop) hleaf (methods_events hmethods).1]
      simp [running]

theorem stop_up (htop : top.Named) (h : Up top s) (hpos : s.startNumber > 0) :
    Up top (stop top s) ∧ (stop top s).constructedNumber = s.constructedNumber ∧
      (stop top s).startNumber = s.startNumber - 1 := by
  have hconstructed : ¬ s.constructedNumber = 0 := by
    have hpos := h.constructedNumber.1
    omega
  have hnumber := h.startNumber
  have hrange : 0 ≤ s.startNumber - 1 ∧ s.startNumber - 1 ≤ 127 := ⟨by omega, by omega⟩
  have hsint := sint8_of_range hrange
  unfold stop
  simp only [if_neg hconstructed, hsint]
  by_cases hstarted : s.startNumber - 1 > 0
  · rw [if_pos hstarted]
    refine ⟨h.numbers h.constructedNumber hrange (fun _ => rfl) ?_, rfl, rfl⟩
    have hboth : decide (0 < s.startNumber - 1) = decide (0 < s.startNumber) := by
      rw [decide_eq_true hpos]
      exact decide_eq_true hstarted
    rw [hboth]
    exact h.balanced
  · rw [if_neg hstarted, stop_pass]
    refine ⟨h.numbers h.constructedNumber hrange ?_ ?_, rfl, rfl⟩
    · intro c
      rw [net_append, net_events c _ stopEvent_either]
      exact Int.add_zero _
    · intro leaf hleaf hmethods
      have hbefore := h.balanced leaf hleaf hmethods
      have hrunning : decide (0 < s.startNumber) = true := decide_eq_true hpos
      have hnow : decide (0 < s.startNumber - 1) = false := decide_eq_false hstarted
      have hpaths : ((browseComponent true top).map Leaf.path).Nodup := by
        rw [browseComponent_reverse, List.map_reverse]
        exact List.nodup_reverse.mpr (browse_paths htop)
      have hmem : leaf ∈ browseComponent true top := by
        rw [browseComponent_reverse]
        exact List.mem_reverse.mpr hleaf
      rw [hrunning] at hbefore
      rw [running_append, hbefore, hnow, running_pass stopEvent stopEvent_either hpaths hmem
        (methods_events hmethods).2]
      simp [running]

end StartStop

section Steps
variable {top : Top} {s : Instance}

theorem flush_pass (leaves : List Leaf) (s : Instance) :
    ∃ nmfState, leaves.foldl stopFlushLeaf s = { s with nmfState := nmfState } := by
  induction leaves generalizing s with
  | nil => exact ⟨s.nmfState, rfl⟩
  | cons leaf leaves ih =>
    have hleaf : ∃ nmfState, stopFlushLeaf s leaf = { s with nmfState := nmfState } := by
      obtain ⟨path, kind⟩ := leaf
      cases kind <;> exact ⟨_, rfl⟩
    obtain ⟨first, hfirst⟩ := hleaf
    obtain ⟨rest, hrest⟩ := ih (stopFlushLeaf s leaf)
    refine ⟨rest, ?_⟩
    rw [List.foldl_cons, hrest, hfirst]

theorem Up.flush (h : Up top s) (nmfState : Path → NmfState) :
    Up top { s with nmfState := nmfState } where
  levelOfConstruction := h.levelOfConstruction
  constructedNumber := h.constructedNumber
  startNumber := h.startNumber
  kept := by
    obtain ⟨world, hkept⟩ := h.kept
    exact ⟨world, fun l hl => (hkept l hl).transfer (fun _ _ => rfl) (fun _ h => h)⟩
  fifo := h.fifo
  net := h.net
  balanced := h.balanced

theorem Down.flush (h : Down top s) (nmfState : Path → NmfState) :
    Down top { s with nmfState := nmfState } where
  unconstructed := ⟨h.unconstructed.levelOfConstruction, h.unconstructed.startNumber,
    h.unconstructed.constructedNumber, h.unconstructed.fifo⟩
  net := h.net
  balanced := h.balanced

theorem Inv.flush (h : Inv top s) : Inv top ((browseComponent true top).foldl stopFlushLeaf s) := by
  obtain ⟨nmfState, hflush⟩ := flush_pass (browseComponent true top) s
  rw [hflush]
  exact h.imp (fun h => h.flush nmfState) (fun h => h.flush nmfState)

theorem Up.destroyed (htop : top.Named) (h : Up top s)
    (hallowed : s.constructedNumber > 1 ∨ (s.constructedNumber = 1 ∧ s.startNumber = 0)) :
    Inv top (destroy top s).1 ∧ (destroy top s).2 = .ok ∧
      (s.constructedNumber > 1 → Up top (destroy top s).1 ∧
        (destroy top s).1.constructedNumber = s.constructedNumber - 1 ∧
        (destroy top s).1.startNumber = s.startNumber) := by
  have hnumber := h.constructedNumber
  rcases hallowed with hone | ⟨hone, hstart⟩
  · rw [destroy_shared h hone]
    have hrange : 0 < s.constructedNumber - 1 ∧ s.constructedNumber - 1 ≤ 127 :=
      ⟨by omega, by omega⟩
    have hup : Up top { s with constructedNumber := s.constructedNumber - 1 } :=
      h.numbers hrange h.startNumber (fun _ => rfl) h.balanced
    exact ⟨.inr hup, rfl, fun _ => ⟨hup, rfl, rfl⟩⟩
  · obtain ⟨hdown, hok⟩ := destroy_last htop h hone hstart
    exact ⟨.inl hdown, hok, fun hmore => absurd hmore (by omega)⟩

theorem Down.start (h : Down top s) : start top s = s := if_pos h.constructedNumber

theorem Down.stop (h : Down top s) : stop top s = s := if_pos h.constructedNumber

theorem inv_stop (htop : top.Named) (h : Inv top s)
    (hallowed : s.constructedNumber = 0 ∨ s.startNumber > 0) : Inv top (stop top s) := by
  rcases h with hdown | hup
  · rw [hdown.stop]
    exact .inl hdown
  · have hpos := hup.constructedNumber.1
    exact .inr (stop_up htop hup (hallowed.resolve_left (by omega))).1

/-- What an allowed call keeps. -/
theorem inv_step (htop : top.Named) (hlevels : levels top < 32767) (h : Inv top s) (call : Call)
    (hallowed : Allowed top s call) : Inv top (perform top s call).1 := by
  cases call with
  | construct world =>
    rcases h with hdown | hup
    · rcases construct_down htop hlevels hdown with ⟨hd, -⟩ | ⟨hu, -⟩
      · exact .inl hd
      · exact .inr hu
    · have hpos := hup.constructedNumber
      have hlt := (hallowed.resolve_left (by omega)).2
      have hsint := sint8_succ ⟨Int.le_of_lt hpos.1, hlt⟩
      have hrange : 0 < s.constructedNumber + 1 ∧ s.constructedNumber + 1 ≤ 127 :=
        ⟨by omega, by omega⟩
      simp only [perform, construct_up hup, hsint]
      exact .inr (hup.numbers hrange hup.startNumber (fun _ => rfl) hup.balanced)
  | start =>
    rcases h with hdown | hup
    · simp only [perform, hdown.start]
      exact .inl hdown
    · have hpos := hup.constructedNumber.1
      exact .inr (start_up htop hup (hallowed.resolve_left (by omega)).1).1
  | stop => exact inv_stop htop h hallowed
  | stop_flush => exact (inv_stop htop h hallowed).flush
  | destroy =>
    have hpos : s.constructedNumber ≠ 0 := by
      rcases hallowed with hone | ⟨hone, -⟩ <;> omega
    exact ((h.up hpos).destroyed htop hallowed).1

theorem release_steps (htop : top.Named) (n : Nat) (h : Up top s)
    (hn : s.constructedNumber + s.startNumber = n) : Releasable top s := by
  induction n generalizing s with
  | zero =>
    have hnumber := h.constructedNumber
    have hstart := h.startNumber
    omega
  | succ n ih =>
    have hnumber := h.constructedNumber
    have hstart := h.startNumber
    by_cases hpos : s.startNumber > 0
    · obtain ⟨hup, hconstructed, hstopped⟩ := stop_up htop h hpos
      obtain ⟨calls, hcalls, t, hrun, hdone⟩ := ih hup (by omega)
      refine ⟨.stop :: calls, ?_, t, hrun, hdone⟩
      intro call hcall
      rcases List.mem_cons.mp hcall with rfl | hcall
      · exact .inl rfl
      · exact hcalls call hcall
    · by_cases hmore : s.constructedNumber > 1
      · obtain ⟨-, -, hshared⟩ := h.destroyed htop (.inl hmore)
        obtain ⟨hup, hconstructed, hstopped⟩ := hshared hmore
        obtain ⟨calls, hcalls, t, hrun, hdone⟩ := ih hup (by omega)
        refine ⟨.destroy :: calls, ?_, t, hrun, hdone⟩
        intro call hcall
        rcases List.mem_cons.mp hcall with rfl | hcall
        · exact .inr rfl
        · exact hcalls call hcall
      · obtain ⟨hdown, -⟩ := destroy_last htop h (by omega) (by omega)
        refine ⟨[.destroy], ?_, _, rfl, hdown.unconstructed.levelOfConstruction, hdown.net⟩
        intro call hcall
        exact .inr (List.mem_singleton.mp hcall)

theorem Up.releasable (htop : top.Named) (h : Up top s) : Releasable top s := by
  have hnumber := h.constructedNumber
  have hstart := h.startNumber
  exact release_steps htop (s.constructedNumber + s.startNumber).toNat h (by omega)

theorem Inv.balanced (h : Inv top s) : ∃ started, Balanced top started s.trace := by
  rcases h with hdown | hup
  · exact ⟨_, hdown.balanced⟩
  · exact ⟨_, hup.balanced⟩

theorem inv_proper (htop : top.Named) (hlevels : levels top < 32767) (h : Inv top s) (call : Call)
    (hallowed : Allowed top s call) : Proper top s call where
  error := by
    intro e he hne
    cases call with
    | construct world =>
      rcases h with hdown | hup
      · rcases construct_down htop hlevels hdown with ⟨-, hsame⟩ | ⟨-, hok⟩
        · exact hsame
        · cases he
          exact absurd hok hne
      · have hpos := hup.constructedNumber
        have hsingleton := (hallowed.resolve_left (by omega)).1
        simp only [perform, construct_up hup, hsingleton, if_true, Option.some.injEq] at he
        exact absurd he.symm hne
    | destroy =>
      have hpos : s.constructedNumber ≠ 0 := by
        rcases hallowed with hone | ⟨hone, -⟩ <;> omega
      have hok := ((h.up hpos).destroyed htop hallowed).2.1
      cases he
      exact absurd hok hne
    | _ => cases he
  alternate := by
    intro leaf hleaf hmethods
    obtain ⟨started, hbalanced⟩ := (inv_step htop hlevels h call hallowed).balanced
    rw [hbalanced leaf hleaf hmethods]
    rfl
  standing := by
    rintro rfl hstart
    have hmore : s.constructedNumber > 1 := by
      rcases hallowed with hone | ⟨hone, hzero⟩ <;> omega
    have hup := h.up (by omega)
    simp only [perform, destroy_shared hup hmore]
  releasable := by
    intro hlevel
    refine Up.releasable htop ((inv_step htop hlevels h call hallowed).resolve_left fun hdown => ?_)
    exact hlevel hdown.unconstructed.levelOfConstruction
  delivered := by
    rintro rfl hconstructed leaf hleaf hprimitive
    have hup := h.up hconstructed
    obtain ⟨hlt, hdefault⟩ := hallowed.resolve_left hconstructed
    have hstate := (start_up htop hup hlt).2.2
    have hleafstate : (start top s).nmfState leaf.path = .default := by
      rw [hstate]
      exact hdefault leaf hleaf hprimitive
    simp only [perform, posted, reacted, hleafstate]
    decide

end Steps

def allSucceed : World := ⟨fun _ => 1, fun _ => true⟩

end Codinalte.Composite
