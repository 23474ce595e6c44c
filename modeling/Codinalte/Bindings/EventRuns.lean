import Codinalte.Bindings.EventInvariant
import Codinalte.Lib.Machine

/-! Runs of the event binding components. The calls keep the invariant; an accepted fifo has all its
events, in every run, just where its size fits in the parameter of `createFifo`. -/

set_option linter.unusedSectionVars false

namespace Codinalte.Bindings.Evl
open Codinalte.Machine Codinalte.Places
open Cbl (NmfError)
open HostEE (popMatching pop_matching_cases)

section Calls
variable {K M T : Type} [DecidableEq K] [DecidableEq M] [DecidableEq T]
variable {binds : K → Bind M} {s t : Fifos K M T} {k : K} {pc : BindPc}

theorem binder_ok_of {count allocated fifosize : Nat} {hasTop : Bool}
    (h : BindOk (toUint8 (binds k).size) pc count allocated fifosize hasTop)
    (hbinder : t.binder k = pc) (hcount : t.count k = count) (hallocated : t.allocated k = allocated)
    (hfifosize : t.fifosize k = fifosize) (htop : (t.top k).isSome = hasTop) : t.BinderOk binds k := by
  unfold Fifos.BinderOk
  rw [hbinder, hcount, hallocated, hfifosize, htop]
  exact h

theorem creating_of (hcreating : (s.binder k).creating = false → pc.creating = false)
    (h : pc.creating = true) : (s.binder k).creating = true := by
  by_contra hnot
  rw [hcreating (Bool.not_eq_true _ ▸ hnot)] at h
  cases h

theorem bind_goto_inv (hinv : EvlInv binds s)
    (hbind : BindOk (toUint8 (binds k).size) pc (s.count k) (s.allocated k) (s.fifosize k)
      (s.top k).isSome)
    (hcreating : (s.binder k).creating = false → pc.creating = false) :
    EvlInv binds (s.bindGoto k pc) := by
  have hpc : (s.bindGoto k pc).binder k = pc := Function.update_self ..
  refine hinv.call k ?_ (binder_ok_of hbind hpc rfl rfl rfl rfl) (fun _ _ => rfl) (fun _ _ => rfl) ?_
    (fun _ _ => rfl) (fun _ _ => rfl) rfl (fun e he _ => he) ?_ ?_
  · exact hinv.events.moved rfl rfl rfl hinv.events.kept hinv.events.own hinv.events.queued
  · exact fun j hj => Function.update_of_ne hj _ _
  · rw [hpc]
    exact fun h e he hthis => hinv.hidden k (creating_of hcreating h) e he hthis
  · rw [hpc]
    exact hcreating

theorem bind_goto_stay (hpc : s.binder k = pc) : s.bindGoto k pc = s := by
  unfold Fifos.bindGoto
  rw [← hpc, Function.update_eq_self]

/-- The events of a component that are not freed, where there are none. -/
theorem count_zero (h : s.count k = 0) {e : Event K M} (he : e ∈ s.live) : e.this ≠ k :=
  fun hthis => List.countP_eq_zero.mp h e he (beq_iff_eq.mpr hthis)

theorem EvlInv.no_events (hinv : EvlInv binds s) (htop : (s.binder k).hasTop = false) :
    ∀ e ∈ s.live, e.this ≠ k := by
  have hok := hinv.binders k
  exact fun e he => count_zero (hok.counted.trans (hok.empty htop)) he

/-- `TOP` of a component is set where nothing is in it. -/
theorem set_top_inv (hinv : EvlInv binds s) (top : Option (List (Event K M)))
    (hempty : (s.top k).getD [] = []) (hset : top.getD [] = []) (hzero : s.fifosize k = 0)
    (htops : top.isSome = pc.hasTop) (hmakes : pc.Makes (toUint8 (binds k).size) (s.allocated k) 0)
    (hcreating : (s.binder k).creating = false → pc.creating = false) :
    EvlInv binds ({ s with
      top := Function.update s.top k top
      fifosize := Function.update s.fifosize k 0 }.bindGoto k pc) := by
  have hcount : s.count k = 0 := (hinv.binders k).counted.trans hzero
  have hsame : (fun j => (Function.update s.top k top j).getD []) = fun j => (s.top j).getD [] := by
    funext j
    by_cases hj : j = k
    · subst hj
      rw [Function.update_self, hset, hempty]
    · rw [Function.update_of_ne hj]
  have hcontents : { s with top := Function.update s.top k top }.contents = s.contents :=
    congrArg (fun own => spread own s.queue fun x => (s.thread x).hands) hsame
  refine hinv.call k ?_ ?_ (fun _ _ => rfl) (fun _ _ => rfl) ?_ ?_ ?_ rfl (fun e he _ => he) ?_ ?_
  · refine hinv.events.moved rfl rfl rfl ?_ ?_ hinv.events.queued
    · change Kept { s with top := Function.update s.top k top }.contents s.live
      rw [hcontents]
      exact hinv.events.kept
    · intro j events hj e he
      have hmem : e ∈ (s.top j).getD [] := by
        rw [← congrFun hsame j]
        change Function.update s.top k top j = some events at hj
        rw [hj]
        exact he
      cases htop : s.top j with
      | none =>
        rw [htop] at hmem
        exact absurd hmem List.not_mem_nil
      | some l =>
        rw [htop] at hmem
        exact hinv.events.own j l htop e hmem
  · have hbind : BindOk (toUint8 (binds k).size) pc 0 (s.allocated k) 0 top.isSome :=
      ⟨rfl, htops, fun _ => rfl, hmakes⟩
    exact binder_ok_of hbind (Function.update_self ..) hcount rfl (Function.update_self ..)
      (congrArg Option.isSome (Function.update_self ..))
  · exact fun j hj => Function.update_of_ne hj _ _
  · exact fun j hj => Function.update_of_ne hj _ _
  · exact fun j hj => Function.update_of_ne hj _ _
  · exact fun _ e he hthis => absurd hthis (count_zero hcount he)
  · intro h
    change (Function.update s.binder k pc k).creating = false
    rw [Function.update_self]
    exact hcreating h

theorem allocate_inv {size : Nat} {events : List (Event K M)} (hinv : EvlInv binds s)
    (hpc : s.binder k = .allocate size) (hless : s.fifosize k < size) (htop : s.top k = some events) :
    EvlInv binds (s.allocateEvent (binds k) k events) := by
  have hok := hinv.binders k
  have hmakes := hok.makes
  rw [hpc] at hmakes
  have hnew : (⟨s.made.length, k, (binds k).targetTHIS, (binds k).priority, (binds k).subpriority⟩ :
      Event K M) ∉ s.made := fun hmem => Nat.lt_irrefl _ (hinv.events.numbered _ hmem)
  have hkept := hinv.events.kept.put (p := .own k) fun hlive =>
    hnew (hinv.events.accounted.made_of_live hlive)
  rw [top_contents htop, ← contents_set_top] at hkept
  -- `fifosize`, the events made and those not freed go up together
  have htally : ∀ (l : List (Event K M)) (e : Event K M) (j : K),
      (l ++ [e]).countP (fun a => a.this == j) =
        l.countP (fun a => a.this == j) + if (e.this == j) = true then 1 else 0 := by
    intro l e j
    rw [List.countP_append, List.countP_singleton]
  have hothers : ∀ j, j ≠ k → ¬ (k == j) = true := fun j hj heq => hj (beq_iff_eq.mp heq).symm
  refine hinv.call k ?_ ?_ ?_ ?_ (fun _ _ => rfl) ?_ ?_ rfl ?_ ?_ (fun h => h)
  · refine ⟨hkept, hinv.events.accounted.make hnew, ?_, hinv.events.freedOwn, ?_, hinv.events.queued,
      ?_⟩
    · intro e he
      change e.id < (s.made ++ [_]).length
      rw [List.length_append, List.length_singleton]
      rcases List.mem_append.mp he with he | he
      · exact Nat.lt_succ_of_lt (hinv.events.numbered e he)
      · rw [List.mem_singleton.mp he]
        exact Nat.lt_succ_self _
    · refine forall_mem_update_some hinv.events.own fun e he => ?_
      rcases List.mem_append.mp he with he | he
      · exact hinv.events.own k events htop e he
      · rw [List.mem_singleton.mp he]
    · intro e he
      rcases List.mem_append.mp he with he | he
      · exact hinv.events.bound e he
      · rw [List.mem_singleton.mp he]
  · have hbind : BindOk (toUint8 (binds k).size) (.allocate size) (s.fifosize k + 1) (s.fifosize k + 1)
        (s.fifosize k + 1) true := ⟨rfl, rfl, (fun h => nomatch h), hmakes.1, rfl, hless⟩
    refine binder_ok_of hbind hpc ?_ ?_ (Function.update_self ..) ?_
    · refine (htally _ _ k).trans ?_
      rw [if_pos (beq_self_eq_true k)]
      exact congrArg (· + 1) hok.counted
    · refine (htally _ _ k).trans ?_
      rw [if_pos (beq_self_eq_true k)]
      exact congrArg (· + 1) hmakes.2.1
    · exact isSome_update_self _
  · intro j hj
    refine (htally _ _ j).trans ?_
    rw [if_neg (hothers j hj)]
    rfl
  · intro j hj
    refine (htally _ _ j).trans ?_
    rw [if_neg (hothers j hj)]
    rfl
  · exact fun j hj => Function.update_of_ne hj _ _
  · exact fun j hj => Function.update_of_ne hj _ _
  · intro e he hne
    rcases List.mem_append.mp he with he | he
    · exact he
    · rw [List.mem_singleton.mp he] at hne
      exact absurd rfl hne
  · intro hcreating e he hthis
    have hmem : e ∈ events ++
        [⟨s.made.length, k, (binds k).targetTHIS, (binds k).priority, (binds k).subpriority⟩] := by
      rcases List.mem_append.mp he with he | he
      · have hbefore := hinv.hidden k hcreating e he hthis
        rw [top_contents htop] at hbefore
        exact List.mem_append_left _ hbefore
      · exact List.mem_append_right _ he
    change e ∈ (Function.update s.top k (some _) k).getD []
    rw [Function.update_self]
    exact hmem

/-- `destroyFifo` frees an event of its own that it has taken from `TOP` or from the scheduler. -/
theorem delete_inv {tops : K → Option (List (Event K M))} {queues : Int × Int → List (Event K M)}
    {e : Event K M} {p : Place K (Int × Int) T} {rest : List (Event K M)} {nested : Bool}
    {retries : Nat} (hinv : EvlInv binds s) (hhasTop : (s.binder k).hasTop = true)
    (hcreating : (s.binder k).creating = nested)
    (hmakes : (BindPc.destroying nested retries).Makes (toUint8 (binds k).size) (s.allocated k)
      (s.fifosize k - 1))
    (hthis : e.this = k) (hplace : (s.contents p).Perm (e :: rest))
    (hcontents : { s with top := tops, queue := queues }.contents = Function.update s.contents p rest)
    (htops : ∀ j, (tops j).isSome = (s.top j).isSome) (hothers : ∀ j, j ≠ k → tops j = s.top j)
    (hown : ∀ j events, tops j = some events → ∀ a ∈ events, a.this = j)
    (hqueued : ∀ q, ∀ a ∈ queues q, (a.priority, a.subpriority) = q) :
    EvlInv binds (({ s with top := tops, queue := queues }.deleteEvent k e).bindGoto k
      (.destroying nested retries)) := by
  have hok := hinv.binders k
  have hkept := hinv.events.kept.take hplace
  have hlive : e ∈ s.live :=
    hinv.events.kept.mem_live (hplace.mem_iff.mpr List.mem_cons_self)
  have hcount : ∀ j, (s.live.erase e).countP (fun a => a.this == j) +
      (if (e.this == j) = true then 1 else 0) = s.count j :=
    fun j => countP_erase_add (fun a : Event K M => a.this == j) hlive
  refine hinv.call k ?_ ?_ ?_ (fun _ _ => rfl) ?_ hothers ?_ rfl ?_ ?_ ?_
  · refine ⟨?_, ?_, hinv.events.numbered, ?_, hown, hqueued, ?_⟩
    · change Kept { s with top := tops, queue := queues }.contents (s.live.erase e)
      rw [hcontents]
      exact hkept
    · change Accounted s.made (s.live.erase e) ((s.freed ++ [(k, e)]).map Prod.snd)
      rw [List.map_append]
      exact hinv.events.accounted.free hlive
    · intro x hx
      rcases List.mem_append.mp hx with hx | hx
      · exact hinv.events.freedOwn x hx
      · rw [List.mem_singleton.mp hx]
        exact hthis
    · exact fun a ha => hinv.events.bound a (List.mem_of_mem_erase ha)
  · have hbind : BindOk (toUint8 (binds k).size) (.destroying nested retries) (s.fifosize k - 1)
        (s.allocated k) (s.fifosize k - 1) true := ⟨rfl, rfl, (fun h => nomatch h), hmakes⟩
    refine binder_ok_of hbind (Function.update_self ..) ?_ rfl (Function.update_self ..) ?_
    · have hmine := hcount k
      rw [hthis, if_pos (beq_self_eq_true k), hok.counted] at hmine
      exact Nat.eq_sub_of_add_eq hmine
    · exact (htops k).trans (hok.tops.trans hhasTop)
  · intro j hj
    have hne : ¬ (e.this == j) = true := fun heq => hj ((beq_iff_eq.mp heq).symm.trans hthis)
    have hother := hcount j
    rw [if_neg hne] at hother
    exact hother
  · exact fun j hj => Function.update_of_ne hj _ _
  · exact fun j hj => Function.update_of_ne hj _ _
  · exact fun a ha _ => List.mem_of_mem_erase ha
  · -- what is left of a component that is created stays in its `TOP`
    intro h a ha hathis
    change (Function.update s.binder k (.destroying nested retries) k).creating = true at h
    rw [Function.update_self] at h
    have hbefore := hinv.hidden k (hcreating.trans h) a (List.mem_of_mem_erase ha) hathis
    obtain ⟨q, hq⟩ := (hkept.covered a).mp ha
    have hplaced : a ∈ s.contents q := by
      rcases mem_update.mp hq with ⟨rfl, hrest⟩ | ⟨-, hq⟩
      · exact hplace.mem_iff.mpr (List.mem_cons_of_mem e hrest)
      · exact hq
    have hhere := hinv.events.kept.apart q (.own k) a hplaced hbefore
    subst hhere
    rw [← hcontents] at hq
    exact hq
  · intro h
    change (Function.update s.binder k (.destroying nested retries) k).creating = false
    rw [Function.update_self]
    exact hcreating.symm.trans h

theorem destroy_loop_inv {nested : Bool} {retries : Nat} {events : List (Event K M)}
    (hinv : EvlInv binds s) (hpc : s.binder k = .destroying nested retries)
    (htop : s.top k = some events) : EvlInv binds (s.destroyLoop k events nested retries) := by
  have hok := hinv.binders k
  have hmakes := hok.makes
  have hcounted := hok.counted
  have hcreating : (s.binder k).creating = nested := by
    rw [hpc]
    rfl
  have hsome : (s.top k).isSome = true := Option.isSome_of_eq_some htop
  rw [hpc] at hmakes
  -- while a component is created, what is not freed is in its `TOP`
  have hnested : nested = true → events = [] → s.fifosize k = 0 := by
    intro hnested hempty
    rw [← hcounted]
    apply List.countP_eq_zero.mpr
    intro e he hthis
    have hmem := hinv.hidden k (hcreating.trans hnested) e he (beq_iff_eq.mp hthis)
    rw [top_contents htop, hempty] at hmem
    exact absurd hmem List.not_mem_nil
  unfold Fifos.destroyLoop
  by_cases hmore : s.fifosize k ≠ 0 ∧ retries ≠ 0
  · rw [if_pos hmore]
    cases events with
    | nil =>
      cases nested with
      | true => exact absurd (hnested rfl rfl) hmore.1
      | false =>
        refine bind_goto_inv hinv ?_ fun _ => rfl
        exact ⟨hcounted, hsome, (fun h => nomatch h), rfl, hmakes⟩
    | cons e rest =>
      have hown := hinv.events.own k _ htop
      have hstay : ({ s with top := Function.update s.top k (some rest) }.deleteEvent k e).bindGoto k
          (.destroying nested retries) =
          { s with top := Function.update s.top k (some rest) }.deleteEvent k e := bind_goto_stay hpc
      dsimp only
      rw [← hstay]
      refine delete_inv hinv ?_ hcreating hmakes (hown e List.mem_cons_self)
        (List.Perm.of_eq (top_contents htop)) (contents_set_top s k rest) (isSome_update hsome)
        (fun j hj => Function.update_of_ne hj _ _)
        (forall_mem_update_some hinv.events.own fun a ha => hown a (List.mem_cons_of_mem e ha))
        hinv.events.queued
      rw [hpc]
      rfl
  · rw [if_neg hmore]
    by_cases hleft : s.fifosize k ≠ 0
    · rw [if_pos hleft]
      cases nested with
      | true => exact absurd ⟨hleft, hmakes⟩ hmore
      | false =>
        refine bind_goto_inv (panic_inv hinv .eventFifoInUse k) ?_ fun _ => rfl
        exact ⟨hcounted, hsome, (fun h => nomatch h), hmakes⟩
    · rw [if_neg hleft]
      have hzero : s.fifosize k = 0 := not_not.mp hleft
      have hempty : (s.top k).getD [] = [] := by
        apply List.eq_nil_iff_forall_not_mem.mpr
        intro e he
        have hthis : e.this = k := by
          rw [htop] at he
          exact hinv.events.own k events htop e he
        exact count_zero (hcounted.trans hzero) (hinv.events.kept.mem_live (p := Place.own k) he) hthis
      -- whether `createFifo` has called or the owner, `TOP` is destroyed without an event
      have hsize : Function.update s.fifosize k 0 = s.fifosize :=
        Function.update_eq_self_iff.mpr hzero.symm
      have hset : ∀ {pc : BindPc}, pc.hasTop = false →
          pc.Makes (toUint8 (binds k).size) (s.allocated k) 0 → pc.creating = false →
          EvlInv binds ({ s with top := Function.update s.top k none }.bindGoto k pc) := by
        intro pc htops hmakes hafter
        have hinv' := set_top_inv hinv none hempty rfl hzero htops.symm hmakes fun _ => hafter
        rw [hsize] at hinv'
        exact hinv'
      cases nested with
      | true => exact hset rfl trivial rfl
      | false => exact hset rfl trivial rfl

theorem scheduler_remove_inv {retries : Nat} (hinv : EvlInv binds s)
    (hpc : s.binder k = .schedulerRemove false retries) :
    EvlInv binds (s.schedulerRemove (binds k) k false retries) := by
  have hok := hinv.binders k
  have hmakes := hok.makes
  have htops := hok.tops
  rw [hpc] at hmakes htops
  unfold Fifos.schedulerRemove
  dsimp only
  rcases pop_matching_cases (fun event => event.this == k)
      (s.queue ((binds k).priority, (binds k).subpriority)) with
    ⟨-, hpop⟩ | ⟨front, e, back, hqueue, -, hthis, hpop⟩
  · rw [hpop]
    refine bind_goto_inv hinv ?_ fun _ => rfl
    exact ⟨hok.counted, htops, (fun h => nomatch h), hmakes.2⟩
  · have hqueued := hinv.events.queued ((binds k).priority, (binds k).subpriority)
    rw [hqueue] at hqueued
    rw [hpop]
    refine delete_inv hinv ?_ ?_ hmakes.2 (beq_iff_eq.mp hthis)
      (p := .shared ((binds k).priority, (binds k).subpriority)) ?_ (contents_set_queue s _ _)
      (fun _ => rfl) (fun _ _ => rfl) hinv.events.own
      (forall_mem_update hinv.events.queued fun a ha => hqueued a ?_)
    · rw [hpc]
      rfl
    · rw [hpc]
      rfl
    · change (s.queue _).Perm _
      rw [hqueue]
      exact List.perm_middle
    · exact (List.perm_middle.mem_iff).mpr (List.mem_cons_of_mem e ha)

theorem bind_inv {ok : Bool} (hinv : EvlInv binds s) (h : s.bindStep binds k ok = some t) :
    EvlInv binds t := by
  have hok := hinv.binders k
  have hmakes := hok.makes
  have htops := hok.tops
  have hempty := hok.empty
  unfold Fifos.bindStep at h
  cases hpc : s.binder k with
  | createTop size =>
    rw [hpc] at h hmakes htops hempty
    cases h
    have hnone : s.top k = none := Option.isNone_iff_eq_none.mp (Option.isSome_eq_false_iff.mp htops)
    cases ok with
    | true =>
      refine set_top_inv hinv (some []) ?_ rfl (hempty rfl) rfl ⟨hmakes.1, hmakes.2, Nat.zero_le _⟩ ?_
      · rw [hnone]
        rfl
      · rw [hpc]
        exact id
    | false =>
      have hsame : Function.update s.top k none = s.top := Function.update_eq_self_iff.mpr hnone.symm
      change EvlInv binds ({ s with top := Function.update s.top k none }.bindGoto k _)
      rw [hsame]
      exact bind_goto_inv hinv ⟨hok.counted, htops, fun _ => hempty rfl, trivial⟩ fun _ => rfl
  | allocate size =>
    rw [hpc] at h hmakes htops
    by_cases hless : s.fifosize k < size
    · simp only [hless, if_true] at h
      cases ok with
      | true =>
        obtain ⟨events, htop, rfl⟩ := Option.map_eq_some_iff.mp h
        exact allocate_inv hinv hpc hless htop
      | false =>
        cases h
        refine bind_goto_inv hinv ⟨hok.counted, htops, (fun h => nomatch h), fun h => nomatch h⟩ ?_
        rw [hpc]
        exact id
    · simp only [hless, if_false] at h
      cases h
      refine bind_goto_inv hinv ⟨hok.counted, htops, (fun h => nomatch h), ?_⟩ fun _ => rfl
      exact hmakes.2.1.trans ((Nat.le_antisymm hmakes.2.2 (Nat.le_of_not_lt hless)).trans hmakes.1)
  | destroying nested retries =>
    rw [hpc] at h
    obtain ⟨events, htop, rfl⟩ := Option.map_eq_some_iff.mp h
    exact destroy_loop_inv hinv hpc htop
  | testState nested retries =>
    rw [hpc] at h hmakes htops
    obtain ⟨rfl, hwhole⟩ := hmakes
    cases h
    split
    · refine bind_goto_inv (panic_inv hinv .eventFifoInUse k) ?_ fun _ => rfl
      exact ⟨hok.counted, htops, (fun h => nomatch h), hwhole⟩
    · refine bind_goto_inv hinv ?_ fun _ => rfl
      exact ⟨hok.counted, htops, (fun h => nomatch h), rfl, hwhole⟩
  | schedulerRemove nested retries =>
    rw [hpc] at h hmakes
    obtain ⟨rfl, -⟩ := hmakes
    cases h
    exact scheduler_remove_inv hinv hpc
  | idle =>
    rw [hpc] at h
    cases h
  | created result =>
    rw [hpc] at h
    cases h
  | destroyed result =>
    rw [hpc] at h
    cases h

theorem create_fifo_inv (hinv : EvlInv binds s) (hpc : s.binder k = .idle) :
    EvlInv binds (s.bindGoto k (.createTop (toUint8 (binds k).size))) := by
  have hok := hinv.binders k
  have hmakes := hok.makes
  have htops := hok.tops
  have hempty := hok.empty
  rw [hpc] at hmakes htops hempty
  refine bind_goto_inv hinv ⟨hok.counted, htops, fun _ => hempty rfl, rfl, hmakes⟩ ?_
  rw [hpc]
  exact id

theorem destroy_fifo_inv (hinv : EvlInv binds s) (hrest : (s.binder k).returned = true) :
    EvlInv binds (s.bindGoto k (if s.top k = none then .destroyed .interfaceNotBinded
      else .destroying false 30)) := by
  have hok := hinv.binders k
  have hmakes := hok.makes
  have htops := hok.tops
  have hempty := hok.empty
  split
  · rename_i hnone
    have hnotop : (s.top k).isSome = false := by
      rw [hnone]
      rfl
    refine bind_goto_inv hinv ⟨hok.counted, hnotop, fun _ => hempty ?_, trivial⟩ fun _ => rfl
    rw [← htops, hnotop]
  · rename_i hnone
    have hsome : (s.top k).isSome = true := Option.isSome_iff_ne_none.mpr hnone
    have hwhole : s.allocated k = toUint8 (binds k).size := by
      rw [hsome] at htops
      cases hpc : s.binder k with
      | created result =>
        rw [hpc] at hmakes htops
        cases result with
        | ok => exact hmakes
        | _ => cases htops
      | destroyed result =>
        rw [hpc] at hmakes htops
        cases result with
        | componentNotStopped => exact hmakes
        | _ => cases htops
      | _ =>
        rw [hpc] at hrest
        cases hrest
    exact bind_goto_inv hinv ⟨hok.counted, hsome, (fun h => nomatch h), hwhole⟩ fun _ => rfl

theorem step_inv {a : Action K M T} (hinv : EvlInv binds s) (h : s.step binds a = some t) :
    EvlInv binds t := by
  cases a with
  | createFifo k =>
    obtain ⟨hpc, h⟩ := Option.ite_none_right_eq_some.mp h
    cases h
    exact create_fifo_inv hinv hpc
  | destroyFifo k =>
    obtain ⟨hrest, h⟩ := Option.ite_none_right_eq_some.mp h
    cases h
    exact destroy_fifo_inv hinv hrest
  | binder k ok => exact bind_inv hinv h
  | post x k =>
    obtain ⟨⟨hidle, hcreating⟩, h⟩ := Option.ite_none_right_eq_some.mp h
    cases h
    split
    · exact hinv
    · refine goto_empty_inv hinv (congrArg ThreadPc.hands hidle) rfl fun j hj => ?_
      cases hj
      exact Bool.not_eq_true _ ▸ hcreating
  | getNextEvent x q locked =>
    obtain ⟨hidle, h⟩ := Option.ite_none_right_eq_some.mp h
    cases h
    exact get_next_event_inv hinv hidle
  | thread x => exact thread_inv hinv h
  | construct m =>
    cases h
    exact state_inv hinv _
  | stopFlush m =>
    cases h
    exact state_inv hinv _

end Calls

section Runs
variable {K M T : Type} [DecidableEq K] [DecidableEq M] [DecidableEq T]

/-- A `createFifo` that succeeds has made as many events as its bind says. Each event that is not
freed is in exactly one place, in `TOP` of its component, on the queue of its bind or in the hands
of a thread. A post finds no event just where all events of the bind are outside `TOP`, and a
`destroyFifo` that succeeds has left none. -/
structure Fifos.Conserved (binds : K → Bind M) (s : Fifos K M T) : Prop where
  whole : ∀ k, s.binder k = .created .ok → (s.allocated k : Int) = (binds k).size
  accounted : Accounted s.made s.live (s.freed.map Prod.snd)
  freedOnce : (s.freed.map Prod.snd).Nodup ∧ ∀ x ∈ s.freed, x.2 ∉ s.live
  placed : ∀ e ∈ s.live, ∃! p, e ∈ s.contents p
  once : ∀ p, (s.contents p).Nodup
  only : ∀ p, ∀ e ∈ s.contents p, e ∈ s.live
  ownTop : ∀ k, ∀ e ∈ s.contents (.own k), e.this = k
  ownQueue : ∀ q, ∀ e ∈ s.contents (.shared q),
    q = ((binds e.this).priority, (binds e.this).subpriority)
  freedOwn : ∀ x ∈ s.freed, x.2.this = x.1
  overflow : ∀ x t, s.step binds (.thread x) = some t → t.panics ≠ s.panics →
    ∃ k, s.thread x = .posting k ∧ (s.allocated k : Int) = (binds k).size ∧
      ∀ e ∈ s.made, e.this = k → e ∉ s.contents (.own k)
  undone : ∀ k, s.binder k = .destroyed .ok → ∀ e ∈ s.live, e.this ≠ k

theorem to_uint8_of_fits {size : Int} (hpos : 0 < size) (hfits : size ≤ 255) :
    (toUint8 size : Int) = size := by
  have hnonneg : 0 ≤ size := Int.le_of_lt hpos
  rw [toUint8, Int.emod_eq_of_lt hnonneg (by omega), Int.toNat_of_nonneg hnonneg]

theorem accepted_iff {bind : Bind M} : bind.accepted = true ↔
    (0 < bind.size ∧ bind.size ≤ 256) ∧ 0 ≤ bind.subpriority ∧ bind.subpriority < 4 := by
  simp [Bind.accepted, maxCommunicationFifoSize, maxCommunicationSubpriority]

variable {binds : K → Bind M} {s t : Fifos K M T}

/-- Whoever posts to a component with `TOP` posts to one that was made with all its events. -/
theorem EvlInv.posts_to_whole (hinv : EvlInv binds s) {x : T} {k : K} {events : List (Event K M)}
    (hpc : s.thread x = .posting k) (htop : s.top k = some events) :
    s.allocated k = toUint8 (binds k).size := by
  have hok := hinv.binders k
  have hmakes := hok.makes
  have htops := hok.tops
  have hcreating := hinv.posting x k hpc
  rw [htop] at htops
  cases hbinder : s.binder k with
  | idle =>
    rw [hbinder] at hcreating
    cases hcreating
  | createTop size =>
    rw [hbinder] at hcreating
    cases hcreating
  | allocate size =>
    rw [hbinder] at hcreating
    cases hcreating
  | destroying nested retries =>
    rw [hbinder] at hcreating hmakes
    cases nested with
    | true => cases hcreating
    | false => exact hmakes
  | testState nested retries =>
    rw [hbinder] at hmakes
    exact hmakes.2
  | schedulerRemove nested retries =>
    rw [hbinder] at hmakes
    exact hmakes.2
  | created result =>
    rw [hbinder] at htops hmakes
    cases result with
    | ok => exact hmakes
    | _ => cases htops
  | destroyed result =>
    rw [hbinder] at htops hmakes
    cases result with
    | componentNotStopped => exact hmakes
    | _ => cases htops

/-- A thread panics only where it posts and finds nothing in `TOP`. -/
theorem thread_panics {x : T} (h : s.threadStep x = some t) (hpanics : t.panics ≠ s.panics) :
    ∃ k, s.thread x = .posting k ∧ s.top k = some [] := by
  unfold Fifos.threadStep at h
  cases hpc : s.thread x with
  | posting k =>
    rw [hpc] at h
    obtain ⟨events, htop, rfl⟩ := Option.map_eq_some_iff.mp h
    cases events with
    | nil => exact ⟨k, rfl, htop⟩
    | cons e rest => exact absurd rfl hpanics
  | executing e =>
    rw [hpc] at h
    obtain ⟨events, -, rfl⟩ := Option.map_eq_some_iff.mp h
    exact absurd rfl hpanics
  | idle =>
    rw [hpc] at h
    cases h
  | sending e =>
    rw [hpc] at h
    cases h
    exact absurd rfl hpanics
  | testing self =>
    rw [hpc] at h
    cases h
    exact absurd rfl hpanics

theorem EvlInv.conserved (hinv : EvlInv binds s)
    (hsize : ∀ k, (toUint8 (binds k).size : Int) = (binds k).size) : s.Conserved binds := by
  have hevents := hinv.events
  have hfreed := hevents.accounted.freed_once
  refine ⟨?_, hevents.accounted, ⟨hfreed.1, fun x hx => hfreed.2 x.2 (List.mem_map_of_mem hx)⟩,
    fun e he => hevents.kept.place he, hevents.kept.once, fun p e he => hevents.kept.mem_live he, ?_,
    ?_, hevents.freedOwn, ?_, ?_⟩
  · intro k hpc
    have hmakes := (hinv.binders k).makes
    rw [hpc] at hmakes
    change s.allocated k = toUint8 (binds k).size at hmakes
    rw [hmakes, hsize k]
  · intro k e he
    cases htop : s.top k with
    | none =>
      change e ∈ (s.top k).getD [] at he
      rw [htop] at he
      exact absurd he List.not_mem_nil
    | some events =>
      rw [top_contents htop] at he
      exact hevents.own k events htop e he
  · intro q e he
    exact (hevents.queued q e he).symm.trans (hevents.bound e (hevents.kept.mem_live he))
  · -- `TOP` is empty, so whatever its component has made is outside
    intro x t h hpanics
    obtain ⟨k, hpc, htop⟩ := thread_panics h hpanics
    refine ⟨k, hpc, ?_, fun e _ _ => ?_⟩
    · rw [hinv.posts_to_whole hpc htop, hsize k]
    · rw [top_contents htop]
      exact List.not_mem_nil
  · intro k hpc
    refine hinv.no_events ?_
    rw [hpc]
    rfl

/-- `createFifo` with nothing to allocate returns after two steps. -/
theorem creates_none (k : K) (hzero : toUint8 (binds k).size = 0) :
    ∃ t : Fifos K M T, run (Fifos.step binds) .start [.createFifo k, .binder k true, .binder k true] =
      some t ∧ t.binder k = .created .ok ∧ t.allocated k = 0 := by
  simp [Fifos.step, Fifos.start, Fifos.bindStep, Fifos.bindGoto, Fifos.allocated, hzero]

theorem accepted_fifos_conserved_iff (binds : K → Bind M)
    (haccepted : ∀ k, (binds k).accepted = true) :
    (∀ (as : List (Action K M T)) (t : Fifos K M T),
      run (Fifos.step binds) .start as = some t → t.Conserved binds) ↔ ∀ k, (binds k).size ≤ 255 := by
  have hrange : ∀ k, 0 < (binds k).size ∧ (binds k).size ≤ 256 :=
    fun k => (accepted_iff.mp (haccepted k)).1
  constructor
  · -- a size that does not fit is 256, and `createFifo` gets 0
    intro hall k
    by_contra hlarge
    have hlast : (binds k).size = 256 := by
      have hle := (hrange k).2
      omega
    have hzero : toUint8 (binds k).size = 0 := by
      rw [hlast]
      rfl
    obtain ⟨t, hrun, hpc, hnone⟩ := creates_none (T := T) k hzero
    have hwhole := (hall _ t hrun).whole k hpc
    rw [hnone, hlast] at hwhole
    cases hwhole
  · intro hfits as t hrun
    have hinv : EvlInv binds t :=
      run_induction (fun _ _ _ hinv hstep => step_inv hinv hstep) (evl_inv_start binds) hrun
    exact hinv.conserved fun k => to_uint8_of_fits (hrange k).1 (hfits k)

end Runs

section Samples

/-- Two binds of one subpriority, to one target and to another. -/
def sampleBinds (k : Bool) : Bind Bool := ⟨if k then 1 else 2, 0, 3, k⟩

/-- Both components are created and post; a worker runs the first event, and the second component is
destroyed while its event waits behind the other one's. -/
def sampleActions : List (Action Bool Bool Bool) :=
  .createFifo false :: List.replicate 4 (.binder false true) ++
    .createFifo true :: List.replicate 3 (.binder true true) ++
    [.post false false, .thread false, .thread false, .getNextEvent true (3, 0) (fun _ => false),
      .post false false, .thread false, .thread false, .post false true, .thread false, .thread false,
      .post false true, .thread false, .stopFlush true, .destroyFifo true] ++
    List.replicate 4 (.binder true true)

theorem accepted_fifos_conserved_iff_sample :
    ∃ t, run (Fifos.step sampleBinds) .start sampleActions = some t ∧
      t.panics = [(.eventFifoOverflow, true)] ∧ t.binder true = .destroyed .ok ∧
      t.live.length = 2 ∧ t.Conserved sampleBinds := by
  have hrun : ∃ t, run (Fifos.step sampleBinds) .start sampleActions = some t ∧
      t.panics = [(.eventFifoOverflow, true)] ∧ t.binder true = .destroyed .ok ∧
      t.live.length = 2 := ⟨_, rfl, rfl, rfl, rfl⟩
  obtain ⟨t, hrun, hpanics, hpc, hlive⟩ := hrun
  have haccepted : ∀ k, (sampleBinds k).accepted = true := by decide
  have hfits : ∀ k, (sampleBinds k).size ≤ 255 := by decide
  exact ⟨t, hrun, hpanics, hpc, hlive,
    (accepted_fifos_conserved_iff sampleBinds haccepted).mpr hfits sampleActions t hrun⟩

/-- A bind of size 256 is accepted, and its first post finds a `TOP` without events. -/
theorem largest_fifo_has_no_events :
    (⟨256, 0, 3, ()⟩ : Bind Unit).accepted = true ∧
    ∃ t : Fifos Unit Unit Unit, run (Fifos.step fun _ => ⟨256, 0, 3, ()⟩) .start
        [.createFifo (), .binder () true, .binder () true, .post () (), .thread ()] = some t ∧
      t.binder () = .created .ok ∧ t.made = [] ∧ t.panics = [(.eventFifoOverflow, ())] :=
  ⟨rfl, _, rfl, rfl, rfl, rfl⟩

end Samples

end Codinalte.Bindings.Evl
