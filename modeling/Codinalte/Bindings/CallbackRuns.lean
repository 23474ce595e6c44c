import Codinalte.Bindings.CallbackInvariant

/-! Runs of the callback binding components: what each action keeps, and the conservation of the
events over every run whose steps conserve them. -/

set_option linter.unusedSectionVars false

namespace Codinalte.Bindings.Cbl
open Codinalte.Machine Codinalte.Places

section Steps
variable {K C T : Type} [DecidableEq K] [DecidableEq C] [DecidableEq T]
variable {s t : Callbacks K C T} {k : K} {c : C} {pc : BindPc}

theorem bind_goto_stay (hpc : s.binder k = pc) : s.bindGoto k pc = s := by
  unfold Callbacks.bindGoto
  rw [← hpc, Function.update_eq_self]

theorem bind_goto_inv (hinv : CblInv s)
    (hbind : BindOk pc (s.count k) (s.top k).isSome (s.size k) (s.balance k) (s.channel k))
    (hholds : pc.holdsRef = (s.binder k).holdsRef) : CblInv (s.bindGoto k pc) := by
  refine hinv.call k (hinv.events.frame rfl rfl rfl rfl rfl rfl rfl) ?_
    (bind_goto_holders hinv.refs hholds) (fun _ _ => rfl) ?_ (fun _ _ => rfl) (fun _ _ => rfl)
    (fun _ _ => rfl) (fun _ _ => rfl)
  · exact binder_ok_of hbind (Function.update_self ..) rfl rfl rfl rfl rfl
  · exact fun j hj => Function.update_of_ne hj _ _

/-- `destroyFifo` has freed all the events, and destroys `TOP`. -/
theorem destroy_top_inv {retries : Nat} {events : List (Event K C)} (hinv : CblInv s)
    (hpc : s.binder k = .destroying false retries) (htop : s.top k = some events)
    (hsize : s.size k = 0) :
    CblInv ({ s with top := Function.update s.top k none }.bindGoto k (.removeRef false)) := by
  have hok := hinv.binders k
  have hbalanced := hok.balanced
  have hheld := hok.held
  have hcount : s.count k = 0 :=
    (hok.counted_size fun i n h => nomatch hpc.symm.trans h).trans hsize
  rw [hpc] at hbalanced hheld
  -- `size` counts the events that are not freed, and there are no others in `TOP`
  have hempty : events = [] := by
    apply List.eq_nil_iff_forall_not_mem.mpr
    intro e he
    have hlive : e ∈ s.live := hinv.events.kept.mem_live (p := .own k) (by
      rw [top_contents htop]
      exact he)
    exact List.countP_eq_zero.mp hcount e hlive (beq_iff_eq.mpr (hinv.events.own k events htop e he))
  have hcontents : ({ s with top := Function.update s.top k none }.bindGoto k
      (.removeRef false)).contents = s.contents := by
    unfold Callbacks.contents
    congr 1
    funext j
    change (Function.update s.top k none j).getD [] = (s.top j).getD []
    by_cases hj : j = k
    · subst hj
      rw [Function.update_self, htop, hempty]
      rfl
    · rw [Function.update_of_ne hj]
  refine hinv.call k ?_ ?_ ?_ (fun _ _ => rfl) ?_ ?_ (fun _ _ => rfl) (fun _ _ => rfl) (fun _ _ => rfl)
  · refine hinv.events.moved rfl rfl rfl rfl ?_ ?_ hinv.events.queued
    · rw [hcontents]
      exact hinv.events.kept
    · intro j l hl
      change Function.update s.top k none j = some l at hl
      by_cases hj : j = k
      · subst hj
        rw [Function.update_self] at hl
        cases hl
      · rw [Function.update_of_ne hj] at hl
        exact hinv.events.own j l hl
  · have hbind : BindOk (.removeRef false) 0 false 0 0 (s.channel k) :=
      ⟨rfl, rfl, fun _ => rfl, (fun _ _ h => nomatch h), rfl, rfl, fun _ => hheld rfl⟩
    refine binder_ok_of hbind (Function.update_self ..) hcount ?_ hsize hbalanced rfl
    change (Function.update s.top k none k).isSome = false
    rw [Function.update_self]
    rfl
  · refine bind_goto_holders (hinv.refs.same rfl rfl rfl (fun _ => rfl) rfl) ?_
    change true = (s.binder k).holdsRef
    rw [hpc]
    rfl
  · exact fun j hj => Function.update_of_ne hj _ _
  · exact fun j hj => Function.update_of_ne hj _ _

theorem destroy_loop_inv {retries : Nat} {events : List (Event K C)} (hinv : CblInv s)
    (hpc : s.binder k = .destroying false retries) (htop : s.top k = some events) :
    CblInv (s.destroyLoop k events false retries) := by
  have hok := hinv.binders k
  have hcounted := hok.counted_size fun i n h => nomatch hpc.symm.trans h
  have hsome : (s.top k).isSome = true := Option.isSome_of_eq_some htop
  have hbalanced := hok.balanced
  have hheld := hok.held
  rw [hpc] at hbalanced hheld
  unfold Callbacks.destroyLoop
  by_cases hmore : s.size k ≠ 0 ∧ retries ≠ 0
  · rw [if_pos hmore]
    cases events with
    | nil =>
      refine bind_goto_inv hinv ?_ ?_
      · exact ⟨hcounted, hsome, (fun h => nomatch h), (fun _ _ h => nomatch h), rfl, hbalanced,
          fun _ => hheld rfl⟩
      · rw [hpc]
        rfl
    | cons e rest =>
      have hown := hinv.events.own k _ htop
      have hstay : ({ s with top := Function.update s.top k (some rest) }.deleteEvent k e).bindGoto k
          (.destroying false retries) =
          { s with top := Function.update s.top k (some rest) }.deleteEvent k e := bind_goto_stay hpc
      dsimp only
      rw [← hstay]
      refine delete_inv hinv ?_ hcounted (hown e List.mem_cons_self) (top_contents htop)
        (contents_set_top s k rest) (isSome_update hsome) (fun j hj => Function.update_of_ne hj _ _)
        (forall_mem_update_some hinv.events.own fun a ha => hown a (List.mem_cons_of_mem e ha))
        hinv.events.queued
      rw [hpc]
      exact ⟨rfl, rfl, rfl⟩
  · rw [if_neg hmore]
    by_cases hleft : s.size k ≠ 0
    · rw [if_pos hleft]
      refine bind_goto_inv hinv ?_ ?_
      · exact ⟨hcounted, hsome, (fun h => nomatch h), (fun _ _ h => nomatch h), rfl, hbalanced,
          fun _ => hheld rfl⟩
      · rw [hpc]
        rfl
    · rw [if_neg hleft]
      exact destroy_top_inv hinv hpc htop (not_not.mp hleft)

theorem remove_message_inv {retries : Nat} (hinv : CblInv s)
    (hpc : s.binder k = .lookInChannel false retries)
    (hown : (s.message c).head?.all (fun e => e.this == k) = true) :
    CblInv (s.removeMessage k c false retries) := by
  have hok := hinv.binders k
  have hcounted := hok.counted_size fun i n h => nomatch hpc.symm.trans h
  have htops := hok.tops
  have hbalanced := hok.balanced
  have hheld := hok.held
  rw [hpc] at htops hbalanced hheld
  unfold Callbacks.removeMessage
  cases hmessage : s.message c with
  | nil =>
    refine bind_goto_inv hinv ?_ ?_
    · exact ⟨hcounted, htops, (fun h => nomatch h), (fun _ _ h => nomatch h), rfl, hbalanced,
        fun _ => hheld rfl⟩
    · rw [hpc]
      rfl
  | cons e rest =>
    rw [hmessage] at hown
    have hqueued := hinv.events.queued c
    rw [hmessage] at hqueued
    refine delete_inv hinv ?_ hcounted (beq_iff_eq.mp hown) (p := .shared c) hmessage
      (contents_set_message s c rest) (fun _ => rfl) (fun _ _ => rfl) hinv.events.own
      (forall_mem_update hinv.events.queued fun a ha => hqueued a (List.mem_cons_of_mem e ha))
    rw [hpc]
    exact ⟨rfl, rfl, rfl⟩

theorem bind_inv {ok : Bool} (hinv : CblInv s) (hok : s.conserving (.binder k ok) = true)
    (h : s.bindStep k ok = some t) : CblInv t := by
  have hbind := hinv.binders k
  have hplain := hbind.plain
  have hbalanced := hbind.balanced
  unfold Callbacks.bindStep at h
  unfold Callbacks.conserving at hok
  dsimp only at hok
  cases hpc : s.binder k with
  | createTop size =>
    rw [hpc] at h hbalanced
    obtain ⟨c, hchannel, rfl⟩ := Option.map_eq_some_iff.mp h
    cases ok with
    | true => exact create_top_inv hinv hpc
    | false =>
      refine remove_ref_inv hinv ?_ ?_ hchannel ⟨rfl, rfl, rfl, rfl⟩ ?_
      · rw [hpc]
        rfl
      · rw [hpc]
        rfl
      · rw [hbalanced]
        rfl
  | allocate i size =>
    rw [hpc] at h hok
    by_cases hi : i < size
    · -- `createFifo` that calls `destroyFifo` is left out
      have hmade : ok = true := by
        change (ok || decide (size ≤ i)) = true at hok
        rwa [decide_eq_false (Nat.not_le_of_lt hi), Bool.or_false] at hok
      simp only [hi, hmade, if_true] at h
      obtain ⟨c, hchannel, h⟩ := Option.bind_eq_some_iff.mp h
      obtain ⟨events, htop, rfl⟩ := Option.map_eq_some_iff.mp h
      exact allocate_inv hinv hpc hi hchannel htop
    · simp only [hi, if_false] at h
      cases h
      exact created_inv hinv hpc hi
  | destroying nested retries =>
    rw [hpc] at h hplain
    obtain ⟨events, htop, rfl⟩ := Option.map_eq_some_iff.mp h
    cases nested with
    | true => cases hplain
    | false => exact destroy_loop_inv hinv hpc htop
  | lookInChannel nested retries =>
    rw [hpc] at h hplain hok
    obtain ⟨c, hchannel, rfl⟩ := Option.map_eq_some_iff.mp h
    rw [hchannel] at hok
    cases nested with
    | true => cases hplain
    | false => exact remove_message_inv hinv hpc hok
  | removeRef nested =>
    rw [hpc] at h hplain hbalanced
    obtain ⟨c, hchannel, rfl⟩ := Option.map_eq_some_iff.mp h
    cases nested with
    | true => cases hplain
    | false =>
      refine remove_ref_inv hinv ?_ ?_ hchannel ⟨rfl, rfl, rfl, rfl⟩ ?_
      · rw [hpc]
        rfl
      · rw [hpc]
        rfl
      · rw [hbalanced]
        rfl
  | removeRefAgain =>
    rw [hpc] at hplain
    cases hplain
  | idle =>
    rw [hpc] at h
    cases h
  | created result =>
    rw [hpc] at h
    cases h
  | destroyed result =>
    rw [hpc] at h
    cases h

/-- A channel without references has no messages: a message belongs to a component that holds one.
-/
theorem CblInv.no_messages (hinv : CblInv s) (hnoref : s.bindRefCounter c = 0) :
    s.message c = [] := by
  apply List.eq_nil_iff_forall_not_mem.mpr
  intro e he
  have hlive : e ∈ s.live := hinv.events.kept.mem_live (p := Place.shared c) he
  have hholds : (s.binder e.this).holdsRef = true := by
    by_contra hnot
    have hhasTop : (s.binder e.this).hasTop = false := by
      cases hpc : s.binder e.this with
      | created result => cases result <;> simp_all [BindPc.holdsRef, BindPc.hasTop]
      | destroyed result => cases result <;> simp_all [BindPc.holdsRef, BindPc.hasTop]
      | _ => simp_all [BindPc.holdsRef, BindPc.hasTop]
    exact (hinv.no_events hhasTop).2 e hlive rfl
  have hchannel := hinv.events.bound e hlive
  rw [hinv.events.queued c e he] at hchannel
  have hmem := hinv.mem_refs hholds hchannel
  have hpos : 0 < s.bindRefCounter c := by
    rw [hinv.refs.counter c]
    exact List.countP_pos_iff.mpr ⟨_, hmem, beq_self_eq_true c⟩
  omega

theorem RefsOk.no_refs (h : RefsOk s) (hclosed : s.opened c = false) : s.bindRefCounter c = 0 := by
  rw [h.counter c]
  apply List.countP_eq_zero.mpr
  intro r hr hchannel
  have hopen := h.opened r hr
  rw [beq_iff_eq.mp hchannel, hclosed] at hopen
  cases hopen

/-- A channel that no component holds is opened or closed. -/
theorem channel_inv {counter : C → Nat} {flag : Bool} (hinv : CblInv s)
    (hnoref : s.bindRefCounter c = 0) (hcounter : counter = s.bindRefCounter) :
    CblInv { s with
      opened := Function.update s.opened c flag
      bindRefCounter := counter
      message := Function.update s.message c [] } := by
  have hmessage : Function.update s.message c [] = s.message :=
    Function.update_eq_self_iff.mpr (hinv.no_messages hnoref).symm
  refine ⟨hinv.events.frame rfl hmessage rfl rfl rfl rfl rfl, hinv.binders, hinv.refs.nodup, ?_,
    hinv.refs.holders, ?_⟩
  · rw [hcounter]
    exact hinv.refs.counter
  · intro r hr
    have hother : r.2 ≠ c := by
      intro heq
      have hpos : 0 < s.bindRefCounter c := by
        rw [hinv.refs.counter c]
        exact List.countP_pos_iff.mpr ⟨r, hr, beq_iff_eq.mpr heq⟩
      omega
    change Function.update s.opened c flag r.2 = true
    rw [Function.update_of_ne hother]
    exact hinv.refs.opened r hr

theorem step_inv {a : Action K C T} (hinv : CblInv s) (hok : s.conserving a = true)
    (h : s.step a = some t) : CblInv t := by
  cases a with
  | openChannel c =>
    obtain ⟨hclosed, h⟩ := Option.ite_none_left_eq_some.mp h
    cases h
    have hnoref := hinv.refs.no_refs (Bool.not_eq_true _ ▸ hclosed)
    exact channel_inv hinv hnoref (Function.update_eq_self_iff.mpr hnoref.symm)
  | closeChannel c =>
    obtain ⟨⟨-, hnoref⟩, h⟩ := Option.ite_none_right_eq_some.mp h
    cases h
    exact channel_inv hinv hnoref rfl
  | createFifo k c size =>
    obtain ⟨⟨hrest, htop⟩, h⟩ := Option.ite_none_right_eq_some.mp h
    cases h
    exact create_fifo_inv hinv hrest htop
  | destroyFifo k =>
    obtain ⟨hrest, h⟩ := Option.ite_none_right_eq_some.mp h
    cases h
    exact destroy_fifo_inv hinv hrest
  | binder k ok => exact bind_inv hinv hok h
  | post x k =>
    obtain ⟨⟨hidle, -⟩, h⟩ := Option.ite_none_right_eq_some.mp h
    obtain ⟨events, htop, rfl⟩ := Option.map_eq_some_iff.mp h
    exact post_inv hinv hidle htop
  | getMessage x c =>
    obtain ⟨⟨hidle, -⟩, h⟩ := Option.ite_none_right_eq_some.mp h
    cases h
    exact get_message_inv hinv hidle
  | thread x => exact thread_inv hinv hok h
  | stopFlush k =>
    cases h
    exact ⟨hinv.events.frame rfl rfl rfl rfl rfl rfl rfl, hinv.binders,
      hinv.refs.same rfl rfl rfl (fun _ => rfl) rfl⟩

end Steps

section Runs
variable {K C T : Type} [DecidableEq K] [DecidableEq C] [DecidableEq T]

/-- Each event that was made and is not freed is in exactly one place, in `TOP` of its component, on
the queue of its channel or in the hands of a thread. A component whose `createFifo` has failed, or
whose `destroyFifo` has succeeded, has no event left. -/
structure Callbacks.Conserved (s : Callbacks K C T) : Prop where
  accounted : Accounted s.made s.live (s.freed.map Prod.snd)
  freedOnce : (s.freed.map Prod.snd).Nodup ∧ ∀ x ∈ s.freed, x.2 ∉ s.live
  placed : ∀ e ∈ s.live, ∃! p, e ∈ s.contents p
  once : ∀ p, (s.contents p).Nodup
  only : ∀ p, ∀ e ∈ s.contents p, e ∈ s.live
  ownTop : ∀ k, ∀ e ∈ s.contents (.own k), e.this = k
  ownChannel : ∀ c, ∀ e ∈ s.contents (.shared c), s.channel e.this = some c
  freedOwn : ∀ x ∈ s.freed, x.2.this = x.1
  refused : ∀ k result, s.binder k = .created result → result ≠ .ok →
    (∀ e ∈ s.live, e.this ≠ k) ∧ s.balance k = 0
  undone : ∀ k, s.binder k = .destroyed .ok → (∀ e ∈ s.live, e.this ≠ k) ∧ s.balance k = -1

theorem CblInv.conserved {s : Callbacks K C T} (hinv : CblInv s) : s.Conserved := by
  have hevents := hinv.events
  have hfreed := hevents.accounted.freed_once
  refine ⟨hevents.accounted, ⟨hfreed.1, fun x hx => hfreed.2 x.2 (List.mem_map_of_mem hx)⟩,
    fun e he => hevents.kept.place he, hevents.kept.once, fun p e he => hevents.kept.mem_live he, ?_,
    ?_, hevents.freedOwn, ?_, ?_⟩
  · intro k e he
    cases htop : s.top k with
    | none =>
      change e ∈ (s.top k).getD [] at he
      rw [htop] at he
      exact absurd he List.not_mem_nil
    | some events =>
      rw [top_contents htop] at he
      exact hevents.own k events htop e he
  · intro c e he
    rw [hevents.bound e (hevents.kept.mem_live he), hevents.queued c e he]
  · intro k result hpc hne
    have hok := hinv.binders k
    have hbalanced := hok.balanced
    rw [hpc] at hbalanced
    have hhasTop : (s.binder k).hasTop = false := by
      rw [hpc]
      cases result with
      | ok => exact absurd rfl hne
      | _ => rfl
    refine ⟨(hinv.no_events hhasTop).2, hbalanced.trans ?_⟩
    cases result with
    | ok => exact absurd rfl hne
    | _ => rfl
  · intro k hpc
    have hbalanced := (hinv.binders k).balanced
    rw [hpc] at hbalanced
    refine ⟨(hinv.no_events ?_).2, hbalanced⟩
    rw [hpc]
    rfl

theorem events_are_conserved (as : List (Action K C T)) (t : Callbacks K C T)
    (hok : Meets Callbacks.step (fun s a => s.conserving a = true) .start as)
    (h : run Callbacks.step .start as = some t) : t.Conserved := by
  have hinv : CblInv t :=
    run_induction_of_meets (fun _ _ _ hinv hok hstep => step_inv hinv hok hstep) cbl_inv_start hok h
  exact hinv.conserved

end Runs

section Samples

/-- A component is made with all its events, and made with the allocation of its last one failing.
-/
def makes (k : Bool) (size : Nat) : List (Action Bool Unit Bool) :=
  .createFifo k () size :: List.replicate (size + 2) (.binder k true)

def refusesLast (k : Bool) (size : Nat) : List (Action Bool Unit Bool) :=
  .createFifo k () size ::
    (List.replicate size (.binder k true) ++ List.replicate 4 (.binder k false))

/-- The thread posts a method of the component, up to the push in the channel. -/
def posts (t k : Bool) : List (Action Bool Unit Bool) := [.post t k, .thread t, .thread t]

/-- Two components on a channel; the second is destroyed while its event is first in the channel. -/
def sampleActions : List (Action Bool Unit Bool) :=
  [.openChannel ()] ++ makes false 2 ++ makes true 1 ++ posts false false ++
    [.getMessage true (), .thread true, .thread true] ++ posts false true ++ posts false false ++
    [.destroyFifo true] ++ List.replicate 4 (.binder true true)

theorem events_are_conserved_sample :
    ∃ t, run Callbacks.step .start sampleActions = some t ∧ t.binder true = .destroyed .ok ∧
      t.made.length = 3 ∧ t.live.length = 2 ∧ t.Conserved := by
  have hrun : ∃ t, run Callbacks.step .start sampleActions = some t ∧ t.binder true = .destroyed .ok ∧
      t.made.length = 3 ∧ t.live.length = 2 := ⟨_, rfl, rfl, rfl, rfl⟩
  obtain ⟨t, hrun, hpc, hmade, hlive⟩ := hrun
  have hok : Meets Callbacks.step (fun s a => s.conserving a = true) .start sampleActions := by decide
  exact ⟨t, hrun, hpc, hmade, hlive, events_are_conserved sampleActions t hok hrun⟩

/-- An allocation fails after the first event; a method is posted to a component that waits for its
flush; and `destroyFifo` finds the message of another component first in the channel. -/
theorem events_are_lost :
    (∃ t, run Callbacks.step .start
        ([.openChannel ()] ++ makes true 1 ++ refusesLast false 2) = some t ∧
      t.binder false = .created .noMoreMemory ∧ (∃ e ∈ t.live, e.this = false) ∧
      t.balance false = -1 ∧ t.bindRefCounter () = 0) ∧
    (∃ t : Callbacks Bool Unit Bool, run Callbacks.step .start
        ([.openChannel ()] ++ makes true 1 ++ [.post true true, .stopFlush true, .thread true]) =
        some t ∧
      ∃ e ∈ t.live, ∀ p, e ∉ t.contents p) ∧
    ∃ t : Callbacks Bool Unit Bool, run Callbacks.step .start
        ([.openChannel ()] ++ makes false 1 ++ makes true 1 ++ posts false false ++ posts true true ++
          [.destroyFifo true, .binder true true, .binder true true]) = some t ∧
      ∃ x ∈ t.freed, x.1 = true ∧ x.2.this = false := by
  refine ⟨⟨_, rfl, rfl, ⟨⟨1, false, ()⟩, List.mem_cons_of_mem _ List.mem_cons_self, rfl⟩, rfl, rfl⟩,
    ⟨_, rfl, ⟨0, true, ()⟩, List.mem_cons_self, ?_⟩,
    ⟨_, rfl, ⟨true, 0, false, ()⟩, List.mem_cons_self, rfl, rfl⟩⟩
  rintro (k | c | x)
  · cases k <;> exact List.not_mem_nil
  · exact List.not_mem_nil
  · cases x <;> exact List.not_mem_nil

end Samples

end Codinalte.Bindings.Cbl
