import Codinalte.Bindings.Callback
import Codinalte.Lib.Places

/-! The events of the callback binding components are conserved: as long as every event is made, no
method is posted while its component waits for its flush, and `destroyFifo` finds an event of its
own where it looks in the channel. -/

set_option linter.unusedSectionVars false

namespace Codinalte.Bindings.Cbl
open Codinalte.Machine Codinalte.Places

namespace BindPc

/-- The component has a reference to its channel. -/
def holdsRef : BindPc → Bool
  | .createTop _ | .allocate _ _ | .destroying _ _ | .lookInChannel _ _ | .removeRef _
  | .created .ok | .destroyed .componentNotStopped => true
  | _ => false

/-- The component has its queue `TOP`. -/
def hasTop : BindPc → Bool
  | .allocate _ _ | .destroying _ _ | .lookInChannel _ _ | .created .ok
  | .destroyed .componentNotStopped => true
  | _ => false

/-- By how much the call has changed `bindRefCounter`. -/
def changedRefs : BindPc → Int
  | .createTop _ | .allocate _ _ | .created .ok => 1
  | .destroyed .ok => -1
  | _ => 0

/-- `destroyFifo` is never called by `createFifo`. -/
def plain : BindPc → Bool
  | .destroying nested _ | .lookInChannel nested _ | .removeRef nested => !nested
  | .removeRefAgain => false
  | _ => true

end BindPc

namespace Callbacks
variable {K C T : Type} [DecidableEq K] [DecidableEq C] [DecidableEq T]

/-- Where the events are: in `TOP` of a component, on the queue of a channel, in the hands of a
thread. -/
def contents (s : Callbacks K C T) : Place K C T → List (Event K C) :=
  spread (fun k => (s.top k).getD []) s.message fun t => (s.thread t).hands

/-- How many events of a component are not freed. -/
def count (s : Callbacks K C T) (k : K) : Nat := s.live.countP fun e => e.this == k

/-- An event is made, a method is not posted to a component that waits for its flush, and what is
first in the channel where `destroyFifo` looks is its own. -/
def conserving (s : Callbacks K C T) : Action K C T → Bool
  | .binder k ok =>
    match s.binder k with
    | .allocate i size => ok || decide (size ≤ i)
    | .lookInChannel _ _ =>
      (s.channel k).all fun c => (s.message c).head?.all fun e => e.this == k
    | _ => true
  | .thread t =>
    match s.thread t with
    | .posting event => !s.waitFlush event.this
    | _ => true
  | _ => true

end Callbacks

/-- What holds of one component where the call on it stands: how many of its events are not freed,
whether it has `TOP`, its `size`, the change of `bindRefCounter` and its channel. -/
structure BindOk {C : Type} (pc : BindPc) (count : Nat) (hasTop : Bool) (size : Nat) (balance : Int)
    (channel : Option C) : Prop where
  counted : count = match pc with
    | .allocate i _ => i
    | _ => size
  tops : hasTop = pc.hasTop
  empty : pc.hasTop = false → size = 0
  making : ∀ i n, pc = .allocate i n → size = 0 ∧ i ≤ n
  plain : pc.plain = true
  balanced : balance = pc.changedRefs
  held : pc.holdsRef = true → channel.isSome = true

section Invariant
variable {K C T : Type} [DecidableEq K] [DecidableEq C] [DecidableEq T]

def Callbacks.BinderOk (s : Callbacks K C T) (k : K) : Prop :=
  BindOk (s.binder k) (s.count k) (s.top k).isSome (s.size k) (s.balance k) (s.channel k)

structure EventsOk (s : Callbacks K C T) : Prop where
  kept : Kept s.contents s.live
  accounted : Accounted s.made s.live (s.freed.map Prod.snd)
  numbered : ∀ e ∈ s.made, e.id < s.made.length
  freedOwn : ∀ x ∈ s.freed, x.2.this = x.1
  own : ∀ k events, s.top k = some events → ∀ e ∈ events, e.this = k
  queued : ∀ c, ∀ e ∈ s.message c, e.channel = c
  bound : ∀ e ∈ s.live, s.channel e.this = some e.channel

structure RefsOk (s : Callbacks K C T) : Prop where
  nodup : s.refs.Nodup
  counter : ∀ c, s.bindRefCounter c = s.refs.countP fun r => r.2 == c
  holders : ∀ k c, (k, c) ∈ s.refs ↔ (s.binder k).holdsRef = true ∧ s.channel k = some c
  opened : ∀ r ∈ s.refs, s.opened r.2 = true

structure CblInv (s : Callbacks K C T) : Prop where
  events : EventsOk s
  binders : ∀ k, s.BinderOk k
  refs : RefsOk s

theorem cbl_inv_start : CblInv (.start : Callbacks K C T) where
  events := by
    refine ⟨?_, ⟨List.nodup_nil, List.Perm.refl _⟩, ?_, ?_, ?_, ?_, ?_⟩
    · have hnone : (Callbacks.start : Callbacks K C T).contents = fun _ => [] := by
        funext p
        cases p <;> rfl
      rw [hnone]
      exact kept_nil
    · exact fun e he => absurd he List.not_mem_nil
    · exact fun x hx => absurd hx List.not_mem_nil
    · exact fun k events h => by cases h
    · exact fun c e he => absurd he List.not_mem_nil
    · exact fun e he => absurd he List.not_mem_nil
  binders := fun _ => ⟨rfl, rfl, fun _ => rfl, (fun _ _ h => nomatch h), rfl, rfl,
    fun h => nomatch h⟩
  refs := ⟨List.nodup_nil, fun _ => rfl, fun k c => by simp [Callbacks.start, BindPc.holdsRef],
    fun r hr => absurd hr List.not_mem_nil⟩

end Invariant

section Contents
variable {K C T : Type} [DecidableEq K] [DecidableEq C] [DecidableEq T]
variable {s t : Callbacks K C T} {k : K} {c : C} {x : T} {l : List (Event K C)}

theorem contents_same (htop : t.top = s.top) (hmessage : t.message = s.message)
    (hhands : ∀ y, (t.thread y).hands = (s.thread y).hands) : t.contents = s.contents := by
  unfold Callbacks.contents
  rw [htop, hmessage, funext hhands]

theorem contents_set_top (s : Callbacks K C T) (k : K) (l : List (Event K C)) :
    { s with top := Function.update s.top k (some l) }.contents =
      Function.update s.contents (.own k) l := by
  unfold Callbacks.contents
  rw [← spread_own]
  congr 1
  exact funext (Function.apply_update (fun _ events => events.getD []) s.top k (some l))

theorem contents_set_message (s : Callbacks K C T) (c : C) (l : List (Event K C)) :
    { s with message := Function.update s.message c l }.contents =
      Function.update s.contents (.shared c) l :=
  spread_shared _ s.message _ l c

theorem contents_goto (s : Callbacks K C T) (x : T) (pc : ThreadPc K C) :
    (s.goto x pc).contents = Function.update s.contents (.hands x) pc.hands := by
  unfold Callbacks.contents
  rw [← spread_hands]
  congr 1
  exact funext (Function.apply_update (fun _ pc => pc.hands) s.thread x pc)

end Contents

section Frames
variable {K C T : Type} [DecidableEq K] [DecidableEq C] [DecidableEq T]
variable {s t : Callbacks K C T} {k : K} {c : C} {x : T}

theorem EventsOk.moved (h : EventsOk s) (hlive : t.live = s.live) (hmade : t.made = s.made)
    (hfreed : t.freed = s.freed) (hchannel : t.channel = s.channel) (kept : Kept t.contents s.live)
    (own : ∀ k events, t.top k = some events → ∀ e ∈ events, e.this = k)
    (queued : ∀ c, ∀ e ∈ t.message c, e.channel = c) : EventsOk t where
  kept := by
    rw [hlive]
    exact kept
  accounted := by
    rw [hlive, hmade, hfreed]
    exact h.accounted
  numbered := by
    rw [hmade]
    exact h.numbered
  freedOwn := by
    rw [hfreed]
    exact h.freedOwn
  own := own
  queued := queued
  bound := by
    rw [hlive, hchannel]
    exact h.bound

/-- What a call writes beside the queues. -/
theorem EventsOk.frame (h : EventsOk s) (htop : t.top = s.top) (hmessage : t.message = s.message)
    (hthread : t.thread = s.thread) (hlive : t.live = s.live) (hmade : t.made = s.made)
    (hfreed : t.freed = s.freed) (hchannel : t.channel = s.channel) : EventsOk t := by
  refine h.moved hlive hmade hfreed hchannel ?_ ?_ ?_
  · rw [contents_same htop hmessage fun y => by rw [hthread]]
    exact h.kept
  · rw [htop]
    exact h.own
  · rw [hmessage]
    exact h.queued

theorem BinderOk.same (h : s.BinderOk k) (hbinder : t.binder k = s.binder k)
    (hcount : t.count k = s.count k) (htop : (t.top k).isSome = (s.top k).isSome)
    (hsize : t.size k = s.size k) (hbalance : t.balance k = s.balance k)
    (hchannel : t.channel k = s.channel k) : t.BinderOk k := by
  unfold Callbacks.BinderOk
  rw [hbinder, hcount, htop, hsize, hbalance, hchannel]
  exact h

theorem RefsOk.same (h : RefsOk s) (hrefs : t.refs = s.refs)
    (hcounter : t.bindRefCounter = s.bindRefCounter) (hopened : t.opened = s.opened)
    (hbinder : ∀ k, (t.binder k).holdsRef = (s.binder k).holdsRef)
    (hchannel : t.channel = s.channel) : RefsOk t where
  nodup := by
    rw [hrefs]
    exact h.nodup
  counter := by
    rw [hrefs, hcounter]
    exact h.counter
  holders := by
    rw [hrefs, hchannel]
    intro k c
    rw [hbinder k]
    exact h.holders k c
  opened := by
    rw [hrefs, hopened]
    exact h.opened

theorem top_contents {events : List (Event K C)} (htop : s.top k = some events) :
    s.contents (.own k) = events := by
  change (s.top k).getD [] = events
  rw [htop]
  rfl

/-- A thread steps, and what is in `TOP` of a component may change with it. -/
theorem CblInv.threads (hinv : CblInv s) (hlive : t.live = s.live) (hmade : t.made = s.made)
    (hfreed : t.freed = s.freed) (hchannel : t.channel = s.channel) (hbinder : t.binder = s.binder)
    (hsize : t.size = s.size) (hbalance : t.balance = s.balance) (hrefs : t.refs = s.refs)
    (hcounter : t.bindRefCounter = s.bindRefCounter) (hopened : t.opened = s.opened)
    (htops : ∀ k, (t.top k).isSome = (s.top k).isSome) (kept : Kept t.contents s.live)
    (own : ∀ k events, t.top k = some events → ∀ e ∈ events, e.this = k)
    (queued : ∀ c, ∀ e ∈ t.message c, e.channel = c) : CblInv t where
  events := hinv.events.moved hlive hmade hfreed hchannel kept own queued
  binders := fun k => BinderOk.same (hinv.binders k) (congrFun hbinder k)
    (by rw [Callbacks.count, hlive, Callbacks.count]) (htops k)
    (congrFun hsize k) (congrFun hbalance k) (congrFun hchannel k)
  refs := hinv.refs.same hrefs hcounter hopened (fun k => by rw [hbinder]) hchannel

theorem idle_hands (hidle : s.thread x = .idle) {e : Event K C} :
    s.contents (.hands x) ++ [e] = [e] := by
  change (s.thread x).hands ++ [e] = [e]
  rw [hidle]
  rfl

theorem post_inv {events : List (Event K C)} (hinv : CblInv s) (hidle : s.thread x = .idle)
    (htop : s.top k = some events) : CblInv (s.post x events k) := by
  cases events with
  | nil => exact hinv
  | cons e rest =>
    have hown := hinv.events.own k _ htop
    have hkept := hinv.events.kept.move (q := .hands x) (p := .own k) (fun h => nomatch h)
      (List.Perm.of_eq (top_contents htop))
    have hsome : (s.top k).isSome = true := Option.isSome_of_eq_some htop
    refine hinv.threads rfl rfl rfl rfl rfl rfl rfl rfl rfl rfl (isSome_update hsome) ?_
      (forall_mem_update_some hinv.events.own fun a ha => hown a (List.mem_cons_of_mem e ha))
      hinv.events.queued
    rw [idle_hands hidle] at hkept
    unfold Callbacks.post
    dsimp only
    rw [contents_goto, contents_set_top]
    exact hkept

theorem get_message_inv (hinv : CblInv s) (hidle : s.thread x = .idle) :
    CblInv (s.getMessage x c) := by
  unfold Callbacks.getMessage
  split
  · exact hinv
  · rename_i e rest hmessage
    have hqueued := hinv.events.queued c
    rw [hmessage] at hqueued
    have hkept := hinv.events.kept.move (q := .hands x) (p := .shared c) (fun h => nomatch h)
      (List.Perm.of_eq hmessage)
    refine hinv.threads rfl rfl rfl rfl rfl rfl rfl rfl rfl rfl (fun _ => rfl) ?_
      hinv.events.own
      (forall_mem_update hinv.events.queued fun a ha => hqueued a (List.mem_cons_of_mem e ha))
    rw [idle_hands hidle] at hkept
    rw [contents_goto, contents_set_message]
    exact hkept

theorem thread_inv (hinv : CblInv s) (hok : s.conserving (.thread x) = true)
    (h : s.threadStep x = some t) : CblInv t := by
  unfold Callbacks.threadStep at h
  change (match s.thread x with
    | .posting event => !s.waitFlush event.this
    | _ => true) = true at hok
  cases hpc : s.thread x with
  | idle =>
    rw [hpc] at h
    cases h
  | posting e =>
    rw [hpc] at h hok
    -- where the component waits for its flush the event would be lost here
    have hflush : s.waitFlush e.this = false := by
      change (!s.waitFlush e.this) = true at hok
      cases hwait : s.waitFlush e.this with
      | true =>
        rw [hwait] at hok
        cases hok
      | false => rfl
    simp only [hflush, Bool.false_eq_true, if_false] at h
    cases h
    refine hinv.threads rfl rfl rfl rfl rfl rfl rfl rfl rfl rfl (fun _ => rfl) ?_ hinv.events.own
      hinv.events.queued
    have hsame : (s.goto x (.pushing e)).contents = s.contents := by
      rw [contents_goto]
      apply Function.update_eq_self_iff.mpr
      change [e] = (s.thread x).hands
      rw [hpc]
      rfl
    rw [hsame]
    exact hinv.events.kept
  | pushing e =>
    rw [hpc] at h
    cases h
    have hhands : s.contents (.hands x) = [e] := congrArg ThreadPc.hands hpc
    have hkept := hinv.events.kept.move (q := .shared e.channel) (p := .hands x)
      (fun h => nomatch h)
      (List.Perm.of_eq hhands)
    refine hinv.threads rfl rfl rfl rfl rfl rfl rfl rfl rfl rfl (fun _ => rfl) ?_ hinv.events.own
      (forall_mem_update hinv.events.queued fun a ha => ?_)
    · rw [contents_goto, contents_set_message]
      rw [Function.update_comm (by exact (fun h => nomatch h))] at hkept
      exact hkept
    · rcases List.mem_append.mp ha with ha | ha
      · exact hinv.events.queued _ a ha
      · rw [List.mem_singleton.mp ha]
  | reacting e =>
    rw [hpc] at h
    obtain ⟨events, htop, rfl⟩ := Option.map_eq_some_iff.mp h
    have hhands : s.contents (.hands x) = [e] := congrArg ThreadPc.hands hpc
    have hkept := hinv.events.kept.move (q := .own e.this) (p := .hands x) (fun h => nomatch h)
      (List.Perm.of_eq hhands)
    have hsome : (s.top e.this).isSome = true := Option.isSome_of_eq_some htop
    refine hinv.threads rfl rfl rfl rfl rfl rfl rfl rfl rfl rfl (isSome_update hsome) ?_
      (forall_mem_update_some hinv.events.own fun a ha => ?_) hinv.events.queued
    · rw [contents_goto, contents_set_top]
      rw [Function.update_comm (by exact (fun h => nomatch h)), top_contents htop] at hkept
      exact hkept
    · rcases List.mem_append.mp ha with ha | ha
      · exact hinv.events.own _ events htop a ha
      · rw [List.mem_singleton.mp ha]
  | testing self =>
    rw [hpc] at h
    cases h
    refine hinv.threads rfl rfl rfl rfl rfl rfl rfl rfl rfl rfl (fun _ => rfl) ?_ hinv.events.own
      hinv.events.queued
    have hsame : (s.goto x .idle).contents = s.contents := by
      rw [contents_goto]
      apply Function.update_eq_self_iff.mpr
      change [] = (s.thread x).hands
      rw [hpc]
      rfl
    rw [hsame]
    exact hinv.events.kept

end Frames

section Binders
variable {K C T : Type} [DecidableEq K] [DecidableEq C] [DecidableEq T]
variable {s t : Callbacks K C T} {k : K} {c : C} {pc : BindPc}

/-- A call on the component `k` steps. -/
theorem CblInv.call (hinv : CblInv s) (k : K) (events : EventsOk t) (mine : t.BinderOk k)
    (refs : RefsOk t) (hcount : ∀ j, j ≠ k → t.count j = s.count j)
    (hbinder : ∀ j, j ≠ k → t.binder j = s.binder j) (htop : ∀ j, j ≠ k → t.top j = s.top j)
    (hsize : ∀ j, j ≠ k → t.size j = s.size j) (hbalance : ∀ j, j ≠ k → t.balance j = s.balance j)
    (hchannel : ∀ j, j ≠ k → t.channel j = s.channel j) : CblInv t where
  events := events
  binders := by
    intro j
    by_cases hj : j = k
    · subst hj
      exact mine
    · exact BinderOk.same (hinv.binders j) (hbinder j hj) (hcount j hj) (by rw [htop j hj])
        (hsize j hj) (hbalance j hj) (hchannel j hj)
  refs := refs

theorem rest_holds (hrest : pc.atRest = true) : pc.holdsRef = pc.hasTop := by
  cases pc with
  | idle => rfl
  | created result => cases result <;> rfl
  | destroyed result => cases result <;> rfl
  | _ => cases hrest

theorem BindOk.counted_size {count size : Nat} {hasTop : Bool} {balance : Int} {channel : Option C}
    (h : BindOk pc count hasTop size balance channel) (hpc : ∀ i n, pc ≠ .allocate i n) :
    count = size := by
  have hcounted := h.counted
  cases pc with
  | allocate i n => exact absurd rfl (hpc i n)
  | _ => exact hcounted

/-- A component without `TOP` has no events. -/
theorem CblInv.no_events (hinv : CblInv s) (htop : (s.binder k).hasTop = false) :
    s.size k = 0 ∧ ∀ e ∈ s.live, e.this ≠ k := by
  have hok := hinv.binders k
  have hsize : s.size k = 0 := hok.empty htop
  refine ⟨hsize, fun e he hthis => ?_⟩
  have hcount : s.count k = s.size k := hok.counted_size fun i n hpc => by
    rw [hpc] at htop
    cases htop
  have hpos : 0 < s.count k := List.countP_pos_iff.mpr ⟨e, he, beq_iff_eq.mpr hthis⟩
  omega

theorem bind_goto_holders (h : RefsOk s) (hholds : pc.holdsRef = (s.binder k).holdsRef) :
    RefsOk (s.bindGoto k pc) := by
  refine h.same rfl rfl rfl (fun j => ?_) rfl
  change (Function.update s.binder k pc j).holdsRef = _
  by_cases hj : j = k
  · subst hj
    rw [Function.update_self, hholds]
  · rw [Function.update_of_ne hj]

theorem binder_ok_of {count size : Nat} {hasTop : Bool} {balance : Int} {channel : Option C}
    (h : BindOk pc count hasTop size balance channel) (hbinder : t.binder k = pc)
    (hcount : t.count k = count) (htop : (t.top k).isSome = hasTop) (hsize : t.size k = size)
    (hbalance : t.balance k = balance) (hchannel : t.channel k = channel) : t.BinderOk k := by
  unfold Callbacks.BinderOk
  rw [hbinder, hcount, htop, hsize, hbalance, hchannel]
  exact h

/-- A component takes a reference to its channel. -/
theorem RefsOk.added (h : RefsOk s) (hnoref : (s.binder k).holdsRef = false)
    (hopen : s.opened c = true) (hholds : pc.holdsRef = true) (hrefs : t.refs = (k, c) :: s.refs)
    (hcounter : t.bindRefCounter =
      Function.update s.bindRefCounter c (s.bindRefCounter c + 1))
    (hopened : t.opened = s.opened) (hbinder : t.binder = Function.update s.binder k pc)
    (hchannel : t.channel = Function.update s.channel k (some c)) : RefsOk t := by
  -- a component holds one reference at most
  have hnot : ∀ d, (k, d) ∉ s.refs := by
    intro d hd
    have hheld := ((h.holders k d).mp hd).1
    rw [hnoref] at hheld
    cases hheld
  refine ⟨?_, ?_, ?_, ?_⟩
  · rw [hrefs]
    exact List.nodup_cons.mpr ⟨hnot c, h.nodup⟩
  · intro d
    rw [hrefs, hcounter, List.countP_cons]
    by_cases hd : d = c
    · subst hd
      rw [Function.update_self, h.counter d, if_pos (beq_self_eq_true d)]
    · have hne : ¬ (c == d) = true := fun heq => hd (beq_iff_eq.mp heq).symm
      rw [Function.update_of_ne hd, h.counter d, if_neg hne]
      rfl
  · intro j d
    rw [hrefs, hbinder, hchannel, List.mem_cons]
    by_cases hj : j = k
    · subst hj
      rw [Function.update_self, Function.update_self]
      constructor
      · rintro (heq | hd)
        · cases heq
          exact ⟨hholds, rfl⟩
        · exact absurd hd (hnot d)
      · rintro ⟨-, heq⟩
        cases heq
        exact Or.inl rfl
    · rw [Function.update_of_ne hj, Function.update_of_ne hj, ← h.holders j d]
      constructor
      · rintro (heq | hd)
        · exact absurd (congrArg Prod.fst heq) hj
        · exact hd
      · exact Or.inr
  · intro r hr
    rw [hrefs] at hr
    rw [hopened]
    rcases List.mem_cons.mp hr with rfl | hr
    · exact hopen
    · exact h.opened r hr

/-- A component gives the reference to its channel back. -/
theorem RefsOk.removed (h : RefsOk s) (hmem : (k, c) ∈ s.refs) (hholds : pc.holdsRef = false) :
    s.channelRemoveRef k c = { s with
      bindRefCounter := Function.update s.bindRefCounter c (s.bindRefCounter c - 1)
      refs := s.refs.erase (k, c)
      balance := Function.update s.balance k (s.balance k - 1) } ∧
    RefsOk ((s.channelRemoveRef k c).bindGoto k pc) := by
  have hpos : 0 < s.bindRefCounter c := by
    rw [h.counter c]
    exact List.countP_pos_iff.mpr ⟨(k, c), hmem, beq_self_eq_true c⟩
  have heq : s.channelRemoveRef k c = { s with
      bindRefCounter := Function.update s.bindRefCounter c (s.bindRefCounter c - 1)
      refs := s.refs.erase (k, c)
      balance := Function.update s.balance k (s.balance k - 1) } :=
    if_pos ⟨h.opened _ hmem, Nat.ne_of_gt hpos⟩
  have hchannel := ((h.holders k c).mp hmem).2
  refine ⟨heq, ?_⟩
  rw [heq]
  refine ⟨h.nodup.erase _, ?_, ?_, ?_⟩
  · intro d
    have hcount : (s.refs.erase (k, c)).countP (fun r => r.2 == d) +
        (if (c == d) = true then 1 else 0) = s.refs.countP fun r => r.2 == d := countP_erase_add (fun r => r.2 == d) hmem
    change Function.update s.bindRefCounter c (s.bindRefCounter c - 1) d =
      (s.refs.erase (k, c)).countP fun r => r.2 == d
    by_cases hd : d = c
    · subst hd
      rw [if_pos (beq_self_eq_true d)] at hcount
      rw [Function.update_self, h.counter d]
      omega
    · have hne : ¬ (c == d) = true := fun heq => hd (beq_iff_eq.mp heq).symm
      rw [if_neg hne, Nat.add_zero] at hcount
      rw [Function.update_of_ne hd, h.counter d]
      exact hcount.symm
  · intro j d
    change (j, d) ∈ s.refs.erase (k, c) ↔
      (Function.update s.binder k pc j).holdsRef = true ∧ s.channel j = some d
    rw [h.nodup.mem_erase_iff, h.holders j d]
    by_cases hj : j = k
    · subst hj
      rw [Function.update_self, hholds]
      constructor
      · rintro ⟨hne, -, hd⟩
        rw [hchannel] at hd
        cases hd
        exact absurd rfl hne
      · rintro ⟨hfalse, -⟩
        cases hfalse
    · rw [Function.update_of_ne hj]
      exact and_iff_right fun heq => hj (congrArg Prod.fst heq)
  · exact fun r hr => h.opened r (List.mem_of_mem_erase hr)

theorem CblInv.count_zero (hinv : CblInv s) (htop : (s.binder k).hasTop = false) :
    s.count k = 0 := by
  apply List.countP_eq_zero.mpr
  intro e he hthis
  exact (hinv.no_events htop).2 e he (beq_iff_eq.mp hthis)

theorem create_fifo_inv {size : Nat} (hinv : CblInv s) (hrest : (s.binder k).atRest = true)
    (htop : s.top k = none) : CblInv (s.createFifo k c size) := by
  have hhasTop : (s.binder k).hasTop = false := by
    rw [← (hinv.binders k).tops, htop]
    rfl
  have hnoref : (s.binder k).holdsRef = false := by rw [rest_holds hrest, hhasTop]
  obtain ⟨hsize, hnone⟩ := hinv.no_events hhasTop
  have hcount := hinv.count_zero hhasTop
  have hnotop : (s.top k).isSome = false := by
    rw [htop]
    rfl
  unfold Callbacks.createFifo
  dsimp only
  by_cases hopen : s.opened c = true
  · rw [if_pos hopen]
    refine hinv.call k ?_ ?_ ?_ (fun _ _ => rfl) ?_ (fun _ _ => rfl) (fun _ _ => rfl) ?_ ?_
    · refine ⟨hinv.events.kept, hinv.events.accounted, hinv.events.numbered, hinv.events.freedOwn,
        hinv.events.own, hinv.events.queued, fun e he => ?_⟩
      change Function.update s.channel k (some c) e.this = some e.channel
      rw [Function.update_of_ne (hnone e he)]
      exact hinv.events.bound e he
    · have hbind : BindOk (.createTop (toUint8 size)) 0 false 0 1 (some c) :=
        ⟨rfl, rfl, fun _ => rfl, (fun _ _ h => nomatch h), rfl, rfl, fun _ => rfl⟩
      exact binder_ok_of hbind (Function.update_self ..) hcount hnotop hsize (Function.update_self ..)
        (Function.update_self ..)
    · have hholds : (BindPc.createTop (toUint8 size)).holdsRef = true := rfl
      exact hinv.refs.added hnoref hopen hholds rfl rfl rfl rfl rfl
    · exact fun j hj => Function.update_of_ne hj _ _
    · intro j hj
      change Function.update (Function.update s.balance k 0) k 1 j = s.balance j
      rw [Function.update_of_ne hj, Function.update_of_ne hj]
    · exact fun j hj => Function.update_of_ne hj _ _
  · rw [if_neg hopen]
    refine hinv.call k (hinv.events.frame rfl rfl rfl rfl rfl rfl rfl) ?_ ?_ (fun _ _ => rfl) ?_
      (fun _ _ => rfl) (fun _ _ => rfl) ?_ (fun _ _ => rfl)
    · have hbind : BindOk (.created .invalidParameter) 0 false 0 0 (s.channel k) :=
        ⟨rfl, rfl, fun _ => rfl, (fun _ _ h => nomatch h), rfl, rfl, fun h => nomatch h⟩
      exact binder_ok_of hbind (Function.update_self ..) hcount hnotop hsize (Function.update_self ..)
        rfl
    · refine bind_goto_holders (hinv.refs.same rfl rfl rfl (fun _ => rfl) rfl) ?_
      exact hnoref.symm
    · exact fun j hj => Function.update_of_ne hj _ _
    · exact fun j hj => Function.update_of_ne hj _ _

theorem destroy_fifo_inv (hinv : CblInv s) (hrest : (s.binder k).atRest = true) :
    CblInv (if s.top k = none then
        { s with balance := Function.update s.balance k 0 }.bindGoto k (.destroyed .interfaceNotBinded)
      else { s with balance := Function.update s.balance k 0 }.bindGoto k (.destroying false 30)) := by
  have hok := hinv.binders k
  have hholds := rest_holds hrest
  split
  · rename_i htop
    have hnotop : (s.top k).isSome = false := by
      rw [htop]
      rfl
    have hhasTop : (s.binder k).hasTop = false := by
      rw [← hok.tops, hnotop]
    refine hinv.call k (hinv.events.frame rfl rfl rfl rfl rfl rfl rfl) ?_ ?_ (fun _ _ => rfl) ?_
      (fun _ _ => rfl) (fun _ _ => rfl) ?_ (fun _ _ => rfl)
    · have hbind : BindOk (.destroyed .interfaceNotBinded) 0 false 0 0 (s.channel k) :=
        ⟨rfl, rfl, fun _ => rfl, (fun _ _ h => nomatch h), rfl, rfl, fun h => nomatch h⟩
      exact binder_ok_of hbind (Function.update_self ..) (hinv.count_zero hhasTop) hnotop
        (hok.empty hhasTop) (Function.update_self ..) rfl
    · refine bind_goto_holders (hinv.refs.same rfl rfl rfl (fun _ => rfl) rfl) ?_
      exact (hholds.trans hhasTop).symm
    · exact fun j hj => Function.update_of_ne hj _ _
    · exact fun j hj => Function.update_of_ne hj _ _
  · rename_i htop
    have hsome : (s.top k).isSome = true := Option.isSome_iff_ne_none.mpr htop
    have hhasTop : (s.binder k).hasTop = true := by
      rw [← hok.tops, hsome]
    have hcount : s.count k = s.size k := hok.counted_size fun i n hpc => by
      rw [hpc] at hrest
      cases hrest
    refine hinv.call k (hinv.events.frame rfl rfl rfl rfl rfl rfl rfl) ?_ ?_ (fun _ _ => rfl) ?_
      (fun _ _ => rfl) (fun _ _ => rfl) ?_ (fun _ _ => rfl)
    · have hbind : BindOk (.destroying false 30) (s.size k) true (s.size k) 0 (s.channel k) :=
        ⟨rfl, rfl, (fun h => nomatch h), (fun _ _ h => nomatch h), rfl, rfl, fun _ => hok.held
        (hholds.trans hhasTop)⟩
      exact binder_ok_of hbind (Function.update_self ..) hcount hsome rfl (Function.update_self ..) rfl
    · refine bind_goto_holders (hinv.refs.same rfl rfl rfl (fun _ => rfl) rfl) ?_
      exact (hholds.trans hhasTop).symm
    · exact fun j hj => Function.update_of_ne hj _ _
    · exact fun j hj => Function.update_of_ne hj _ _

/-- The reference of a component that holds one. -/
theorem CblInv.mem_refs (hinv : CblInv s) (hholds : (s.binder k).holdsRef = true)
    (hchannel : s.channel k = some c) : (k, c) ∈ s.refs :=
  (hinv.refs.holders k c).mpr ⟨hholds, hchannel⟩

/-- A call that gives its reference back, and returns. -/
theorem remove_ref_inv (hinv : CblInv s) (hholds : (s.binder k).holdsRef = true)
    (htop : (s.binder k).hasTop = false) (hchannel : s.channel k = some c)
    (hpc : pc.holdsRef = false ∧ pc.hasTop = false ∧ pc.plain = true ∧ pc.atRest = true)
    (hbalance : s.balance k - 1 = pc.changedRefs) :
    CblInv ((s.channelRemoveRef k c).bindGoto k pc) := by
  have hok := hinv.binders k
  obtain ⟨heq, hrefs⟩ := hinv.refs.removed (hinv.mem_refs hholds hchannel) hpc.1
  have hsize := hok.empty htop
  have hcount := hinv.count_zero htop
  rw [heq] at hrefs ⊢
  refine hinv.call k (hinv.events.frame rfl rfl rfl rfl rfl rfl rfl) ?_ hrefs (fun _ _ => rfl) ?_
    (fun _ _ => rfl) (fun _ _ => rfl) ?_ (fun _ _ => rfl)
  · have hbind : BindOk pc 0 false 0 pc.changedRefs (s.channel k) := by
      refine ⟨?_, hpc.2.1.symm, fun _ => rfl, ?_, hpc.2.2.1, rfl, fun h => ?_⟩
      · cases pc with
        | allocate i size => cases hpc.2.1
        | _ => rfl
      · rintro i n rfl
        cases hpc.2.1
      · rw [hpc.1] at h
        cases h
    exact binder_ok_of hbind (Function.update_self ..) hcount (hok.tops.trans htop) hsize
      ((Function.update_self ..).trans hbalance) rfl
  · exact fun j hj => Function.update_of_ne hj _ _
  · exact fun j hj => Function.update_of_ne hj _ _

theorem create_top_inv {size : Nat} (hinv : CblInv s) (hpc : s.binder k = .createTop size) :
    CblInv ({ s with top := Function.update s.top k (some []) }.bindGoto k (.allocate 0 size)) := by
  have hok := hinv.binders k
  have hheld := hok.held
  have hbalanced := hok.balanced
  have hhasTop : (s.binder k).hasTop = false := by
    rw [hpc]
    rfl
  have hnone : s.top k = none := by
    have htops := hok.tops
    rw [hhasTop] at htops
    exact Option.isSome_eq_false_iff.mp htops |> Option.isNone_iff_eq_none.mp
  rw [hpc] at hheld hbalanced
  have hcontents : { s with top := Function.update s.top k (some []) }.contents = s.contents := by
    rw [contents_set_top]
    apply Function.update_eq_self_iff.mpr
    change [] = (s.top k).getD []
    rw [hnone]
    rfl
  refine hinv.call k ?_ ?_ ?_ (fun _ _ => rfl) ?_ ?_ (fun _ _ => rfl) (fun _ _ => rfl) (fun _ _ => rfl)
  · refine hinv.events.moved rfl rfl rfl rfl ?_ ?_ hinv.events.queued
    · change Kept { s with top := Function.update s.top k (some []) }.contents s.live
      rw [hcontents]
      exact hinv.events.kept
    · exact forall_mem_update_some hinv.events.own fun e he => absurd he List.not_mem_nil
  · have hbind : BindOk (.allocate 0 size) 0 true 0 1 (s.channel k) := by
      refine ⟨rfl, rfl, (fun h => nomatch h), fun i n h => ?_, rfl, rfl, fun _ => hheld rfl⟩
      cases h
      exact ⟨rfl, Nat.zero_le _⟩
    exact binder_ok_of hbind (Function.update_self ..) (hinv.count_zero hhasTop) (isSome_update_self _)
      (hok.empty hhasTop) hbalanced rfl
  · refine bind_goto_holders (hinv.refs.same rfl rfl rfl (fun _ => rfl) rfl) ?_
    change true = (s.binder k).holdsRef
    rw [hpc]
    rfl
  · exact fun j hj => Function.update_of_ne hj _ _
  · exact fun j hj => Function.update_of_ne hj _ _

theorem allocate_inv {i size : Nat} {events : List (Event K C)} (hinv : CblInv s)
    (hpc : s.binder k = .allocate i size) (hi : i < size) (hchannel : s.channel k = some c)
    (htop : s.top k = some events) :
    CblInv ((s.allocateEvent k c events).bindGoto k (.allocate (i + 1) size)) := by
  have hok := hinv.binders k
  have hcounted := hok.counted
  have hmaking := hok.making i size hpc
  have hheld := hok.held
  have hbalanced := hok.balanced
  rw [hpc] at hcounted hheld hbalanced
  have hnew : (⟨s.made.length, k, c⟩ : Event K C) ∉ s.made :=
    fun hmem => Nat.lt_irrefl _ (hinv.events.numbered _ hmem)
  have hkept := hinv.events.kept.put (p := .own k) fun hlive =>
    hnew (hinv.events.accounted.made_of_live hlive)
  rw [top_contents htop, ← contents_set_top] at hkept
  refine hinv.call k ?_ ?_ ?_ ?_ ?_ ?_ (fun _ _ => rfl) (fun _ _ => rfl) (fun _ _ => rfl)
  · refine ⟨hkept, hinv.events.accounted.make hnew, ?_, hinv.events.freedOwn, ?_, hinv.events.queued,
      ?_⟩
    · intro e he
      change e.id < (s.made ++ [_]).length
      rw [List.length_append, List.length_singleton]
      rcases List.mem_append.mp he with he | he
      · exact Nat.lt_succ_of_lt (hinv.events.numbered e he)
      · rw [List.mem_singleton.mp he]
        exact Nat.lt_succ_self _
    · refine forall_mem_update_some hinv.events.own fun e he => ?_
      rcases List.mem_append.mp he with he | he
      · exact hinv.events.own k events htop e he
      · rw [List.mem_singleton.mp he]
    · intro e he
      rcases List.mem_append.mp he with he | he
      · exact hinv.events.bound e he
      · rw [List.mem_singleton.mp he]
        exact hchannel
  · have hbind : BindOk (.allocate (i + 1) size) (i + 1) true 0 1 (s.channel k) := by
      refine ⟨rfl, rfl, (fun h => nomatch h), fun a b h => ?_, rfl, rfl, fun _ => hheld rfl⟩
      cases h
      exact ⟨rfl, hi⟩
    refine binder_ok_of hbind (Function.update_self ..) ?_ (isSome_update_self _) hmaking.1 hbalanced rfl
    change (s.live ++ [_]).countP _ = _
    rw [List.countP_append, List.countP_singleton, if_pos (beq_self_eq_true k)]
    exact congrArg (· + 1) hcounted
  · refine bind_goto_holders (hinv.refs.same rfl rfl rfl (fun _ => rfl) rfl) ?_
    change true = (s.binder k).holdsRef
    rw [hpc]
    rfl
  · intro j hj
    have hne : ¬ (k == j) = true := fun heq => hj (beq_iff_eq.mp heq).symm
    change (s.live ++ [_]).countP _ = _
    rw [List.countP_append, List.countP_singleton, if_neg hne]
    rfl
  · exact fun j hj => Function.update_of_ne hj _ _
  · exact fun j hj => Function.update_of_ne hj _ _

theorem created_inv {i size : Nat} (hinv : CblInv s) (hpc : s.binder k = .allocate i size)
    (hi : ¬ i < size) :
    CblInv ({ s with size := Function.update s.size k size }.bindGoto k (.created .ok)) := by
  have hok := hinv.binders k
  have hcounted := hok.counted
  have hmaking := hok.making i size hpc
  have hheld := hok.held
  have hbalanced := hok.balanced
  have htops := hok.tops
  rw [hpc] at hcounted hheld hbalanced htops
  have hsize : i = size := Nat.le_antisymm hmaking.2 (Nat.le_of_not_lt hi)
  refine hinv.call k (hinv.events.frame rfl rfl rfl rfl rfl rfl rfl) ?_ ?_ (fun _ _ => rfl) ?_
    (fun _ _ => rfl) ?_ (fun _ _ => rfl) (fun _ _ => rfl)
  · have hbind : BindOk (.created .ok) size true size 1 (s.channel k) :=
      ⟨rfl, rfl, (fun h => nomatch h), (fun _ _ h => nomatch h), rfl, rfl, fun _ => hheld rfl⟩
    exact binder_ok_of hbind (Function.update_self ..) (hcounted.trans hsize) htops
      (Function.update_self ..) hbalanced rfl
  · refine bind_goto_holders (hinv.refs.same rfl rfl rfl (fun _ => rfl) rfl) ?_
    change true = (s.binder k).holdsRef
    rw [hpc]
    rfl
  · exact fun j hj => Function.update_of_ne hj _ _
  · exact fun j hj => Function.update_of_ne hj _ _

/-- `destroyFifo` frees an event of its own that it has taken from `TOP` or from the channel. -/
theorem delete_inv {tops : K → Option (List (Event K C))} {messages : C → List (Event K C)}
    {e : Event K C} {p : Place K C T} {rest : List (Event K C)} {retries : Nat} (hinv : CblInv s)
    (hpc : (s.binder k).holdsRef = true ∧ (s.binder k).hasTop = true ∧ (s.binder k).changedRefs = 0)
    (hcounted : s.count k = s.size k) (hthis : e.this = k) (hplace : s.contents p = e :: rest)
    (hcontents : { s with top := tops, message := messages }.contents =
      Function.update s.contents p rest)
    (htops : ∀ j, (tops j).isSome = (s.top j).isSome) (hothers : ∀ j, j ≠ k → tops j = s.top j)
    (hown : ∀ j events, tops j = some events → ∀ a ∈ events, a.this = j)
    (hqueued : ∀ d, ∀ a ∈ messages d, a.channel = d) :
    CblInv (({ s with top := tops, message := messages }.deleteEvent k e).bindGoto k
      (.destroying false retries)) := by
  have hok := hinv.binders k
  have hkept := hinv.events.kept.take (List.Perm.of_eq hplace)
  -- `size` and the events that are not freed go down together, since the event is the component's
  have hlive : e ∈ s.live := hinv.events.kept.mem_live (p := p) (by
    rw [hplace]
    exact List.mem_cons_self)
  have hcount : ∀ j, (s.live.erase e).countP (fun a => a.this == j) +
      (if (e.this == j) = true then 1 else 0) = s.count j :=
    fun j => countP_erase_add (fun a : Event K C => a.this == j) hlive
  refine hinv.call k ?_ ?_ ?_ ?_ ?_ hothers ?_ (fun _ _ => rfl) (fun _ _ => rfl)
  · refine ⟨?_, ?_, hinv.events.numbered, ?_, hown, hqueued, ?_⟩
    · change Kept { s with top := tops, message := messages }.contents (s.live.erase e)
      rw [hcontents]
      exact hkept
    · -- the event goes from the live ones to the freed ones
      change Accounted s.made (s.live.erase e) ((s.freed ++ [(k, e)]).map Prod.snd)
      rw [List.map_append]
      exact hinv.events.accounted.free hlive
    · intro x hx
      rcases List.mem_append.mp hx with hx | hx
      · exact hinv.events.freedOwn x hx
      · rw [List.mem_singleton.mp hx]
        exact hthis
    · exact fun a ha => hinv.events.bound a (List.mem_of_mem_erase ha)
  · have hbind : BindOk (.destroying false retries) (s.size k - 1) true (s.size k - 1) 0
        (s.channel k) :=
      ⟨rfl, rfl, (fun h => nomatch h), (fun _ _ h => nomatch h), rfl, rfl, fun _ => hok.held hpc.1⟩
    refine binder_ok_of hbind (Function.update_self ..) ?_ ?_ (Function.update_self ..) ?_ rfl
    · have hmine := hcount k
      rw [hthis, if_pos (beq_self_eq_true k), hcounted] at hmine
      exact Nat.eq_sub_of_add_eq hmine
    · exact (htops k).trans (hok.tops.trans hpc.2.1)
    · exact hok.balanced.trans hpc.2.2
  · exact bind_goto_holders (hinv.refs.same rfl rfl rfl (fun _ => rfl) rfl) hpc.1.symm
  · intro j hj
    have hne : ¬ (e.this == j) = true := fun heq => hj ((beq_iff_eq.mp heq).symm.trans hthis)
    have hother := hcount j
    rw [if_neg hne] at hother
    exact hother
  · exact fun j hj => Function.update_of_ne hj _ _
  · exact fun j hj => Function.update_of_ne hj _ _

end Binders

end Codinalte.Bindings.Cbl
