import Codinalte.Bindings.Event
import Codinalte.Lib.Places

/-! The events of the event binding components are conserved, whatever the sizes of their fifos: the
invariant, and what the steps of the threads and of the calls keep. -/

set_option linter.unusedSectionVars false

namespace Codinalte.Bindings.Evl
open Codinalte.Places
open Cbl (NmfError)
open HostEE (popMatching pop_matching_cases)

/-- The component has its queue `TOP`. -/
def BindPc.hasTop : BindPc → Bool
  | .allocate _ | .destroying _ _ | .testState _ _ | .schedulerRemove _ _ | .created .ok
  | .destroyed .componentNotStopped => true
  | _ => false

/-- How many events the call has made so far; `size` is what `createFifo` gets. -/
def BindPc.Makes (size allocated fifosize : Nat) : BindPc → Prop
  | .idle => allocated = 0
  | .createTop n => n = size ∧ allocated = 0
  | .allocate n => n = size ∧ allocated = fifosize ∧ fifosize ≤ n
  | .destroying nested retries => if nested then retries ≠ 0 else allocated = size
  | .testState nested _ | .schedulerRemove nested _ => nested = false ∧ allocated = size
  | .created .ok | .destroyed .componentNotStopped => allocated = size
  | .created _ | .destroyed _ => True

namespace Fifos
variable {K M T : Type} [DecidableEq K] [DecidableEq M] [DecidableEq T]

/-- Where the events are: in `TOP` of a component, on a queue of the scheduler, in the hands of a
thread. -/
def contents (s : Fifos K M T) : Place K (Int × Int) T → List (Event K M) :=
  spread (fun k => (s.top k).getD []) s.queue fun t => (s.thread t).hands

/-- How many events of a component are not freed. -/
def count (s : Fifos K M T) (k : K) : Nat := s.live.countP fun e => e.this == k

/-- How many events a component has made. -/
def allocated (s : Fifos K M T) (k : K) : Nat := s.made.countP fun e => e.this == k

end Fifos

/-- What holds of one component where the call on it stands. -/
structure BindOk (size : Nat) (pc : BindPc) (count allocated fifosize : Nat) (hasTop : Bool) :
    Prop where
  counted : count = fifosize
  tops : hasTop = pc.hasTop
  empty : pc.hasTop = false → fifosize = 0
  makes : pc.Makes size allocated fifosize

section Invariant
variable {K M T : Type} [DecidableEq K] [DecidableEq M] [DecidableEq T]
variable (binds : K → Bind M)

def Fifos.BinderOk (s : Fifos K M T) (k : K) : Prop :=
  BindOk (toUint8 (binds k).size) (s.binder k) (s.count k) (s.allocated k) (s.fifosize k)
    (s.top k).isSome

structure EventsOk (s : Fifos K M T) : Prop where
  kept : Kept s.contents s.live
  accounted : Accounted s.made s.live (s.freed.map Prod.snd)
  numbered : ∀ e ∈ s.made, e.id < s.made.length
  freedOwn : ∀ x ∈ s.freed, x.2.this = x.1
  own : ∀ k events, s.top k = some events → ∀ e ∈ events, e.this = k
  queued : ∀ q, ∀ e ∈ s.queue q, (e.priority, e.subpriority) = q
  bound : ∀ e ∈ s.live,
    (e.priority, e.subpriority) = ((binds e.this).priority, (binds e.this).subpriority)

/-- The events of a component stay in `TOP` while it is created, and nobody posts to it. -/
structure EvlInv (s : Fifos K M T) : Prop where
  events : EventsOk binds s
  binders : ∀ k, s.BinderOk binds k
  hidden : ∀ k, (s.binder k).creating = true → ∀ e ∈ s.live, e.this = k → e ∈ s.contents (.own k)
  posting : ∀ t k, s.thread t = .posting k → (s.binder k).creating = false

theorem evl_inv_start : EvlInv binds (.start : Fifos K M T) where
  events := by
    refine ⟨?_, ⟨List.nodup_nil, List.Perm.refl _⟩, ?_, ?_, ?_, ?_, ?_⟩
    · have hnone : (Fifos.start : Fifos K M T).contents = fun _ => [] := by
        funext p
        cases p <;> rfl
      rw [hnone]
      exact kept_nil
    · exact fun e he => absurd he List.not_mem_nil
    · exact fun x hx => absurd hx List.not_mem_nil
    · exact fun k events h => by cases h
    · exact fun q e he => absurd he List.not_mem_nil
    · exact fun e he => absurd he List.not_mem_nil
  binders := fun _ => ⟨rfl, rfl, fun _ => rfl, rfl⟩
  hidden := fun _ _ e he => absurd he List.not_mem_nil
  posting := fun _ _ h => nomatch h

end Invariant

section Contents
variable {K M T : Type} [DecidableEq K] [DecidableEq M] [DecidableEq T]

theorem contents_set_top (s : Fifos K M T) (k : K) (l : List (Event K M)) :
    { s with top := Function.update s.top k (some l) }.contents =
      Function.update s.contents (.own k) l := by
  unfold Fifos.contents
  rw [← spread_own]
  congr 1
  exact funext (Function.apply_update (fun _ events => events.getD []) s.top k (some l))

theorem contents_set_queue (s : Fifos K M T) (q : Int × Int) (l : List (Event K M)) :
    { s with queue := Function.update s.queue q l }.contents =
      Function.update s.contents (.shared q) l :=
  spread_shared _ s.queue _ l q

theorem contents_goto (s : Fifos K M T) (x : T) (pc : ThreadPc K M) :
    (s.goto x pc).contents = Function.update s.contents (.hands x) pc.hands := by
  unfold Fifos.contents
  rw [← spread_hands]
  congr 1
  exact funext (Function.apply_update (fun _ pc => pc.hands) s.thread x pc)

/-- A thread that has no event in its hands before and after. -/
theorem contents_goto_empty {s : Fifos K M T} {x : T} {pc : ThreadPc K M}
    (hbefore : (s.thread x).hands = []) (hafter : pc.hands = []) :
    (s.goto x pc).contents = s.contents := by
  rw [contents_goto, hafter]
  exact Function.update_eq_self_iff.mpr hbefore.symm

theorem top_contents {s : Fifos K M T} {k : K} {events : List (Event K M)}
    (htop : s.top k = some events) : s.contents (.own k) = events := by
  change (s.top k).getD [] = events
  rw [htop]
  rfl

end Contents

section Frames
variable {K M T : Type} [DecidableEq K] [DecidableEq M] [DecidableEq T]
variable {binds : K → Bind M} {s t : Fifos K M T} {k : K} {x : T}

theorem EventsOk.moved (h : EventsOk binds s) (hlive : t.live = s.live) (hmade : t.made = s.made)
    (hfreed : t.freed = s.freed) (kept : Kept t.contents s.live)
    (own : ∀ k events, t.top k = some events → ∀ e ∈ events, e.this = k)
    (queued : ∀ q, ∀ e ∈ t.queue q, (e.priority, e.subpriority) = q) : EventsOk binds t where
  kept := by
    rw [hlive]
    exact kept
  accounted := by
    rw [hlive, hmade, hfreed]
    exact h.accounted
  numbered := by
    rw [hmade]
    exact h.numbered
  freedOwn := by
    rw [hfreed]
    exact h.freedOwn
  own := own
  queued := queued
  bound := by
    rw [hlive]
    exact h.bound

theorem BinderOk.same (h : s.BinderOk binds k) (hbinder : t.binder k = s.binder k)
    (hcount : t.count k = s.count k) (hallocated : t.allocated k = s.allocated k)
    (hfifosize : t.fifosize k = s.fifosize k) (htop : (t.top k).isSome = (s.top k).isSome) :
    t.BinderOk binds k := by
  unfold Fifos.BinderOk
  rw [hbinder, hcount, hallocated, hfifosize, htop]
  exact h

/-- A thread steps: events are moved, and none leaves `TOP` of a component that is created. -/
theorem EvlInv.threads (hinv : EvlInv binds s) (hlive : t.live = s.live) (hmade : t.made = s.made)
    (hfreed : t.freed = s.freed) (hbinder : t.binder = s.binder) (hfifosize : t.fifosize = s.fifosize)
    (htops : ∀ k, (t.top k).isSome = (s.top k).isSome) (kept : Kept t.contents s.live)
    (own : ∀ k events, t.top k = some events → ∀ e ∈ events, e.this = k)
    (queued : ∀ q, ∀ e ∈ t.queue q, (e.priority, e.subpriority) = q)
    (hstay : ∀ k, (s.binder k).creating = true → ∀ e ∈ s.contents (.own k), e ∈ t.contents (.own k))
    (hposting : ∀ y k, t.thread y = .posting k → (s.binder k).creating = false) : EvlInv binds t where
  events := hinv.events.moved hlive hmade hfreed kept own queued
  binders := fun k => BinderOk.same (hinv.binders k) (congrFun hbinder k)
    (by rw [Fifos.count, hlive, Fifos.count]) (by rw [Fifos.allocated, hmade, Fifos.allocated])
    (congrFun hfifosize k) (htops k)
  hidden := by
    intro k hcreating e he hthis
    rw [hbinder] at hcreating
    rw [hlive] at he
    exact hstay k hcreating e (hinv.hidden k hcreating e he hthis)
  posting := by
    rw [hbinder]
    exact hposting

theorem posting_update {thread : T → ThreadPc K M} {P : K → Prop} {pc : ThreadPc K M}
    (h : ∀ y j, thread y = .posting j → P j) (hpc : ∀ j, pc = .posting j → P j) (y : T) (j : K)
    (hy : Function.update thread x pc y = .posting j) : P j := by
  by_cases hyx : y = x
  · subst hyx
    rw [Function.update_self] at hy
    exact hpc j hy
  · rw [Function.update_of_ne hyx] at hy
    exact h y j hy

/-- The call on a component steps. -/
theorem EvlInv.call (hinv : EvlInv binds s) (k : K) (events : EventsOk binds t)
    (mine : t.BinderOk binds k) (hcount : ∀ j, j ≠ k → t.count j = s.count j)
    (hallocated : ∀ j, j ≠ k → t.allocated j = s.allocated j)
    (hbinder : ∀ j, j ≠ k → t.binder j = s.binder j) (htop : ∀ j, j ≠ k → t.top j = s.top j)
    (hfifosize : ∀ j, j ≠ k → t.fifosize j = s.fifosize j) (hthread : t.thread = s.thread)
    (hlive : ∀ e ∈ t.live, e.this ≠ k → e ∈ s.live)
    (hhidden : (t.binder k).creating = true → ∀ e ∈ t.live, e.this = k → e ∈ t.contents (.own k))
    (hposting : (s.binder k).creating = false → (t.binder k).creating = false) : EvlInv binds t where
  events := events
  binders := by
    intro j
    by_cases hj : j = k
    · subst hj
      exact mine
    · exact BinderOk.same (hinv.binders j) (hbinder j hj) (hcount j hj) (hallocated j hj)
        (hfifosize j hj) (by rw [htop j hj])
  hidden := by
    intro j hcreating e he hthis
    by_cases hj : j = k
    · subst hj
      exact hhidden hcreating e he hthis
    · rw [hbinder j hj] at hcreating
      have hbefore := hinv.hidden j hcreating e (hlive e he fun heq => hj (hthis.symm.trans heq)) hthis
      change e ∈ (t.top j).getD []
      rw [htop j hj]
      exact hbefore
  posting := by
    intro y j hy
    rw [hthread] at hy
    have hbefore := hinv.posting y j hy
    by_cases hj : j = k
    · subst hj
      exact hposting hbefore
    · rw [hbinder j hj]
      exact hbefore

end Frames

section Threads
variable {K M T : Type} [DecidableEq K] [DecidableEq M] [DecidableEq T]
variable {binds : K → Bind M} {s t : Fifos K M T} {k : K} {x : T} {e : Event K M}

theorem goto_empty_inv {pc : ThreadPc K M} (hinv : EvlInv binds s)
    (hbefore : (s.thread x).hands = []) (hafter : pc.hands = []) (hpc : ∀ k, pc = .posting k → (s.binder k).creating = false) :
    EvlInv binds (s.goto x pc) := by
  have hcontents := contents_goto_empty hbefore hafter
  refine hinv.threads rfl rfl rfl rfl rfl (fun _ => rfl) ?_ hinv.events.own hinv.events.queued ?_
    (posting_update hinv.posting hpc)
  · rw [hcontents]
    exact hinv.events.kept
  · rw [hcontents]
    exact fun _ _ _ he => he

theorem panic_inv (hinv : EvlInv binds s) (reason : PanicReason) (k : K) :
    EvlInv binds (s.panic reason k) :=
  hinv.threads rfl rfl rfl rfl rfl (fun _ => rfl) hinv.events.kept hinv.events.own
    hinv.events.queued (fun _ _ _ he => he) hinv.posting

theorem state_inv (hinv : EvlInv binds s) (state : M → NmfState) :
    EvlInv binds { s with nmfState := state } :=
  hinv.threads rfl rfl rfl rfl rfl (fun _ => rfl) hinv.events.kept hinv.events.own
    hinv.events.queued (fun _ _ _ he => he) hinv.posting

theorem empty_hands (hempty : (s.thread x).hands = []) : s.contents (.hands x) ++ [e] = [e] := by
  change (s.thread x).hands ++ [e] = [e]
  rw [hempty]
  rfl

theorem pop_top_inv {rest : List (Event K M)} (hinv : EvlInv binds s) (hpc : s.thread x = .posting k)
    (htop : s.top k = some (e :: rest)) :
    EvlInv binds ({ s with top := Function.update s.top k (some rest) }.goto x (.sending e)) := by
  have hown := hinv.events.own k _ htop
  have hempty : (s.thread x).hands = [] := by
    rw [hpc]
    rfl
  have hsome : (s.top k).isSome = true := Option.isSome_of_eq_some htop
  have hkept := hinv.events.kept.move (q := .hands x) (p := .own k) (fun h => nomatch h)
    (List.Perm.of_eq (top_contents htop))
  rw [empty_hands hempty, ← contents_set_top] at hkept
  refine hinv.threads rfl rfl rfl rfl rfl (isSome_update hsome) ?_
    (forall_mem_update_some hinv.events.own fun a ha => hown a (List.mem_cons_of_mem e ha))
    hinv.events.queued ?_ (posting_update hinv.posting (fun _ h => nomatch h))
  · rw [contents_goto]
    exact hkept
  · -- nobody posts to a component that is created
    intro j hcreating a ha
    have hj : j ≠ k := by
      rintro rfl
      rw [hinv.posting x j hpc] at hcreating
      cases hcreating
    change a ∈ (Function.update s.top k (some rest) j).getD []
    rw [Function.update_of_ne hj]
    exact ha

theorem send_inv (hinv : EvlInv binds s) (hpc : s.thread x = .sending e) :
    EvlInv binds ({ s with
      queue := Function.update s.queue (e.priority, e.subpriority)
        (s.queue (e.priority, e.subpriority) ++ [e]) }.goto x .idle) := by
  have hhands : s.contents (.hands x) = [e] := congrArg ThreadPc.hands hpc
  have hkept := hinv.events.kept.move (q := .shared (e.priority, e.subpriority)) (p := .hands x)
    (fun h => nomatch h)
    (List.Perm.of_eq hhands)
  rw [Function.update_comm (by exact (fun h => nomatch h))] at hkept
  refine hinv.threads rfl rfl rfl rfl rfl (fun _ => rfl) ?_ hinv.events.own
    (forall_mem_update hinv.events.queued fun a ha => ?_) (fun _ _ _ ha => ha)
    (posting_update hinv.posting (fun _ h => nomatch h))
  · rw [contents_goto, contents_set_queue]
    exact hkept
  · rcases List.mem_append.mp ha with ha | ha
    · exact hinv.events.queued _ a ha
    · rw [List.mem_singleton.mp ha]

theorem push_top_inv {events : List (Event K M)} (hinv : EvlInv binds s)
    (hpc : s.thread x = .executing e) (htop : s.top e.this = some events) :
    EvlInv binds ({ s with
      top := Function.update s.top e.this (some (events ++ [e])) }.goto x (.testing e.this)) := by
  have hhands : s.contents (.hands x) = [e] := congrArg ThreadPc.hands hpc
  have hsome : (s.top e.this).isSome = true := Option.isSome_of_eq_some htop
  have hkept := hinv.events.kept.move (q := .own e.this) (p := .hands x) (fun h => nomatch h)
    (List.Perm.of_eq hhands)
  rw [Function.update_comm (by exact (fun h => nomatch h)), top_contents htop] at hkept
  refine hinv.threads rfl rfl rfl rfl rfl (isSome_update hsome) ?_
    (forall_mem_update_some hinv.events.own fun a ha => ?_) hinv.events.queued ?_
    (posting_update hinv.posting (fun _ h => nomatch h))
  · rw [contents_goto, contents_set_top]
    exact hkept
  · rcases List.mem_append.mp ha with ha | ha
    · exact hinv.events.own _ events htop a ha
    · rw [List.mem_singleton.mp ha]
  · intro j _ a ha
    change a ∈ (Function.update s.top e.this (some (events ++ [e])) j).getD []
    by_cases hj : j = e.this
    · subst hj
      rw [top_contents htop] at ha
      rw [Function.update_self]
      exact List.mem_append_left _ ha
    · rw [Function.update_of_ne hj]
      exact ha

theorem get_next_event_inv {q : Int × Int} {locked : M → Bool} (hinv : EvlInv binds s)
    (hidle : s.thread x = .idle) : EvlInv binds (s.getNextEvent x q locked) := by
  unfold Fifos.getNextEvent
  rcases pop_matching_cases (fun event => !locked event.mutexHandle) (s.queue q) with
    ⟨-, hpop⟩ | ⟨front, e, back, hqueue, -, -, hpop⟩
  · rw [hpop]
    exact hinv
  · have hempty : (s.thread x).hands = [] := by
      rw [hidle]
      rfl
    have hperm : (s.contents (.shared q)).Perm (e :: (front ++ back)) := by
      change (s.queue q).Perm _
      rw [hqueue]
      exact List.perm_middle
    have hqueued := hinv.events.queued q
    rw [hqueue] at hqueued
    have hkept := hinv.events.kept.move (q := .hands x) (p := .shared q) (fun h => nomatch h) hperm
    rw [empty_hands hempty, ← contents_set_queue] at hkept
    rw [hpop]
    refine hinv.threads rfl rfl rfl rfl rfl (fun _ => rfl) ?_ hinv.events.own
      (forall_mem_update hinv.events.queued fun a ha => hqueued a ?_) (fun _ _ _ ha => ha)
      (posting_update hinv.posting (fun _ h => nomatch h))
    · rw [contents_goto]
      exact hkept
    · exact (List.perm_middle.mem_iff).mpr (List.mem_cons_of_mem e ha)

theorem thread_inv (hinv : EvlInv binds s) (h : s.threadStep x = some t) : EvlInv binds t := by
  unfold Fifos.threadStep at h
  cases hpc : s.thread x with
  | idle =>
    rw [hpc] at h
    cases h
  | posting k =>
    rw [hpc] at h
    obtain ⟨events, htop, rfl⟩ := Option.map_eq_some_iff.mp h
    cases events with
    | nil =>
      refine goto_empty_inv (panic_inv hinv .eventFifoOverflow k) ?_ rfl (fun _ h => nomatch h)
      exact congrArg ThreadPc.hands hpc
    | cons e rest => exact pop_top_inv hinv hpc htop
  | sending e =>
    rw [hpc] at h
    cases h
    exact send_inv hinv hpc
  | executing e =>
    rw [hpc] at h
    obtain ⟨events, htop, rfl⟩ := Option.map_eq_some_iff.mp h
    exact push_top_inv hinv hpc htop
  | testing self =>
    rw [hpc] at h
    cases h
    exact goto_empty_inv hinv (congrArg ThreadPc.hands hpc) rfl (fun _ h => nomatch h)

end Threads

end Codinalte.Bindings.Evl
