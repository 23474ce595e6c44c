import Codinalte.Lib.LinkedList

/-! The event lists of the media processor schedulers: one list for each priority, linked through
the events themselves. -/

namespace Codinalte.Mpc
open Codinalte.LinkedList

def maxSchedPriority : Int := 3

/-- `A` is the type of addresses of events. -/
structure EventLists (A : Type) where
  next : A → Option A
  firstEvent : Int → Option A
  lastEvent : Int → Option A

variable {A : Type} [DecidableEq A]

/-- `none` is a store through NULL. -/
def lowSchedEvent (m : EventLists A) (event : A) (priority : Int) : Option (EventLists A) :=
  match m.firstEvent priority with
  | some _ => (m.lastEvent priority).map fun last =>
    { m with
      next := Function.update (Function.update m.next event none) last (some event)
      lastEvent := Function.update m.lastEvent priority (some event) }
  | none => some
    { next := Function.update m.next event none
      firstEvent := Function.update m.firstEvent priority (some event)
      lastEvent := Function.update m.lastEvent priority (some event) }

/-- The loop head of the schedulers takes the first event out of its list. -/
def takeFirstEvent (m : EventLists A) (priority : Int) : Option (A × EventLists A) :=
  (m.firstEvent priority).map fun event =>
    (event, { m with firstEvent := Function.update m.firstEvent priority (m.next event) })

/-- The memory holds the lists `queue`; no event is in two of them. -/
structure HoldsEvents (m : EventLists A) (queue : Int → List A) : Prop where
  chain : ∀ p, Chain m.next (m.firstEvent p) (queue p)
  last : ∀ p, ∀ x ∈ (queue p).getLast?, m.lastEvent p = some x
  nodup : ∀ p, (queue p).Nodup
  disjoint : ∀ p q x, x ∈ queue p → x ∈ queue q → p = q

section Lists
variable {m : EventLists A} {queue : Int → List A} {event : A}

omit [DecidableEq A] in
theorem holds_events_push {next : A → Option A} {firstEvent : Int → Option A} (priority : Int)
    (h : HoldsEvents m queue) (hnew : ∀ p, event ∉ queue p)
    (hother : ∀ p, p ≠ priority → Chain next (firstEvent p) (queue p))
    (hchain : Chain next (firstEvent priority) (queue priority ++ [event])) :
    HoldsEvents ⟨next, firstEvent, Function.update m.lastEvent priority (some event)⟩
      (Function.update queue priority (queue priority ++ [event])) := by
  have hmem : ∀ p x, x ∈ Function.update queue priority (queue priority ++ [event]) p →
      x ∈ queue p ∨ x = event ∧ p = priority := by
    intro p x hx
    by_cases hp : p = priority
    · subst hp
      rw [Function.update_self, List.mem_append, List.mem_singleton] at hx
      exact hx.imp id fun heq => ⟨heq, rfl⟩
    · rw [Function.update_of_ne hp] at hx
      exact .inl hx
  refine ⟨?_, ?_, ?_, ?_⟩
  · intro p
    by_cases hp : p = priority
    · subst hp
      rw [Function.update_self]
      exact hchain
    · rw [Function.update_of_ne hp]
      exact hother p hp
  · intro p x hx
    show Function.update m.lastEvent priority (some event) p = some x
    by_cases hp : p = priority
    · subst hp
      rw [Function.update_self, List.getLast?_concat] at hx
      rw [Function.update_self]
      exact hx
    · rw [Function.update_of_ne hp] at hx ⊢
      exact h.last p x hx
  · intro p
    by_cases hp : p = priority
    · subst hp
      rw [Function.update_self]
      apply (h.nodup p).append (List.nodup_singleton event)
      rw [List.disjoint_singleton]
      exact hnew p
    · rw [Function.update_of_ne hp]
      exact h.nodup p
  · intro p q x hp hq
    rcases hmem p x hp with hin | ⟨hx, rfl⟩
    · rcases hmem q x hq with hin' | ⟨hx, -⟩
      · exact h.disjoint p q x hin hin'
      · exact absurd (hx ▸ hin) (hnew p)
    · rcases hmem q x hq with hin | ⟨-, rfl⟩
      · exact absurd (hx ▸ hin) (hnew q)
      · rfl

/-- An event in no list is appended to the list of its priority. -/
theorem low_sched_event_holds (priority : Int) (h : HoldsEvents m queue)
    (hnew : ∀ p, event ∉ queue p) :
    ∃ m', lowSchedEvent m event priority = some m' ∧
      HoldsEvents m' (Function.update queue priority (queue priority ++ [event])) := by
  have hkept : ∀ p, Chain (Function.update m.next event none) (m.firstEvent p) (queue p) :=
    fun p => chain_update_of_notMem (h.chain p) (hnew p)
  unfold lowSchedEvent
  rcases List.eq_nil_or_concat' (queue priority) with hnil | ⟨front, last, hsnoc⟩
  · have hfirst : m.firstEvent priority = none := by
      have hchain := h.chain priority
      rw [hnil] at hchain
      exact hchain
    rw [hfirst]
    refine ⟨_, rfl, holds_events_push priority h hnew ?_ ?_⟩
    · intro p hp
      rw [Function.update_of_ne hp]
      exact hkept p
    · rw [hnil, Function.update_self]
      exact ⟨rfl, Function.update_self ..⟩
  · have hchain := h.chain priority
    have hnodup := h.nodup priority
    have hevent := hnew priority
    rw [hsnoc] at hchain hnodup hevent
    obtain ⟨first, hfirst⟩ := chain_first hchain
    have hlast : m.lastEvent priority = some last := h.last priority last (by
      rw [hsnoc, List.getLast?_concat]
      rfl)
    rw [hfirst, hlast]
    refine ⟨_, rfl, holds_events_push priority h hnew ?_ ?_⟩
    · intro p hp
      apply chain_update_of_notMem (hkept p)
      intro hmem
      apply hp
      apply h.disjoint p priority last hmem
      rw [hsnoc]
      exact List.mem_append_right _ (List.mem_singleton_self _)
    · rw [hsnoc]
      exact chain_push hchain hnodup hevent

omit [DecidableEq A] in
/-- The first event leaves its list. -/
theorem take_first_event_holds {rest : List A} (priority : Int) (h : HoldsEvents m queue)
    (hqueue : queue priority = event :: rest) :
    ∃ m', takeFirstEvent m priority = some (event, m') ∧
      HoldsEvents m' (Function.update queue priority rest) := by
  have hchain := h.chain priority
  rw [hqueue] at hchain
  obtain ⟨hfirst, hrest⟩ := hchain
  have hsub : ∀ p x, x ∈ Function.update queue priority rest p → x ∈ queue p := by
    intro p x hx
    by_cases hp : p = priority
    · subst hp
      rw [Function.update_self] at hx
      rw [hqueue]
      exact List.mem_cons_of_mem _ hx
    · rw [Function.update_of_ne hp] at hx
      exact hx
  unfold takeFirstEvent
  rw [hfirst]
  refine ⟨_, rfl, ?_, ?_, ?_, fun p q x hp hq => h.disjoint p q x (hsub p x hp) (hsub q x hq)⟩
  · intro p
    show Chain m.next (Function.update m.firstEvent priority (m.next event) p) _
    by_cases hp : p = priority
    · subst hp
      rw [Function.update_self, Function.update_self]
      exact hrest
    · rw [Function.update_of_ne hp, Function.update_of_ne hp]
      exact h.chain p
  · intro p x hx
    apply h.last p x
    by_cases hp : p = priority
    · subst hp
      rw [Function.update_self] at hx
      rw [hqueue]
      cases rest with
      | nil => cases hx
      | cons y rest => exact hx
    · rw [Function.update_of_ne hp] at hx
      exact hx
  · intro p
    by_cases hp : p = priority
    · subst hp
      have hnodup := h.nodup p
      rw [hqueue] at hnodup
      rw [Function.update_self]
      exact hnodup.of_cons
    · rw [Function.update_of_ne hp]
      exact h.nodup p

end Lists

end Codinalte.Mpc
