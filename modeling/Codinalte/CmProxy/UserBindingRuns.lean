import Codinalte.CmProxy.UserBindings
import Mathlib.Data.List.Nodup

/-! Each skeleton context has one holder at a time, the call that binds, the driver or the call that
unbinds, as long as nobody else touches it between the driver's answer and the store of the client
context. -/

namespace Codinalte.CmProxy.UserBindings
open Codinalte.Machine
variable {C J : Type}

/-- The call has stored the client context. -/
def BindStage.Written : BindStage → Prop
  | .closeComponents => True
  | .bound => True
  | _ => False

/-- The skeleton context that the call alone knows of. -/
def BindStage.own : BindStage → Option Address
  | .getSkel p => some p
  | .openComponents p => some p
  | .bindToCore p => some p
  | .free p _ => some p
  | _ => none

/-- The one that it still stores to although the driver has it. -/
def BindStage.shared : BindStage → Option Address
  | .storeId p _ => some p
  | .storeContext p => some p
  | _ => none

/-- The call has freed its skeleton context and returned an error. -/
def BindStage.Failed (stage : BindStage) : Prop := ∃ error, stage = .failed error

/-- There is no skeleton context yet. -/
def BindStage.Early : BindStage → Prop
  | .requiredFiles => True
  | .alloc => True
  | .refused _ => True
  | _ => False

/-- Whether the table was found goes with the stage. -/
def BindCall.Sound (call : BindCall C J) : Prop :=
  match call.stage with
  | .requiredFiles => call.jumpMethods = none
  | .alloc => call.jumpMethods = none
  | .getSkel _ => call.jumpMethods = none
  | .openComponents _ => call.jumpMethods.isSome
  | .bindToCore _ => call.jumpMethods.isSome
  | .storeId _ _ => call.jumpMethods.isSome
  | .storeContext _ => call.jumpMethods.isSome
  | .closeComponents => call.jumpMethods.isSome
  | .bound => call.jumpMethods.isSome
  | _ => True

/-- The consumer has got a message of the binding and not executed it yet. -/
def Consumer.Carries (b : Nat) (p : Address) : Consumer → Prop
  | .readContext (.itf b' p' _) => b' = b ∧ p' = p
  | .executeMessage (.itf b' p' _) => b' = b ∧ p' = p
  | _ => False

/-- The binding that the call has taken from the driver, and its skeleton context. -/
def UnbindStage.taken : UnbindStage → Option (Nat × Address)
  | .readContext b p => some (b, p)
  | .free b p => some (b, p)
  | _ => none

namespace State

def Stored (s : State C J) (b : Nat) : Prop :=
  ∃ call, s.binds b = some call ∧ call.stage.Written

def unbinding (s : State C J) (u : Nat) : Option (Nat × Address) :=
  (s.unbinds u).bind fun call => call.stage.taken

end State

/-- A binding is unbound only when the consumer is not between getting and executing one of its
messages. -/
def Assumed (s : State C J) : Action C J → Prop
  | .unbind _ (.unbindComponentToCMCore error b) =>
    error = .ok ∨ error = .mpcNotResponding → ∀ p, ¬ s.consumer.Carries b p
  | _ => True

/-- The consumer does not turn to the client context of a binding, nor an unbind call to its
skeleton context, before the call that binds has stored the client context. -/
def Settled (s : State C J) : Action C J → Prop
  | .unbind u .readContext => ∀ b p, s.unbinding u = some (b, p) → s.Stored b
  | .unbind u .free => ∀ b p, s.unbinding u = some (b, p) → s.Stored b
  | .consume .readContext => ∀ b p, s.consumer.Carries b p → s.Stored b
  | _ => True

structure Correct (s : State C J) : Prop where
  executed : ∀ x ∈ s.executed, ∃ call, s.binds x.1 = some call ∧ call.jumpMethods.isSome ∧
    x.2 = call.jumpMethods
  returned : ∀ x ∈ s.returned, ∃ call, s.binds x.1 = some call ∧
    x.2 = some call.arguments.clientContext
  faults : s.faults = []
  once : (s.freed.map Prod.fst).Nodup
  byBind : ∀ b, (b, Freer.bind) ∈ s.freed ↔
    ∃ call, s.binds b = some call ∧ call.stage.Failed
  byUnbind : ∀ b u, (b, Freer.unbind u) ∈ s.freed ↔
    ∃ call, s.unbinds u = some call ∧ call.stage = .unbound b

inductive Holder where
  | binder
  | driver
  | unbinder (u : Nat)
deriving DecidableEq

/-- The skeleton context of the call lies there, as far as it was written. -/
def Lies (s : State C J) (b : Nat) (call : BindCall C J) (p : Address) : Prop :=
  ∃ sk, s.heap p = some sk ∧ sk.owner = b ∧ sk.jumpMethods = call.jumpMethods ∧
    (call.stage.Written → sk.clientContext = some call.arguments.clientContext)

/-- Where the skeleton context of a call is held. -/
def At (s : State C J) (b : Nat) : Option Holder → Prop
  | none => s.registered b = none ∧ (∀ u p, s.unbinding u ≠ some (b, p)) ∧
    ∀ call, s.binds b = some call → call.stage.own = none ∧ call.stage.shared = none
  | some .binder => s.registered b = none ∧ (∀ u p, s.unbinding u ≠ some (b, p)) ∧
    ∃ call p, s.binds b = some call ∧ call.stage.own = some p ∧ Lies s b call p
  | some .driver => (∀ u p, s.unbinding u ≠ some (b, p)) ∧
    ∃ call p, s.binds b = some call ∧ s.registered b = some p ∧ Lies s b call p ∧
      (call.stage.shared = some p ∨ call.stage.Written)
  | some (.unbinder u) => s.registered b = none ∧ (∀ v p, s.unbinding v = some (b, p) → v = u) ∧
    ∃ call p, s.binds b = some call ∧ s.unbinding u = some (b, p) ∧ Lies s b call p ∧
      (call.stage.shared = some p ∨ call.stage.Written)

/-- Nothing but what concerns one call has changed. -/
structure Apart (s t : State C J) (b : Nat) : Prop where
  binds : ∀ c ≠ b, t.binds c = s.binds c
  registered : ∀ c ≠ b, t.registered c = s.registered c
  unbinding : ∀ c ≠ b, ∀ u p, t.unbinding u = some (c, p) ↔ s.unbinding u = some (c, p)
  heap : ∀ p sk, s.heap p = some sk → sk.owner ≠ b → t.heap p = some sk

theorem Lies.apart {s t : State C J} {b c : Nat} {call : BindCall C J} {p : Address}
    (hlies : Lies s c call p) (h : Apart s t b) (hne : c ≠ b) : Lies t c call p := by
  obtain ⟨sk, hsk, rfl, hrest⟩ := hlies
  exact ⟨sk, h.heap p sk hsk hne, rfl, hrest⟩

theorem At.apart {s t : State C J} {b c : Nat} {k : Option Holder} (hat : At s c k)
    (h : Apart s t b) (hne : c ≠ b) : At t c k := by
  have hbinds := h.binds c hne
  have hregistered := h.registered c hne
  have hunbinding := h.unbinding c hne
  cases k with
  | none =>
    obtain ⟨hnone, hfree, hstage⟩ := hat
    refine ⟨hregistered.trans hnone, fun u p hu => hfree u p ((hunbinding u p).mp hu), ?_⟩
    rw [hbinds]
    exact hstage
  | some holder =>
    cases holder with
    | binder =>
      obtain ⟨hnone, hfree, call, p, hcall, hown, hlies⟩ := hat
      exact ⟨hregistered.trans hnone, fun u p hu => hfree u p ((hunbinding u p).mp hu),
        call, p, hbinds.trans hcall, hown, hlies.apart h hne⟩
    | driver =>
      obtain ⟨hfree, call, p, hcall, hp, hlies, hstage⟩ := hat
      exact ⟨fun u p hu => hfree u p ((hunbinding u p).mp hu), call, p, hbinds.trans hcall,
        hregistered.trans hp, hlies.apart h hne, hstage⟩
    | unbinder u =>
      obtain ⟨hnone, honly, call, p, hcall, hu, hlies, hstage⟩ := hat
      exact ⟨hregistered.trans hnone, fun v p hv => honly v p ((hunbinding v p).mp hv), call, p,
        hbinds.trans hcall, (hunbinding u p).mpr hu, hlies.apart h hne, hstage⟩

/-- Each skeleton context is where `holder` says. -/
structure Held (s : State C J) (holder : Nat → Option Holder) : Prop where
  at_ : ∀ b, At s b (holder b)
  sound : ∀ b call, s.binds b = some call → call.Sound

/-- What has been recorded is right, and what has been freed is held by nobody. -/
structure Recorded (s : State C J) (holder : Nat → Option Holder) : Prop where
  holds : ∀ b p, s.consumer.Carries b p → s.registered b = some p
  correct : Correct s
  gone : ∀ b, b ∈ s.freed.map Prod.fst → holder b = none ∧
    ∃ call, s.binds b = some call ∧ ¬ call.stage.Early

def Inv (s : State C J) : Prop := ∃ holder, Held s holder ∧ Recorded s holder

theorem inv_init : Inv (.init : State C J) := by
  have hnone : ∀ {α : Type} {a : α}, none ≠ some a := fun h => absurd h.symm (Option.some_ne_none _)
  refine ⟨fun _ => none, ⟨fun b => ⟨rfl, fun _ _ => hnone, fun _ h => absurd h hnone⟩,
    fun _ _ h => absurd h hnone⟩, ⟨fun b p h => h.elim, ?_, List.forall_mem_nil _⟩⟩
  · refine ⟨(fun _ h => nomatch h), (fun _ h => nomatch h), rfl, List.nodup_nil, ?_, ?_⟩
    · exact fun b => iff_of_false (fun h => nomatch h) (fun ⟨_, h, _⟩ => nomatch h)
    · exact fun b u => iff_of_false (fun h => nomatch h) (fun ⟨_, h, _⟩ => nomatch h)

/-- What a call that goes on keeps. -/
structure BindCall.Onward (call call' : BindCall C J) : Prop where
  arguments : call'.arguments = call.arguments
  jumpMethods : call.jumpMethods.isSome → call'.jumpMethods = call.jumpMethods
  written : call.stage.Written → call'.stage.Written
  early : ¬ call.stage.Early → ¬ call'.stage.Early

theorem BindCall.Onward.refl (call : BindCall C J) : call.Onward call := ⟨rfl, fun _ => rfl, id, id⟩

/-- No call is taken back, and none fails or is unbound. -/
structure Onward (s t : State C J) : Prop where
  binds : ∀ b call, s.binds b = some call → ∃ call', t.binds b = some call' ∧ call.Onward call'
  failed : ∀ b, (∃ call, t.binds b = some call ∧ call.stage.Failed) ↔
    ∃ call, s.binds b = some call ∧ call.stage.Failed
  unbound : ∀ b u, (∃ call, t.unbinds u = some call ∧ call.stage = .unbound b) ↔
    ∃ call, s.unbinds u = some call ∧ call.stage = .unbound b

/-- What stays of the record. -/
structure SameRecord (s t : State C J) : Prop where
  returned : t.returned = s.returned
  executed : t.executed = s.executed
  freed : t.freed = s.freed
  faults : t.faults = s.faults

/-- The record grows by what has been freed. -/
theorem Correct.extend {s t : State C J} {new : List (Nat × Freer)} (hcorrect : Correct s)
    (honward : ∀ b call, s.binds b = some call →
      ∃ call', t.binds b = some call' ∧ call.Onward call')
    (hreturned : t.returned = s.returned) (hexecuted : t.executed = s.executed)
    (hfaults : t.faults = s.faults) (hfreed : t.freed = s.freed ++ new)
    (honce : ((s.freed ++ new).map Prod.fst).Nodup)
    (hbind : ∀ b, (∃ call, t.binds b = some call ∧ call.stage.Failed) ↔
      (∃ call, s.binds b = some call ∧ call.stage.Failed) ∨ (b, .bind) ∈ new)
    (hunbind : ∀ b u, (∃ call, t.unbinds u = some call ∧ call.stage = .unbound b) ↔
      (∃ call, s.unbinds u = some call ∧ call.stage = .unbound b) ∨ (b, .unbind u) ∈ new) :
    Correct t where
  executed := by
    rw [hexecuted]
    intro x hx
    obtain ⟨call, hcall, hsome, htable⟩ := hcorrect.executed x hx
    obtain ⟨call', hcall', honward⟩ := honward x.1 call hcall
    have hsame := honward.jumpMethods hsome
    exact ⟨call', hcall', hsame ▸ hsome, htable.trans hsame.symm⟩
  returned := by
    rw [hreturned]
    intro x hx
    obtain ⟨call, hcall, hcontext⟩ := hcorrect.returned x hx
    obtain ⟨call', hcall', honward⟩ := honward x.1 call hcall
    exact ⟨call', hcall', hcontext.trans (by rw [honward.arguments])⟩
  faults := hfaults.trans hcorrect.faults
  once := hfreed ▸ honce
  byBind := by
    intro b
    rw [hfreed, List.mem_append, hcorrect.byBind, hbind]
  byUnbind := by
    intro b u
    rw [hfreed, List.mem_append, hcorrect.byUnbind, hunbind]

theorem Correct.onward {s t : State C J} (hcorrect : Correct s) (h : Onward s t)
    (hrecord : SameRecord s t) : Correct t := by
  refine hcorrect.extend h.binds hrecord.returned hrecord.executed hrecord.faults
    (hrecord.freed.trans (List.append_nil _).symm) ?_ ?_ ?_
  · rw [List.append_nil]
    exact hcorrect.once
  · intro b
    simp only [List.not_mem_nil, or_false]
    exact h.failed b
  · intro b u
    simp only [List.not_mem_nil, or_false]
    exact h.unbound b u

theorem Recorded.onward {s t : State C J} {holder holder' : Nat → Option Holder}
    (hrecorded : Recorded s holder) (h : Onward s t) (hrecord : SameRecord s t)
    (hconsumer : t.consumer = s.consumer)
    (hregistered : ∀ b p, s.consumer.Carries b p → s.registered b = some p → t.registered b = some p)
    (hgone : ∀ b, b ∈ s.freed.map Prod.fst → holder' b = none) : Recorded t holder' where
  holds := by
    rw [hconsumer]
    intro b p hcarries
    exact hregistered b p hcarries (hrecorded.holds b p hcarries)
  correct := hrecorded.correct.onward h hrecord
  gone := by
    rw [hrecord.freed]
    intro b hb
    obtain ⟨-, call, hcall, hlate⟩ := hrecorded.gone b hb
    obtain ⟨call', hcall', honward⟩ := h.binds b call hcall
    exact ⟨hgone b hb, call', hcall', honward.early hlate⟩

section Stages
variable {s : State C J} {b : Nat} {call : BindCall C J} {p : Address} {k : Option Holder}

theorem BindStage.Written.unheld {stage : BindStage} (h : stage.Written) :
    stage.own = none ∧ stage.shared = none ∧ ¬ stage.Early ∧ ¬ stage.Failed := by
  cases stage with
  | closeComponents => exact ⟨rfl, rfl, id, fun ⟨_, h⟩ => nomatch h⟩
  | bound => exact ⟨rfl, rfl, id, fun ⟨_, h⟩ => nomatch h⟩
  | _ => exact absurd h id

theorem BindStage.own_shared {stage : BindStage} (h : stage.own = some p) :
    stage.shared = none := by
  cases stage <;> first | rfl | cases h

theorem BindStage.handed {stage : BindStage} (h : stage.shared = some p ∨ stage.Written) :
    stage.own = none ∧ ¬ stage.Early ∧ ¬ stage.Failed := by
  rcases h with hshared | hwritten
  · cases stage with
    | storeId => exact ⟨rfl, id, fun ⟨_, h⟩ => (nomatch h)⟩
    | storeContext => exact ⟨rfl, id, fun ⟨_, h⟩ => (nomatch h)⟩
    | _ => cases hshared
  · exact ⟨hwritten.unheld.1, hwritten.unheld.2.2.1, hwritten.unheld.2.2.2⟩

/-- The call that still holds its skeleton context alone. -/
theorem At.own (h : At s b k) (hcall : s.binds b = some call) (hown : call.stage.own = some p) :
    k = some .binder ∧ s.registered b = none ∧ (∀ u p, s.unbinding u ≠ some (b, p)) ∧
      Lies s b call p := by
  cases k with
  | none =>
    have hnone := (h.2.2 call hcall).1
    rw [hown] at hnone
    cases hnone
  | some holder =>
    cases holder with
    | binder =>
      obtain ⟨hnone, hfree, call', p', hcall', hown', hlies⟩ := h
      cases hcall.symm.trans hcall'
      cases hown.symm.trans hown'
      exact ⟨rfl, hnone, hfree, hlies⟩
    | driver =>
      obtain ⟨-, call', p', hcall', -, -, hstage⟩ := h
      cases hcall.symm.trans hcall'
      cases hown.symm.trans (BindStage.handed hstage).1
    | unbinder u =>
      obtain ⟨-, -, call', p', hcall', -, -, hstage⟩ := h
      cases hcall.symm.trans hcall'
      cases hown.symm.trans (BindStage.handed hstage).1

theorem BindStage.handed_shared {q : Address} {stage : BindStage} (hshared : stage.shared = some p)
    (h : stage.shared = some q ∨ stage.Written) : p = q := by
  rcases h with hsame | hwritten
  · exact Option.some_injective _ (hshared.symm.trans hsame)
  · cases hshared.symm.trans hwritten.unheld.2.1

/-- The call that stores to the skeleton context that it has given away. -/
theorem At.shared (h : At s b k) (hcall : s.binds b = some call)
    (hshared : call.stage.shared = some p) : k ≠ none ∧ Lies s b call p := by
  cases k with
  | none =>
    have hnone := (h.2.2 call hcall).2
    rw [hshared] at hnone
    cases hnone
  | some holder =>
    cases holder with
    | binder =>
      obtain ⟨-, -, call', p', hcall', hown, -⟩ := h
      cases hcall.symm.trans hcall'
      rw [BindStage.own_shared hown] at hshared
      cases hshared
    | driver =>
      obtain ⟨-, call', p', hcall', -, hlies, hstage⟩ := h
      cases hcall.symm.trans hcall'
      cases BindStage.handed_shared hshared hstage
      exact ⟨(fun h => nomatch h), hlies⟩
    | unbinder u =>
      obtain ⟨-, -, call', p', hcall', -, hlies, hstage⟩ := h
      cases hcall.symm.trans hcall'
      cases BindStage.handed_shared hshared hstage
      exact ⟨(fun h => nomatch h), hlies⟩

/-- A binding that the driver has. -/
theorem At.registered (h : At s b k) (hp : s.registered b = some p) :
    k = some .driver ∧ (∀ u p, s.unbinding u ≠ some (b, p)) ∧ ∃ call, s.binds b = some call ∧
      Lies s b call p ∧ (call.stage.shared = some p ∨ call.stage.Written) := by
  cases k with
  | none => cases hp.symm.trans h.1
  | some holder =>
    cases holder with
    | binder => cases hp.symm.trans h.1
    | driver =>
      obtain ⟨hfree, call, p', hcall, hp', hlies, hstage⟩ := h
      cases hp.symm.trans hp'
      exact ⟨rfl, hfree, call, hcall, hlies, hstage⟩
    | unbinder u => cases hp.symm.trans h.1

/-- A binding that an unbind call has taken. -/
theorem At.unbinding {u : Nat} (h : At s b k) (hu : s.unbinding u = some (b, p)) :
    k = some (.unbinder u) ∧ s.registered b = none ∧
      (∀ v p, s.unbinding v = some (b, p) → v = u) ∧
      ∃ call, s.binds b = some call ∧ Lies s b call p ∧
        (call.stage.shared = some p ∨ call.stage.Written) := by
  cases k with
  | none => exact absurd hu (h.2.1 u p)
  | some holder =>
    cases holder with
    | binder => exact absurd hu (h.2.1 u p)
    | driver => exact absurd hu (h.1 u p)
    | unbinder v =>
      obtain ⟨hnone, honly, call, p', hcall, hv, hlies, hstage⟩ := h
      have huv := honly u p hu
      subst huv
      cases hu.symm.trans hv
      exact ⟨rfl, hnone, honly, call, hcall, hlies, hstage⟩

end Stages

section Steps
variable {s t u : State C J} {holder : Nat → Option Holder} {b : Nat} {call call' : BindCall C J}

/-- Only the memory and the registration of one binding have changed. -/
structure Only (s u : State C J) (b : Nat) : Prop where
  binds : u.binds = s.binds
  unbinds : u.unbinds = s.unbinds
  consumer : u.consumer = s.consumer
  registered : ∀ c ≠ b, u.registered c = s.registered c
  heap : ∀ p sk, s.heap p = some sk → sk.owner ≠ b → u.heap p = some sk

theorem unbinding_congr (h : t.unbinds = s.unbinds) (v : Nat) : t.unbinding v = s.unbinding v := by
  unfold State.unbinding
  rw [h]

theorem Only.unbinding (h : Only s u b) (v : Nat) :
    (u.setBind b call').unbinding v = s.unbinding v := unbinding_congr h.unbinds v

theorem Only.apart (h : Only s u b) : Apart s (u.setBind b call') b where
  binds := by
    intro c hne
    exact (Function.update_of_ne hne _ _).trans (congrFun h.binds c)
  registered := h.registered
  unbinding := by
    intro c _ v p
    rw [h.unbinding]
  heap := h.heap

theorem Only.refl (s : State C J) (b : Nat) : Only s s b :=
  ⟨rfl, rfl, rfl, fun _ _ => rfl, fun _ _ hp _ => hp⟩

theorem setBind_self (u : State C J) : (u.setBind b call').binds b = some call' :=
  Function.update_self ..

theorem Held.setBind (hheld : Held s holder) (h : Only s u b) (hsound : call'.Sound)
    {k : Option Holder} (hat : At (u.setBind b call') b k) :
    Held (u.setBind b call') (Function.update holder b k) where
  at_ := by
    intro c
    by_cases hc : c = b
    · subst hc
      rw [Function.update_self]
      exact hat
    · rw [Function.update_of_ne hc]
      exact (hheld.at_ c).apart h.apart hc
  sound := by
    intro c call hcall
    by_cases hc : c = b
    · subst hc
      cases hcall.symm.trans (setBind_self u)
      exact hsound
    · rw [h.apart.binds c hc] at hcall
      exact hheld.sound c call hcall

theorem Only.calls (h : Only s u b) (hcall : s.binds b = some call) (honward : call.Onward call')
    (c : Nat) (before : BindCall C J) (hbefore : s.binds c = some before) :
    ∃ after, (u.setBind b call').binds c = some after ∧ before.Onward after := by
  by_cases hc : c = b
  · subst hc
    cases hcall.symm.trans hbefore
    exact ⟨call', setBind_self u, honward⟩
  · exact ⟨before, (h.apart.binds c hc).trans hbefore, .refl before⟩

theorem Only.onward (h : Only s u b) (hcall : s.binds b = some call) (honward : call.Onward call')
    (hnot : ¬ call.stage.Failed) (hnot' : ¬ call'.stage.Failed) : Onward s (u.setBind b call') where
  binds := h.calls hcall honward
  failed := by
    intro c
    by_cases hc : c = b
    · subst hc
      refine iff_of_false ?_ ?_
      · rintro ⟨after, hafter, hfailed⟩
        cases hafter.symm.trans (setBind_self u)
        exact hnot' hfailed
      · rintro ⟨before, hbefore, hfailed⟩
        cases hcall.symm.trans hbefore
        exact hnot hfailed
    · rw [h.apart.binds c hc]
  unbound := by
    intro c v
    have hunbinds : (u.setBind b call').unbinds = s.unbinds := h.unbinds
    rw [hunbinds]

/-- A binding call goes on, and its skeleton context is held by `k`. -/
theorem inv_setBind (hheld : Held s holder) (hrecorded : Recorded s holder)
    (hcall : s.binds b = some call) (h : Only s u b) (hrecord : SameRecord s u)
    (honward : call.Onward call') (hnot : ¬ call.stage.Failed) (hnot' : ¬ call'.stage.Failed)
    (hsound : call'.Sound) {k : Option Holder} (hat : At (u.setBind b call') b k)
    (hkept : ∀ p, s.registered b = some p → u.registered b = some p)
    (hgone : holder b = none → ¬ call.stage.Early → k = none) : Inv (u.setBind b call') := by
  refine ⟨Function.update holder b k, hheld.setBind h hsound hat, hrecorded.onward
    (h.onward hcall honward hnot hnot')
    ⟨hrecord.returned, hrecord.executed, hrecord.freed, hrecord.faults⟩ h.consumer ?_ ?_⟩
  · intro c p _ hp
    by_cases hc : c = b
    · subst hc
      exact hkept p hp
    · exact (h.registered c hc).trans hp
  · intro c hc
    obtain ⟨hnone, before, hbefore, hlate⟩ := hrecorded.gone c hc
    by_cases hcb : c = b
    · subst hcb
      cases hcall.symm.trans hbefore
      rw [Function.update_self]
      exact hgone hnone hlate
    · rw [Function.update_of_ne hcb]
      exact hnone

theorem SameRecord.refl (s : State C J) : SameRecord s s := ⟨rfl, rfl, rfl, rfl⟩

theorem Only.at_none (h : Only s u b) (hregistered : u.registered b = none)
    (hfree : ∀ v p, s.unbinding v ≠ some (b, p)) (hown : call'.stage.own = none)
    (hshared : call'.stage.shared = none) : At (u.setBind b call') b none := by
  refine ⟨hregistered, fun v p hv => hfree v p ((h.unbinding v).symm.trans hv), ?_⟩
  intro call hcall
  cases hcall.symm.trans (setBind_self u)
  exact ⟨hown, hshared⟩

theorem Only.at_binder (h : Only s u b) (hregistered : u.registered b = none)
    (hfree : ∀ v p, s.unbinding v ≠ some (b, p)) {p : Address} (hown : call'.stage.own = some p)
    (hlies : Lies u b call' p) : At (u.setBind b call') b (some .binder) :=
  ⟨hregistered, fun v p hv => hfree v p ((h.unbinding v).symm.trans hv), call', p, setBind_self u,
    hown, hlies⟩

theorem Only.at_driver (h : Only s u b) {p : Address} (hregistered : u.registered b = some p)
    (hfree : ∀ v p, s.unbinding v ≠ some (b, p)) (hlies : Lies u b call' p)
    (hstage : call'.stage.shared = some p ∨ call'.stage.Written) :
    At (u.setBind b call') b (some .driver) :=
  ⟨fun v p hv => hfree v p ((h.unbinding v).symm.trans hv), call', p, setBind_self u, hregistered,
    hlies, hstage⟩

section Write
variable {p : Address} {sk : Skeleton C J}

theorem write_eq (hsk : s.heap p = some sk) (f : Skeleton C J → Skeleton C J) :
    s.write p f = { s with heap := Function.update s.heap p (some (f sk)) } := by
  unfold State.write
  rw [hsk]

theorem write_registered (p : Address) (f : Skeleton C J → Skeleton C J) :
    (s.write p f).registered = s.registered := by
  unfold State.write
  split <;> rfl

/-- The memory of another call is left alone. -/
theorem heap_update (hsk : ∀ sk, s.heap p = some sk → sk.owner = b) (x : Option (Skeleton C J)) :
    ∀ q sk, s.heap q = some sk → sk.owner ≠ b → Function.update s.heap p x q = some sk := by
  intro q sk' hq hne
  by_cases hqp : q = p
  · subst hqp
    exact absurd (hsk sk' hq) hne
  · exact (Function.update_of_ne hqp _ _).trans hq

theorem only_write (hsk : s.heap p = some sk) (howner : sk.owner = b)
    (f : Skeleton C J → Skeleton C J) : Only s (s.write p f) b ∧ SameRecord s (s.write p f) := by
  rw [write_eq hsk]
  refine ⟨⟨rfl, rfl, rfl, fun _ _ => rfl, heap_update ?_ _⟩, ⟨rfl, rfl, rfl, rfl⟩⟩
  intro sk' hsk'
  cases hsk.symm.trans hsk'
  exact howner

theorem write_lies (hsk : s.heap p = some sk) (f : Skeleton C J → Skeleton C J)
    (howner : (f sk).owner = b) (htable : (f sk).jumpMethods = call'.jumpMethods)
    (hcontext : call'.stage.Written → (f sk).clientContext = some call'.arguments.clientContext) :
    Lies (s.write p f) b call' p := by
  rw [write_eq hsk]
  exact ⟨f sk, Function.update_self .., howner, htable, hcontext⟩

end Write

section Binder
variable {p : Address}

theorem At.early {k : Option Holder} (h : At s b k) (hcall : s.binds b = some call)
    (hearly : call.stage.Early) :
    k = none ∧ s.registered b = none ∧ ∀ v p, s.unbinding v ≠ some (b, p) := by
  have hown : call.stage.own = none := by
    revert hearly
    cases call.stage <;> first | exact fun _ => rfl | exact False.elim
  cases k with
  | none => exact ⟨rfl, h.1, h.2.1⟩
  | some holder =>
    cases holder with
    | binder =>
      obtain ⟨-, -, call', p, hcall', hown', -⟩ := h
      cases hcall.symm.trans hcall'
      cases hown.symm.trans hown'
    | driver =>
      obtain ⟨-, call', p, hcall', -, -, hstage⟩ := h
      cases hcall.symm.trans hcall'
      exact absurd hearly (BindStage.handed hstage).2.1
    | unbinder v =>
      obtain ⟨-, -, call', p, hcall', -, -, hstage⟩ := h
      cases hcall.symm.trans hcall'
      exact absurd hearly (BindStage.handed hstage).2.1

/-- Before there is a skeleton context. -/
theorem inv_early (hheld : Held s holder) (hrecorded : Recorded s holder)
    (hcall : s.binds b = some call) (hearly : call.stage.Early)
    {stage : BindStage} (hstage : stage.Early) (htable : call.jumpMethods = none) :
    Inv (s.setBind b (call.go stage)) := by
  obtain ⟨hnone, hregistered, hfree⟩ := (hheld.at_ b).early hcall hearly
  have hnotfailed : ∀ st : BindStage, st.Early → ¬ st.Failed := by
    rintro st hst ⟨error, rfl⟩
    exact hst
  have honly := Only.refl s b
  refine inv_setBind hheld hrecorded hcall honly (.refl s)
    ⟨rfl, fun _ => rfl, ?_, fun hlate => absurd hearly hlate⟩ (hnotfailed _ hearly)
    (hnotfailed _ hstage) ?_ (k := none) ?_ (fun _ hp => hp) (fun _ _ => rfl)
  · exact fun hwritten => absurd hearly hwritten.unheld.2.2.1
  · cases stage <;> first | exact htable | trivial
  · refine honly.at_none hregistered hfree ?_ ?_
    · cases stage <;> first | rfl | exact hstage.elim
    · cases stage <;> first | rfl | exact hstage.elim

/-- The call goes on with its own skeleton context. -/
theorem inv_own (hheld : Held s holder) (hrecorded : Recorded s holder)
    (hcall : s.binds b = some call) (hown : call.stage.own = some p)
    (hnotfailed : ¬ call.stage.Failed) {stage : BindStage}
    (hstage : stage.own = some p) (hstage' : ¬ stage.Failed) (hlate : ¬ stage.Early)
    (hsound : (call.go stage).Sound) : Inv (s.setBind b (call.go stage)) := by
  obtain ⟨hk, hregistered, hfree, sk, hsk, howner, htable, -⟩ := (hheld.at_ b).own hcall hown
  have honly := Only.refl s b
  have hnotwritten : ∀ st : BindStage, st.own = some p → ¬ st.Written := by
    intro st hst hwritten
    rw [hwritten.unheld.1] at hst
    cases hst
  refine inv_setBind hheld hrecorded hcall honly (.refl s)
    ⟨rfl, fun _ => rfl, fun h => absurd h (hnotwritten _ hown), fun _ => hlate⟩ hnotfailed hstage'
    hsound (honly.at_binder hregistered hfree hstage ?_) (fun _ hp => hp) ?_
  · exact ⟨sk, hsk, howner, htable, fun h => absurd h (hnotwritten _ hstage)⟩
  · intro hnone
    rw [hk] at hnone
    cases hnone

theorem inv_alloc (hheld : Held s holder) (hrecorded : Recorded s holder)
    (hcall : s.binds b = some call) (hstage : call.stage = .alloc) (hp : s.heap p = none) :
    Inv ({ s with heap := Function.update s.heap p (some ⟨b, none, none, none⟩) }.setBind b
      (call.go (.getSkel p))) := by
  have hearly : call.stage.Early := hstage ▸ trivial
  obtain ⟨hnone, hregistered, hfree⟩ := (hheld.at_ b).early hcall hearly
  have htable : call.jumpMethods = none := by
    have hsound := hheld.sound b call hcall
    unfold BindCall.Sound at hsound
    rw [hstage] at hsound
    exact hsound
  have honly : Only s { s with heap := Function.update s.heap p (some ⟨b, none, none, none⟩) } b :=
    ⟨rfl, rfl, rfl, fun _ _ => rfl, heap_update (fun _ hsk => nomatch hp.symm.trans hsk) _⟩
  refine inv_setBind hheld hrecorded hcall honly ⟨rfl, rfl, rfl, rfl⟩
    ⟨rfl, fun _ => rfl, ?_, fun hlate => absurd hearly hlate⟩ ?_ (fun ⟨_, h⟩ => nomatch h) htable
    (honly.at_binder hregistered hfree rfl ?_) (fun _ hp => hp)
    (fun _ hlate => absurd hearly hlate)
  · rw [hstage]
    exact id
  · rw [hstage]
    exact fun ⟨_, h⟩ => nomatch h
  · exact ⟨_, Function.update_self .., rfl, htable.symm, False.elim⟩

/-- The table of the interface is found. -/
theorem inv_getSkel (hheld : Held s holder) (hrecorded : Recorded s holder)
    (hcall : s.binds b = some call) (hstage : call.stage = .getSkel p) (table : J) :
    Inv ((s.write p fun sk => { sk with jumpMethods := some table }).setBind b
      ⟨call.arguments, some table, .openComponents p⟩) := by
  have hown : call.stage.own = some p := hstage ▸ rfl
  obtain ⟨hk, hregistered, hfree, sk, hsk, howner, -, -⟩ := (hheld.at_ b).own hcall hown
  have hsound := hheld.sound b call hcall
  unfold BindCall.Sound at hsound
  rw [hstage] at hsound
  obtain ⟨honly, hrecord⟩ := only_write hsk howner fun sk => { sk with jumpMethods := some table }
  refine inv_setBind hheld hrecorded hcall honly hrecord ⟨rfl, fun hsome => ?_, ?_, fun _ => id⟩ ?_
    (fun ⟨_, h⟩ => nomatch h) rfl
    (honly.at_binder ((congrFun (write_registered p _) b).trans hregistered) hfree rfl
      (write_lies hsk _ howner rfl False.elim)) ?_ ?_
  · rw [show call.jumpMethods = none from hsound] at hsome
    cases hsome
  · rw [hstage]
    exact id
  · rw [hstage]
    exact fun ⟨_, h⟩ => nomatch h
  · rw [hregistered]
    exact fun _ h => nomatch h
  · intro hnone
    rw [hk] at hnone
    cases hnone

/-- The driver has the skeleton context from here on. -/
theorem inv_register (hheld : Held s holder) (hrecorded : Recorded s holder)
    (hcall : s.binds b = some call) (hstage : call.stage = .bindToCore p) (mpc2hostId : Nat) :
    Inv ((s.register b (some p)).setBind b (call.go (.storeId p mpc2hostId))) := by
  have hown : call.stage.own = some p := hstage ▸ rfl
  obtain ⟨hk, hregistered, hfree, sk, hsk, howner, htable, -⟩ := (hheld.at_ b).own hcall hown
  have hsound := hheld.sound b call hcall
  unfold BindCall.Sound at hsound
  rw [hstage] at hsound
  have honly : Only s (s.register b (some p)) b :=
    ⟨rfl, rfl, rfl, fun _ hne => Function.update_of_ne hne _ _, fun _ _ hq _ => hq⟩
  refine inv_setBind hheld hrecorded hcall honly ⟨rfl, rfl, rfl, rfl⟩
    ⟨rfl, fun _ => rfl, ?_, fun _ => id⟩ ?_ (fun ⟨_, h⟩ => nomatch h) hsound
    (honly.at_driver (Function.update_self ..) hfree ⟨sk, hsk, howner, htable, False.elim⟩
      (.inl rfl)) ?_ ?_
  · rw [hstage]
    exact id
  · rw [hstage]
    exact fun ⟨_, h⟩ => nomatch h
  · rw [hregistered]
    exact fun _ h => nomatch h
  · intro hnone
    rw [hk] at hnone
    cases hnone

/-- The skeleton context that the call has given away stays where it is. -/
theorem Only.at_same {k : Option Holder} (h : Only s u b) (hat : At s b k) (hk : k ≠ none)
    (hcall : s.binds b = some call) (hown : call.stage.own = none)
    (hregistered : u.registered = s.registered)
    (hlies : ∀ q, (call.stage.shared = some q ∨ call.stage.Written) → Lies s b call q →
      Lies u b call' q ∧ (call'.stage.shared = some q ∨ call'.stage.Written)) :
    At (u.setBind b call') b k := by
  cases k with
  | none => exact absurd rfl hk
  | some holder =>
    cases holder with
    | binder =>
      obtain ⟨-, -, before, q, hbefore, hown', -⟩ := hat
      cases hcall.symm.trans hbefore
      cases hown'.symm.trans hown
    | driver =>
      obtain ⟨hfree, before, q, hbefore, hq, hlies', hstage⟩ := hat
      cases hcall.symm.trans hbefore
      obtain ⟨hafter, hstage'⟩ := hlies q hstage hlies'
      exact h.at_driver ((congrFun hregistered b).trans hq) hfree hafter hstage'
    | unbinder v =>
      obtain ⟨hnone, honly, before, q, hbefore, hv, hlies', hstage⟩ := hat
      cases hcall.symm.trans hbefore
      obtain ⟨hafter, hstage'⟩ := hlies q hstage hlies'
      exact ⟨(congrFun hregistered b).trans hnone,
        fun w q hw => honly w q ((h.unbinding w).symm.trans hw), call', q, setBind_self u,
        (h.unbinding v).trans hv, hafter, hstage'⟩

/-- The call stores to the skeleton context that it has given away. -/
theorem inv_store (hheld : Held s holder) (hrecorded : Recorded s holder)
    (hcall : s.binds b = some call) (hshared : call.stage.shared = some p)
    (f : Skeleton C J → Skeleton C J) (howner : ∀ sk, (f sk).owner = sk.owner)
    (htable : ∀ sk, (f sk).jumpMethods = sk.jumpMethods) {stage : BindStage}
    (hstage : stage.shared = some p ∨ stage.Written)
    (hcontext : stage.Written → ∀ sk, (f sk).clientContext = some call.arguments.clientContext)
    (hsound : (call.go stage).Sound) : Inv ((s.write p f).setBind b (call.go stage)) := by
  obtain ⟨hk, sk, hsk, hsame, hjump, -⟩ := (hheld.at_ b).shared hcall hshared
  obtain ⟨honly, hrecord⟩ := only_write hsk hsame f
  have hbefore := BindStage.handed (.inl hshared)
  have hafter := BindStage.handed hstage
  have hnotwritten : ¬ call.stage.Written := by
    intro hwritten
    cases hshared.symm.trans hwritten.unheld.2.1
  refine inv_setBind hheld hrecorded hcall honly hrecord
    ⟨rfl, fun _ => rfl, fun h => absurd h hnotwritten, fun _ => hafter.2.1⟩ hbefore.2.2 hafter.2.2
    hsound (honly.at_same (hheld.at_ b) hk hcall hbefore.1 (write_registered p _) ?_) ?_ ?_
  · intro q hq _
    cases BindStage.handed_shared hshared hq
    exact ⟨write_lies hsk _ ((howner sk).trans hsame) ((htable sk).trans hjump)
      fun hwritten => hcontext hwritten sk, hstage⟩
  · intro q hq
    exact (congrFun (write_registered p _) b).trans hq
  · exact fun hnone => absurd hnone hk

/-- The call returns. -/
theorem inv_bound (hheld : Held s holder) (hrecorded : Recorded s holder)
    (hcall : s.binds b = some call) (hstage : call.stage = .closeComponents) :
    Inv (s.setBind b (call.go .bound)) := by
  have honly := Only.refl s b
  have hwritten : call.stage.Written := hstage ▸ trivial
  have hsound := hheld.sound b call hcall
  unfold BindCall.Sound at hsound
  rw [hstage] at hsound
  refine inv_setBind hheld hrecorded hcall honly (.refl s)
    ⟨rfl, fun _ => rfl, fun _ => trivial, fun _ => id⟩ hwritten.unheld.2.2.2
    (fun ⟨_, h⟩ => nomatch h) hsound (k := holder b) ?_ (fun _ hp => hp) (fun hnone _ => hnone)
  have hat := hheld.at_ b
  by_cases hk : holder b = none
  · rw [hk] at hat ⊢
    exact honly.at_none hat.1 hat.2.1 rfl rfl
  · refine honly.at_same hat hk hcall hwritten.unheld.1 rfl ?_
    rintro q - ⟨sk, hsk, howner, htable, hcontext⟩
    exact ⟨⟨sk, hsk, howner, htable, fun _ => hcontext hwritten⟩, .inr trivial⟩

end Binder

section Free
variable {p : Address} {sk : Skeleton C J}

theorem free_eq (hsk : s.heap p = some sk) (freer : Freer) : s.free p freer =
    { s with heap := Function.update s.heap p none, freed := s.freed ++ [(sk.owner, freer)] } := by
  unfold State.free
  rw [hsk]

theorem only_free (hsk : s.heap p = some sk) (howner : sk.owner = b) (freer : Freer) :
    Only s (s.free p freer) b := by
  rw [free_eq hsk]
  refine ⟨rfl, rfl, rfl, fun _ _ => rfl, heap_update ?_ _⟩
  intro sk' hsk'
  cases hsk.symm.trans hsk'
  exact howner

/-- A skeleton context is freed by the call that holds it, which ends with that. -/
theorem Recorded.free (hrecorded : Recorded s holder) (freer : Freer) (hheld : holder b ≠ none)
    (honward : ∀ c call, s.binds c = some call →
      ∃ call', t.binds c = some call' ∧ call.Onward call')
    (hlate : ∃ call, t.binds b = some call ∧ ¬ call.stage.Early)
    (hconsumer : t.consumer = s.consumer) (hregistered : t.registered = s.registered)
    (hreturned : t.returned = s.returned) (hexecuted : t.executed = s.executed)
    (hfaults : t.faults = s.faults) (hfreed : t.freed = s.freed ++ [(b, freer)])
    (hbind : ∀ c, (∃ call, t.binds c = some call ∧ call.stage.Failed) ↔
      (∃ call, s.binds c = some call ∧ call.stage.Failed) ∨ (c, .bind) ∈ [(b, freer)])
    (hunbind : ∀ c v, (∃ call, t.unbinds v = some call ∧ call.stage = .unbound c) ↔
      (∃ call, s.unbinds v = some call ∧ call.stage = .unbound c) ∨
        (c, .unbind v) ∈ [(b, freer)]) :
    Recorded t (Function.update holder b none) where
  holds := by
    rw [hconsumer, hregistered]
    exact hrecorded.holds
  correct := by
    refine hrecorded.correct.extend honward hreturned hexecuted hfaults hfreed ?_ hbind hunbind
    rw [List.map_append]
    exact hrecorded.correct.once.append (List.nodup_singleton _)
      (List.disjoint_singleton.mpr fun hb => hheld (hrecorded.gone b hb).1)
  gone := by
    rw [hfreed, List.map_append]
    intro c hc
    rcases List.mem_append.mp hc with hc | hc
    · obtain ⟨hnone, call, hcall, hlate⟩ := hrecorded.gone c hc
      obtain ⟨call', hcall', honward⟩ := honward c call hcall
      refine ⟨?_, call', hcall', honward.early hlate⟩
      by_cases hcb : c = b
      · rw [hcb, Function.update_self]
      · rw [Function.update_of_ne hcb]
        exact hnone
    · have hcb : c = b := List.mem_singleton.mp hc
      rw [hcb, Function.update_self]
      exact ⟨rfl, hlate⟩

/-- The call frees its skeleton context and returns the error. -/
theorem inv_failed (hheld : Held s holder) (hrecorded : Recorded s holder)
    (hcall : s.binds b = some call) {error : CmError} (hstage : call.stage = .free p error) :
    Inv ((s.free p .bind).setBind b (call.go (.failed error))) := by
  have hown : call.stage.own = some p := hstage ▸ rfl
  obtain ⟨hk, hregistered, hfree, sk, hsk, howner, -, -⟩ := (hheld.at_ b).own hcall hown
  have honly := only_free hsk howner .bind
  have heq := free_eq hsk .bind
  have honward : call.Onward (call.go (.failed error)) := by
    refine ⟨rfl, fun _ => rfl, ?_, fun _ => id⟩
    rw [hstage]
    exact False.elim
  have hbinds : ((s.free p .bind).setBind b (call.go (.failed error))).binds b =
      some (call.go (.failed error)) := setBind_self _
  have hsound : (call.go (.failed error)).Sound := trivial
  refine ⟨_, hheld.setBind honly hsound (k := none) (honly.at_none ?_ hfree rfl rfl),
    hrecorded.free .bind ?_ (honly.calls hcall honward) ⟨_, hbinds, id⟩ honly.consumer
      ?_ ?_ ?_ ?_ ?_ ?_ ?_⟩
  · rw [heq]
    exact hregistered
  · rw [hk]
    exact fun h => nomatch h
  · rw [heq]
    rfl
  · rw [heq]
    rfl
  · rw [heq]
    rfl
  · rw [heq]
    rfl
  · rw [heq, howner]
    rfl
  · intro c
    by_cases hc : c = b
    · subst hc
      exact iff_of_true ⟨_, hbinds, error, rfl⟩ (.inr List.mem_cons_self)
    · rw [honly.apart.binds c hc]
      refine (or_iff_left ?_).symm
      rw [List.mem_singleton, Prod.mk.injEq]
      exact fun h => hc h.1
  · intro c v
    have hunbinds : ((s.free p .bind).setBind b (call.go (.failed error))).unbinds = s.unbinds :=
      honly.unbinds
    rw [hunbinds]
    refine (or_iff_left ?_).symm
    rw [List.mem_singleton, Prod.mk.injEq]
    exact fun h => nomatch h.2

end Free

theorem inv_bindStep (hheld : Held s holder) (hrecorded : Recorded s holder)
    (hcall : s.binds b = some call) {a : BindAction J}
    (h : bindStep s b call call.stage a = some t) : Inv t := by
  have hsound := hheld.sound b call hcall
  unfold BindCall.Sound at hsound
  generalize hstage : call.stage = stage at h
  unfold bindStep at h
  split at h
  · cases h
    rw [hstage] at hsound
    refine inv_early hheld hrecorded hcall (hstage ▸ trivial) ?_ hsound
    split <;> trivial
  · cases h
    rw [hstage] at hsound
    exact inv_early hheld hrecorded hcall (hstage ▸ trivial) trivial hsound
  · split at h
    · next hp =>
      cases h
      exact inv_alloc hheld hrecorded hcall hstage hp.1
    · cases h
  · cases h
    exact inv_own hheld hrecorded hcall (hstage ▸ rfl) (hstage ▸ fun ⟨_, h⟩ => nomatch h) rfl
      (fun ⟨_, h⟩ => nomatch h) id trivial
  · cases h
    exact inv_getSkel hheld hrecorded hcall hstage _
  · cases h
    rw [hstage] at hsound
    have hnotfailed : ¬ call.stage.Failed := hstage ▸ fun ⟨_, h⟩ => nomatch h
    split
    · exact inv_own hheld hrecorded hcall (hstage ▸ rfl) hnotfailed rfl (fun ⟨_, h⟩ => nomatch h) id
        hsound
    · exact inv_own hheld hrecorded hcall (hstage ▸ rfl) hnotfailed rfl (fun ⟨_, h⟩ => nomatch h) id
        trivial
  · cases h
    exact inv_own hheld hrecorded hcall (hstage ▸ rfl) (hstage ▸ fun ⟨_, h⟩ => nomatch h) rfl
      (fun ⟨_, h⟩ => nomatch h) id trivial
  · cases h
    exact inv_register hheld hrecorded hcall hstage _
  · next p _ =>
    cases h
    rw [hstage] at hsound
    have hshared : call.stage.shared = some p := hstage ▸ rfl
    refine inv_store hheld hrecorded hcall hshared _ ?_ ?_ (.inl rfl) False.elim hsound
    · exact fun _ => rfl
    · exact fun _ => rfl
  · next p =>
    cases h
    rw [hstage] at hsound
    have hshared : call.stage.shared = some p := hstage ▸ rfl
    refine inv_store hheld hrecorded hcall hshared _ ?_ ?_ (.inr trivial) ?_ hsound
    · exact fun _ => rfl
    · exact fun _ => rfl
    · exact fun _ _ => rfl
  · cases h
    exact inv_bound hheld hrecorded hcall hstage
  · cases h
    exact inv_failed hheld hrecorded hcall hstage
  · cases h

/-- A call begins. -/
theorem inv_startBind (hheld : Held s holder) (hrecorded : Recorded s holder)
    (hnew : s.binds b = none) (arguments : BindArguments C) {stage : BindStage}
    (hearly : stage.Early) : Inv (s.setBind b ⟨arguments, none, stage⟩) := by
  have honly := Only.refl s b
  have hat := hheld.at_ b
  have hnone : holder b = none ∧ s.registered b = none ∧ ∀ u p, s.unbinding u ≠ some (b, p) := by
    revert hat
    cases holder b with
    | none => exact fun hat => ⟨rfl, hat.1, hat.2.1⟩
    | some k =>
      cases k with
      | binder => exact fun ⟨_, _, _, _, hcall, _⟩ => nomatch hnew.symm.trans hcall
      | driver => exact fun ⟨_, _, _, hcall, _⟩ => nomatch hnew.symm.trans hcall
      | unbinder u => exact fun ⟨_, _, _, _, hcall, _⟩ => nomatch hnew.symm.trans hcall
  have hstage : stage.own = none ∧ stage.shared = none ∧ ¬ stage.Failed ∧
      (⟨arguments, none, stage⟩ : BindCall C J).Sound := by
    revert hearly
    cases stage with
    | requiredFiles => exact fun _ => ⟨rfl, rfl, fun ⟨_, h⟩ => (nomatch h), rfl⟩
    | alloc => exact fun _ => ⟨rfl, rfl, fun ⟨_, h⟩ => (nomatch h), rfl⟩
    | refused error => exact fun _ => ⟨rfl, rfl, fun ⟨_, h⟩ => (nomatch h), trivial⟩
    | _ => exact False.elim
  have hne : ∀ c call, s.binds c = some call → c ≠ b := by
    rintro c call hcall rfl
    cases hnew.symm.trans hcall
  refine ⟨Function.update holder b none, hheld.setBind honly hstage.2.2.2
    (honly.at_none hnone.2.1 hnone.2.2 hstage.1 hstage.2.1), hrecorded.onward ⟨?_, ?_, ?_⟩
    ⟨rfl, rfl, rfl, rfl⟩ rfl (fun _ _ _ hp => hp) ?_⟩
  · intro c call hcall
    exact ⟨call, (honly.apart.binds c (hne c call hcall)).trans hcall, .refl call⟩
  · intro c
    by_cases hc : c = b
    · subst hc
      refine iff_of_false ?_ ?_
      · rintro ⟨call, hcall, hfailed⟩
        cases hcall.symm.trans (setBind_self s)
        exact hstage.2.2.1 hfailed
      · rintro ⟨call, hcall, -⟩
        cases hnew.symm.trans hcall
    · rw [honly.apart.binds c hc]
  · exact fun _ _ => Iff.rfl
  · intro c hc
    by_cases hcb : c = b
    · rw [hcb, Function.update_self]
    · rw [Function.update_of_ne hcb]
      exact (hrecorded.gone c hc).1

section Unbinder
variable {v : Nat} {unbind unbind' : UnbindCall} {p : Address}

theorem setUnbind_self (u : State C J) : (u.setUnbind v unbind').unbinds v = some unbind' :=
  Function.update_self ..

theorem unbinding_eq (h : s.unbinds v = some unbind) : s.unbinding v = unbind.stage.taken := by
  unfold State.unbinding
  rw [h, Option.bind_some]

/-- Nothing but the registration and the memory of the binding that the unbind call is about has
changed. -/
theorem apart_setUnbind (hunbinds : u.unbinds = s.unbinds) (hbinds : u.binds = s.binds)
    (hregistered : ∀ c ≠ b, u.registered c = s.registered c)
    (hheap : ∀ p sk, s.heap p = some sk → sk.owner ≠ b → u.heap p = some sk)
    (hbefore : ∀ c p, s.unbinding v = some (c, p) → c = b)
    (hafter : ∀ c p, unbind'.stage.taken = some (c, p) → c = b) :
    Apart s (u.setUnbind v unbind') b where
  binds := fun c _ => congrFun hbinds c
  registered := hregistered
  heap := hheap
  unbinding := by
    intro c hne w p
    by_cases hw : w = v
    · subst hw
      rw [unbinding_eq (setUnbind_self u)]
      exact iff_of_false (fun h => hne (hafter c p h)) (fun h => hne (hbefore c p h))
    · have hsame : (u.setUnbind v unbind').unbinds w = s.unbinds w :=
        (Function.update_of_ne hw _ _).trans (congrFun hunbinds w)
      unfold State.unbinding
      rw [hsame]

theorem Held.apart (hheld : Held s holder) (h : Apart s t b) (hbinds : t.binds = s.binds)
    {k : Option Holder} (hat : At t b k) : Held t (Function.update holder b k) where
  at_ := by
    intro c
    by_cases hc : c = b
    · subst hc
      rw [Function.update_self]
      exact hat
    · rw [Function.update_of_ne hc]
      exact (hheld.at_ c).apart h hc
  sound := by
    rw [hbinds]
    exact hheld.sound

theorem Held.unmoved (hheld : Held s holder) (h : ∀ b, Apart s t b) (hbinds : t.binds = s.binds) :
    Held t holder where
  at_ := fun c => (hheld.at_ c).apart (h (c + 1)) (Nat.succ_ne_self c).symm
  sound := by
    rw [hbinds]
    exact hheld.sound

/-- An unbind call that has taken nothing goes on with nothing. -/
theorem inv_idle (hheld : Held s holder) (hrecorded : Recorded s holder)
    (hbefore : ∀ call, s.unbinds v = some call →
      call.stage.taken = none ∧ ∀ b, call.stage ≠ .unbound b)
    (hafter : unbind'.stage.taken = none ∧ ∀ b, unbind'.stage ≠ .unbound b) :
    Inv (s.setUnbind v unbind') := by
  have hfree : s.unbinding v = none := by
    unfold State.unbinding
    cases hcall : s.unbinds v with
    | none => rfl
    | some call => exact (hbefore call hcall).1
  have hapart : ∀ b, Apart s (s.setUnbind v unbind') b := by
    intro b
    refine apart_setUnbind rfl rfl (fun _ _ => rfl) (fun _ _ hp _ => hp) ?_ ?_
    · intro c p hc
      cases hfree.symm.trans hc
    · intro c p hc
      cases hafter.1.symm.trans hc
  refine ⟨holder, hheld.unmoved hapart rfl, hrecorded.onward
    ⟨fun _ call hcall => ⟨call, hcall, .refl call⟩, fun _ => Iff.rfl, ?_⟩ ⟨rfl, rfl, rfl, rfl⟩ rfl
    (fun _ _ _ hp => hp) fun b hb => (hrecorded.gone b hb).1⟩
  intro b w
  by_cases hw : w = v
  · subst hw
    refine iff_of_false ?_ ?_
    · rintro ⟨call, hcall, hunbound⟩
      cases hcall.symm.trans (setUnbind_self s)
      exact hafter.2 b hunbound
    · rintro ⟨call, hcall, hunbound⟩
      exact (hbefore call hcall).2 b hunbound
  · have hsame : (s.setUnbind v unbind').unbinds w = s.unbinds w := Function.update_of_ne hw _ _
    rw [hsame]

theorem taken_unbound {stage : UnbindStage} (h : stage.taken = some (b, p)) (c : Nat) :
    stage ≠ .unbound c := by
  rintro rfl
  cases h

theorem onward_setUnbind (hbinds : u.binds = s.binds) (hunbinds : u.unbinds = s.unbinds)
    (hcall : s.unbinds v = some unbind) (hbefore : ∀ c, unbind.stage ≠ .unbound c)
    (hafter : ∀ c, unbind'.stage ≠ .unbound c) : Onward s (u.setUnbind v unbind') where
  binds := fun c call hc => ⟨call, (congrFun hbinds c).trans hc, .refl call⟩
  failed := by
    have hsame : (u.setUnbind v unbind').binds = s.binds := hbinds
    rw [hsame]
    exact fun _ => Iff.rfl
  unbound := by
    intro c w
    by_cases hw : w = v
    · subst hw
      refine iff_of_false ?_ ?_
      · rintro ⟨call, hcall', hunbound⟩
        cases hcall'.symm.trans (setUnbind_self u)
        exact hafter c hunbound
      · rintro ⟨call, hcall', hunbound⟩
        cases hcall.symm.trans hcall'
        exact hbefore c hunbound
    · have hsame : (u.setUnbind v unbind').unbinds w = s.unbinds w :=
        (Function.update_of_ne hw _ _).trans (congrFun hunbinds w)
      rw [hsame]

/-- The unbind call takes the skeleton context from the driver. -/
theorem inv_take (hheld : Held s holder) (hrecorded : Recorded s holder)
    (hcall : s.unbinds v = some unbind) (hstage : unbind.stage = .unbindFromCore)
    (hp : s.registered b = some p) (hcarries : ∀ q, ¬ s.consumer.Carries b q)
    (htaken : unbind'.stage.taken = some (b, p)) :
    Inv ((s.register b none).setUnbind v unbind') := by
  obtain ⟨hk, hfree, call, hbind, hlies, hgiven⟩ := (hheld.at_ b).registered hp
  have hbefore : unbind.stage.taken = none := hstage ▸ rfl
  have hapart : Apart s ((s.register b none).setUnbind v unbind') b := by
    refine apart_setUnbind rfl rfl (fun _ hne => Function.update_of_ne hne _ _)
      (fun _ _ hq _ => hq) ?_ ?_
    · intro c q hc
      cases (hbefore.symm.trans ((unbinding_eq hcall).symm.trans hc))
    · intro c q hc
      cases htaken.symm.trans hc
      rfl
  have honly : ∀ w q, ((s.register b none).setUnbind v unbind').unbinding w = some (b, q) →
      w = v := by
    intro w q hw
    by_contra hne
    have hsame : ((s.register b none).setUnbind v unbind').unbinds w = s.unbinds w :=
      Function.update_of_ne hne _ _
    unfold State.unbinding at hw
    rw [hsame] at hw
    exact hfree w q hw
  refine ⟨_, hheld.apart hapart rfl (k := some (.unbinder v)) ⟨Function.update_self .., honly, call,
    p, hbind, (unbinding_eq (setUnbind_self _)).trans htaken, hlies, hgiven⟩,
    hrecorded.onward (onward_setUnbind rfl rfl hcall (hstage ▸ (fun _ h => nomatch h))
    (taken_unbound htaken))
    ⟨rfl, rfl, rfl, rfl⟩ rfl ?_ ?_⟩
  · intro c q hc hq
    have hne : c ≠ b := by
      rintro rfl
      exact hcarries q hc
    exact (Function.update_of_ne hne _ _).trans hq
  · intro c hc
    have hnone := (hrecorded.gone c hc).1
    have hne : c ≠ b := by
      rintro rfl
      cases hk.symm.trans hnone
    rw [Function.update_of_ne hne]
    exact hnone

theorem read_lies (hlies : Lies s b call p) (hwritten : call.stage.Written) :
    s.read p Skeleton.clientContext = (some call.arguments.clientContext, s) := by
  obtain ⟨sk, hsk, -, -, hcontext⟩ := hlies
  unfold State.read
  rw [hsk]
  simp only [hcontext hwritten]

/-- The unbind call goes on with the skeleton context that it has taken. -/
theorem inv_keep (hheld : Held s holder) (hrecorded : Recorded s holder)
    (hcall : s.unbinds v = some unbind) (hbefore : unbind.stage.taken = some (b, p))
    (hafter : unbind'.stage.taken = some (b, p)) : Inv (s.setUnbind v unbind') := by
  have hsame : ∀ w, (s.setUnbind v unbind').unbinding w = s.unbinding w := by
    intro w
    by_cases hw : w = v
    · subst hw
      rw [unbinding_eq (setUnbind_self s), unbinding_eq hcall, hbefore, hafter]
    · have hunbinds : (s.setUnbind v unbind').unbinds w = s.unbinds w :=
        Function.update_of_ne hw _ _
      unfold State.unbinding
      rw [hunbinds]
  have hapart : ∀ c, Apart s (s.setUnbind v unbind') c := by
    refine fun c => ⟨fun _ _ => rfl, fun _ _ => rfl, fun d _ w q => ?_, fun _ _ hq _ => hq⟩
    rw [hsame]
  exact ⟨holder, hheld.unmoved hapart rfl, hrecorded.onward
    (onward_setUnbind rfl rfl hcall (taken_unbound hbefore) (taken_unbound hafter))
    ⟨rfl, rfl, rfl, rfl⟩ rfl (fun _ _ _ hq => hq) fun c hc => (hrecorded.gone c hc).1⟩

/-- The unbind call frees the skeleton context that it has taken. -/
theorem inv_unbound (hheld : Held s holder) (hrecorded : Recorded s holder)
    (hcall : s.unbinds v = some unbind) (hstage : unbind.stage = .free b p) (hstored : s.Stored b) :
    Inv ((s.free p (.unbind v)).setUnbind v (unbind.go (.unbound b))) := by
  have htaken : s.unbinding v = some (b, p) := (unbinding_eq hcall).trans (hstage ▸ rfl)
  obtain ⟨hk, hregistered, honly, call, hbind, ⟨sk, hsk, howner, -, -⟩, -⟩ :=
    (hheld.at_ b).unbinding htaken
  obtain ⟨call', hbind', hwritten⟩ := hstored
  cases hbind.symm.trans hbind'
  have heq := free_eq hsk (.unbind v)
  have hmemory := only_free hsk howner (.unbind v)
  have hunbinds : ((s.free p (.unbind v)).setUnbind v (unbind.go (.unbound b))).unbinds v =
      some (unbind.go (.unbound b)) := setUnbind_self _
  have hother : ∀ w ≠ v, ((s.free p (.unbind v)).setUnbind v (unbind.go (.unbound b))).unbinds w =
      s.unbinds w := fun w hw => (Function.update_of_ne hw _ _).trans (congrFun hmemory.unbinds w)
  have hbinds : ((s.free p (.unbind v)).setUnbind v (unbind.go (.unbound b))).binds = s.binds :=
    hmemory.binds
  have hapart : Apart s ((s.free p (.unbind v)).setUnbind v (unbind.go (.unbound b))) b := by
    refine apart_setUnbind hmemory.unbinds hmemory.binds hmemory.registered hmemory.heap ?_ ?_
    · intro c q hc
      cases htaken.symm.trans hc
      rfl
    · intro c q hc
      cases hc
  have hnobody : At ((s.free p (.unbind v)).setUnbind v (unbind.go (.unbound b))) b none := by
    refine ⟨?_, ?_, ?_⟩
    · rw [heq]
      exact hregistered
    · intro w q hw
      by_cases hwv : w = v
      · subst hwv
        rw [unbinding_eq hunbinds] at hw
        cases hw
      · unfold State.unbinding at hw
        rw [hother w hwv] at hw
        exact hwv (honly w q hw)
    · intro call' hcall'
      rw [hbinds, hbind] at hcall'
      cases hcall'
      exact ⟨hwritten.unheld.1, hwritten.unheld.2.1⟩
  refine ⟨_, hheld.apart hapart hbinds hnobody, hrecorded.free (.unbind v) ?_ ?_
    ⟨call, ?_, hwritten.unheld.2.2.1⟩ hmemory.consumer ?_ ?_ ?_ ?_ ?_ ?_ ?_⟩
  · rw [hk]
    exact fun h => nomatch h
  · intro c before hc
    exact ⟨before, (congrFun hbinds c).trans hc, .refl before⟩
  · rw [hbinds]
    exact hbind
  · rw [heq]
    rfl
  · rw [heq]
    rfl
  · rw [heq]
    rfl
  · rw [heq]
    rfl
  · rw [heq, howner]
    rfl
  · intro c
    rw [hbinds]
    refine (or_iff_left ?_).symm
    rw [List.mem_singleton, Prod.mk.injEq]
    exact fun h => nomatch h.2
  · intro c w
    rw [List.mem_singleton, Prod.mk.injEq, Freer.unbind.injEq]
    by_cases hw : w = v
    · subst hw
      rw [hunbinds, hcall]
      constructor
      · rintro ⟨_, heq, hunbound⟩
        cases heq
        cases hunbound
        exact .inr ⟨rfl, rfl⟩
      · rintro (⟨_, heq, hunbound⟩ | ⟨rfl, -⟩)
        · cases heq
          cases hstage.symm.trans hunbound
        · exact ⟨_, rfl, rfl⟩
    · rw [hother w hw]
      exact (or_iff_left fun h => hw h.2).symm

theorem inv_unbindStep (hheld : Held s holder) (hrecorded : Recorded s holder)
    (hcall : s.unbinds v = some unbind) {a : UnbindAction}
    (hok : Assumed s (.unbind v a) ∧ Settled s (.unbind v a))
    (h : unbindStep s v unbind unbind.stage a = some t) : Inv t := by
  generalize hstage : unbind.stage = stage at h
  unfold unbindStep at h
  split at h
  · next error b =>
    split at h
    · next herror =>
      split at h
      · next p bind hp hbind =>
        split at h
        · cases h
          refine inv_take hheld hrecorded hcall hstage hp (hok.1 herror) ?_
          split <;> rfl
        · cases h
      · cases h
    · cases h
      refine inv_idle hheld hrecorded ?_ ⟨rfl, fun _ => (nomatch ·)⟩
      rintro call hcall'
      cases hcall.symm.trans hcall'
      rw [hstage]
      exact ⟨rfl, fun _ => (nomatch ·)⟩
  · next b p =>
    cases h
    have hbefore : unbind.stage.taken = some (b, p) := hstage ▸ rfl
    have htaken := (unbinding_eq hcall).trans hbefore
    obtain ⟨-, -, -, call, hbind, hlies, -⟩ := (hheld.at_ b).unbinding htaken
    obtain ⟨call', hbind', hwritten⟩ := hok.2 b p htaken
    cases hbind.symm.trans hbind'
    rw [read_lies hlies hwritten]
    exact inv_keep hheld hrecorded hcall hbefore rfl
  · next b p =>
    cases h
    exact inv_unbound hheld hrecorded hcall hstage
      (hok.2 b p ((unbinding_eq hcall).trans (hstage ▸ rfl)))
  · cases h

end Unbinder

section Consume
variable {p : Address}

/-- The consumer goes on, and what it has done is right. -/
theorem inv_consume (hheld : Held s holder) (hrecorded : Recorded s holder) (consumer : Consumer)
    (returned : List (Nat × Option C)) (executed : List (Nat × Option J))
    (hcarries : ∀ b p, consumer.Carries b p → s.registered b = some p)
    (hexecuted : ∀ x ∈ executed, x ∈ s.executed ∨ ∃ call, s.binds x.1 = some call ∧
      call.jumpMethods.isSome ∧ x.2 = call.jumpMethods)
    (hreturned : ∀ x ∈ returned, x ∈ s.returned ∨ ∃ call, s.binds x.1 = some call ∧
      x.2 = some call.arguments.clientContext) :
    Inv { s with consumer := consumer, returned := returned, executed := executed } := by
  have hcorrect := hrecorded.correct
  refine ⟨holder, hheld.unmoved (fun c => ⟨fun _ _ => rfl, fun _ _ => rfl, fun _ _ _ _ => Iff.rfl,
    fun _ _ hq _ => hq⟩) rfl, ⟨hcarries, ?_, hrecorded.gone⟩⟩
  refine ⟨?_, ?_, hcorrect.faults, hcorrect.once, hcorrect.byBind, hcorrect.byUnbind⟩
  · intro x hx
    rcases hexecuted x hx with hold | hnew
    · exact hcorrect.executed x hold
    · exact hnew
  · intro x hx
    rcases hreturned x hx with hold | hnew
    · exact hcorrect.returned x hold
    · exact hnew

/-- What the consumer carries lies there with its table. -/
theorem Recorded.carried (hheld : Held s holder) (hrecorded : Recorded s holder)
    (hcarries : s.consumer.Carries b p) : ∃ call, s.binds b = some call ∧ Lies s b call p ∧
      call.jumpMethods.isSome := by
  obtain ⟨-, -, call, hcall, hlies, hstage⟩ :=
    (hheld.at_ b).registered (hrecorded.holds b p hcarries)
  refine ⟨call, hcall, hlies, ?_⟩
  have hsound := hheld.sound b call hcall
  unfold BindCall.Sound at hsound
  revert hstage hsound
  cases call.stage with
  | storeId => exact fun _ hsound => hsound
  | storeContext => exact fun _ hsound => hsound
  | closeComponents => exact fun _ hsound => hsound
  | bound => exact fun _ hsound => hsound
  | _ => exact fun h => (nomatch h)

theorem read_jumpMethods (hlies : Lies s b call p) (hsome : call.jumpMethods.isSome) :
    s.read p Skeleton.jumpMethods = (call.jumpMethods, s) := by
  obtain ⟨sk, hsk, -, htable, -⟩ := hlies
  obtain ⟨table, hfound⟩ := Option.isSome_iff_exists.mp hsome
  unfold State.read
  rw [hsk]
  simp only [htable, hfound]

theorem inv_consumerStep (hheld : Held s holder) (hrecorded : Recorded s holder)
    {a : ConsumerAction} (hok : Settled s (.consume a))
    (h : consumerStep s s.consumer a = some t) : Inv t := by
  generalize hconsumer : s.consumer = consumer at h
  unfold consumerStep at h
  split at h
  · cases h
    exact inv_consume hheld hrecorded _ _ _ (fun _ _ => False.elim) (fun _ hx => .inl hx)
      fun _ hx => .inl hx
  · next b _ =>
    obtain ⟨p, hp, rfl⟩ := Option.map_eq_some_iff.mp h
    refine inv_consume hheld hrecorded _ _ _ ?_ (fun _ hx => .inl hx) fun _ hx => .inl hx
    rintro c q ⟨rfl, rfl⟩
    exact hp
  · next b p _ =>
    have hcarries : s.consumer.Carries b p := hconsumer ▸ ⟨rfl, rfl⟩
    obtain ⟨call, hcall, hlies, -⟩ := hrecorded.carried hheld hcarries
    obtain ⟨call', hcall', hwritten⟩ := hok b p hcarries
    cases hcall.symm.trans hcall'
    rw [read_lies hlies hwritten] at h
    cases h
    refine inv_consume hheld hrecorded _ _ _ ?_ (fun _ hx => .inl hx) ?_
    · rintro c q ⟨rfl, rfl⟩
      exact hrecorded.holds _ _ hcarries
    · intro x hx
      rcases List.mem_append.mp hx with hx | hx
      · exact .inl hx
      · cases List.mem_singleton.mp hx
        exact .inr ⟨call, hcall, rfl⟩
  · next b p _ =>
    have hcarries : s.consumer.Carries b p := hconsumer ▸ ⟨rfl, rfl⟩
    obtain ⟨call, hcall, hlies, hsome⟩ := hrecorded.carried hheld hcarries
    rw [read_jumpMethods hlies hsome] at h
    cases h
    refine inv_consume hheld hrecorded _ _ _ (fun _ _ => False.elim) ?_ fun _ hx => .inl hx
    intro x hx
    rcases List.mem_append.mp hx with hx | hx
    · exact .inl hx
    · cases List.mem_singleton.mp hx
      exact .inr ⟨call, hcall, hsome, rfl⟩
  · cases h
    exact inv_consume hheld hrecorded _ _ _ (fun _ _ => False.elim) (fun _ hx => .inl hx)
      fun _ hx => .inl hx
  · cases h

end Consume

/-- What one step preserves. -/
theorem inv_step (s : State C J) (a : Action C J) (t : State C J) (hinv : Inv s)
    (hok : Assumed s a ∧ Settled s a) (h : step s a = some t) : Inv t := by
  obtain ⟨holder, hheld, hrecorded⟩ := hinv
  unfold step at h
  split at h
  · next b arguments =>
    split at h
    · next hnew =>
      cases h
      refine inv_startBind hheld hrecorded hnew arguments ?_
      split <;> trivial
    · cases h
  · next v arguments =>
    split at h
    · next hnew =>
      cases h
      refine inv_idle hheld hrecorded (fun call hcall => nomatch hnew.symm.trans hcall) ?_
      split <;> exact ⟨rfl, fun _ => (nomatch ·)⟩
    · cases h
  · obtain ⟨call, hcall, hstep⟩ := Option.bind_eq_some_iff.mp h
    exact inv_bindStep hheld hrecorded hcall hstep
  · obtain ⟨unbind, hcall, hstep⟩ := Option.bind_eq_some_iff.mp h
    exact inv_unbindStep hheld hrecorded hcall hok hstep
  · exact inv_consumerStep hheld hrecorded hok.2 h

end Steps

/-- In every run in which the skeleton context of a binding is left alone between the success of its
system call and the store of its client context. -/
theorem user_bindings_correct (as : List (Action C J)) (s : State C J)
    (hok : Meets step (fun s a => Assumed s a ∧ Settled s a) .init as)
    (hrun : run step .init as = some s) : Correct s := by
  have hinv : Inv s := run_induction_of_meets inv_step inv_init hok hrun
  obtain ⟨holder, -, hrecorded⟩ := hinv
  exact hrecorded.correct

/-- One binding from its call to the store of the client context, one of its messages, and its end.
-/
def boundAndUnbound : List (Action Nat Nat) :=
  [.startBind 0 ⟨true, 5, some "cb", 77, 16⟩, .bind 0 (.getRequiredComponentFiles .ok),
    .bind 0 (.alloc (some 8)), .bind 0 (.getItfSkelInitFct (.ok 9)), .bind 0 (.openComponents .ok),
    .bind 0 (.bindComponentToCMCore (.ok 3)), .bind 0 .storeId, .bind 0 .storeContext,
    .bind 0 .closeComponents, .consume (.getMessage (some (0, 2))), .consume .readContext,
    .consume .executeMessage, .startUnbind 0 ⟨5, some "cb", true⟩,
    .unbind 0 (.unbindComponentToCMCore .ok 0), .unbind 0 .readContext, .unbind 0 .free]

/-- The consumer gets a message of the binding before its client context is stored. -/
def gotBeforeStored : List (Action Nat Nat) :=
  [.startBind 0 ⟨true, 5, some "cb", 77, 16⟩, .bind 0 (.getRequiredComponentFiles .ok),
    .bind 0 (.alloc (some 8)), .bind 0 (.getItfSkelInitFct (.ok 9)), .bind 0 (.openComponents .ok),
    .bind 0 (.bindComponentToCMCore (.ok 3)), .consume (.getMessage (some (0, 2))),
    .consume .readContext]

theorem user_bindings_correct_sample :
    ∃ s : State Nat Nat, run step .init boundAndUnbound = some s ∧ Correct s ∧
      s.returned = [(0, some 77)] ∧ s.executed = [(0, some 9)] ∧ s.freed = [(0, .unbind 0)] := by
  refine ⟨_, rfl, user_bindings_correct boundAndUnbound _ ?_ rfl, rfl, rfl, rfl⟩
  unfold boundAndUnbound
  iterate 10 refine (meets_cons_of_eq rfl).mpr ⟨⟨trivial, trivial⟩, ?_⟩
  refine (meets_cons_of_eq rfl).mpr ⟨⟨trivial, ?_⟩, ?_⟩
  · rintro _ _ ⟨rfl, -⟩
    exact ⟨_, rfl, trivial⟩
  iterate 2 refine (meets_cons_of_eq rfl).mpr ⟨⟨trivial, trivial⟩, ?_⟩
  refine (meets_cons_of_eq rfl).mpr ⟨⟨fun _ _ h => h, trivial⟩, ?_⟩
  iterate 2
    refine (meets_cons_of_eq rfl).mpr ⟨⟨trivial, ?_⟩, ?_⟩
    · rintro _ _ htaken
      cases htaken
      exact ⟨_, rfl, trivial⟩
  exact meets_nil _ _

theorem context_read_unwritten :
    ∃ s : State Nat Nat, Meets step Assumed .init gotBeforeStored ∧
      run step .init gotBeforeStored = some s ∧ ¬ Correct s := by
  refine ⟨_, ?_, rfl, fun h => nomatch h.faults⟩
  unfold gotBeforeStored
  iterate 8 refine (meets_cons_of_eq rfl).mpr ⟨trivial, ?_⟩
  exact meets_nil _ _

end Codinalte.CmProxy.UserBindings
