import Codinalte.Lib.Machine
import Codinalte.Power.Hint
import Mathlib.Data.Fintype.Basic
import Mathlib.Data.List.Count

/-! The descriptor of the boostpulse file over any interleaving of the threads: it is the module's
own wherever it is written to or closed, as long as no thread closes it under another one. -/

namespace Codinalte.Power
open Codinalte.Machine

namespace HintPc

/-- Between a test that found a descriptor and the end of what the thread does with it. -/
def usesFd : HintPc → Bool
  | .reading | .writing _ | .relocking | .closing => true
  | _ => false

end HintPc

/-- Writes and closes are on a descriptor that the module has opened and not closed yet. -/
def OnOwn (uses : List FdUse) : Prop :=
  ∀ use ∈ uses, use.op ≠ .opened → use.owner = some .boostpulse ∧ use.fd ≠ -1

def opens (uses : List FdUse) (fd : Int) : Nat :=
  uses.countP fun use => use.op = .opened ∧ use.fd = fd

def closes (uses : List FdUse) (fd : Int) : Nat :=
  uses.countP fun use => use.op = .closed ∧ use.fd = fd

theorem on_own_append {uses : List FdUse} {use : FdUse} (h : OnOwn uses)
    (huse : use.op ≠ .opened → use.owner = some .boostpulse ∧ use.fd ≠ -1) :
    OnOwn (uses ++ [use]) := by
  intro u hu
  rcases List.mem_append.mp hu with hold | hnew
  · exact h u hold
  · rw [List.mem_singleton.mp hnew]
    exact huse

theorem opens_append (uses : List FdUse) (use : FdUse) (fd : Int) :
    opens (uses ++ [use]) fd = opens uses fd + if use.op = .opened ∧ use.fd = fd then 1 else 0 := by
  rw [opens, List.countP_append, List.countP_singleton]
  simp [opens]

theorem closes_append (uses : List FdUse) (use : FdUse) (fd : Int) :
    closes (uses ++ [use]) fd =
      closes uses fd + if use.op = .closed ∧ use.fd = fd then 1 else 0 := by
  rw [closes, List.countP_append, List.countP_singleton]
  simp [closes]

namespace CmPowerModule
variable {T : Type}

/-- `boostpulse_fd` is a descriptor that is open. -/
def InUse (s : CmPowerModule T) : Prop :=
  0 ≤ s.boostpulse_fd ∧ s.table s.boostpulse_fd = some .boostpulse

/-- No descriptor is closed twice, none is used that is not the module's own, and without the lock
`boostpulse_fd` is -1 or open. -/
structure Safe (s : CmPowerModule T) : Prop where
  closedOnce : ∀ fd, closes s.uses fd ≤ opens s.uses fd
  onOwn : OnOwn s.uses
  atRest : s.lock = none → s.boostpulse_fd = -1 ∨ s.InUse

/-- A thread closes the descriptor only while no other one has found it open and not come to an
end with it, and no thread tests `boostpulse_fd` between a close and the store of -1. -/
def Alone (s : CmPowerModule T) : HintAction T → Prop
  | .step i _ =>
    (s.pc i = .closing → ∀ j, j ≠ i → (s.pc j).usesFd = false) ∧
      (s.pc i = .returning → ∀ j, s.pc j ≠ .clearing)
  | _ => True

instance [Fintype T] [DecidableEq T] (s : CmPowerModule T) : ∀ a, Decidable (s.Alone a)
  | .hint _ _ _ => .isTrue trivial
  | .step _ _ => inferInstanceAs (Decidable (_ ∧ _))
  | .otherOpen _ => .isTrue trivial
  | .otherClose _ => .isTrue trivial

/-- What holds of a thread at its place. -/
def PcOk (s : CmPowerModule T) : HintPc → Prop
  | .readGovernor | .opening _ => s.boostpulse_fd < 0
  | .reading | .relocking | .closing => s.InUse
  | .writing fd => fd = s.boostpulse_fd ∧ s.InUse
  | .clearing => ∀ fd, s.table fd ≠ some .boostpulse
  | _ => True

def Locked (lock : Option T) (pc : T → HintPc) : Prop :=
  ∀ i, (pc i).holdsLock = true ↔ lock = some i

structure Inv (s : CmPowerModule T) : Prop where
  locked : Locked s.lock s.pc
  only : ∀ fd, s.table fd = some .boostpulse → fd = s.boostpulse_fd ∧ 0 ≤ fd
  clear : (∀ i, s.pc i ≠ .clearing) → s.boostpulse_fd = -1 ∨ s.InUse
  pcOk : ∀ i, s.PcOk (s.pc i)
  onOwn : OnOwn s.uses
  counts : ∀ fd, opens s.uses fd =
    closes s.uses fd + if s.table fd = some .boostpulse then 1 else 0

section Lock
variable [DecidableEq T] {lock : Option T} {pc : T → HintPc} {i : T} {pc' : HintPc}

theorem Locked.keep (h : Locked lock pc) (hpc : pc'.holdsLock = (pc i).holdsLock) :
    Locked lock (Function.update pc i pc') := by
  intro j
  by_cases hj : j = i
  · subst hj
    rw [Function.update_self, hpc]
    exact h j
  · rw [Function.update_of_ne hj]
    exact h j

theorem Locked.acquire (h : Locked none pc) (hpc : pc'.holdsLock = true) :
    Locked (some i) (Function.update pc i pc') := by
  intro j
  by_cases hj : j = i
  · subst hj
    rw [Function.update_self, hpc]
    simp
  · rw [Function.update_of_ne hj, h j]
    simpa using Ne.symm hj

theorem Locked.release (h : Locked (some i) pc) (hpc : pc'.holdsLock = false) :
    Locked none (Function.update pc i pc') := by
  intro j
  by_cases hj : j = i
  · subst hj
    rw [Function.update_self, hpc]
    simp
  · rw [Function.update_of_ne hj, h j]
    simpa using Ne.symm hj

end Lock

section Steps
variable [DecidableEq T] {s t : CmPowerModule T} {i : T}

omit [DecidableEq T] in
theorem inv_start (opened : List Int) : Inv (start (T := T) opened) := by
  have hnone : ∀ fd, (start (T := T) opened).table fd ≠ some .boostpulse := by
    intro fd
    show (if 0 ≤ fd ∧ fd ∈ opened then some Owner.others else none) ≠ some .boostpulse
    split <;> simp
  refine ⟨fun j => ?_, fun fd hfd => absurd hfd (hnone fd), fun _ => .inl rfl, fun _ => trivial,
    ?_, fun fd => ?_⟩
  · simp [start, HintPc.holdsLock]
  · intro use huse
    cases huse
  · rw [if_neg (hnone fd)]
    rfl

/-- A thread goes on without a change to the descriptor. -/
theorem Inv.move (h : Inv s) (pc : HintPc) {lock : Option T} (hi : s.pc i ≠ .clearing)
    (hpc : s.PcOk pc) (hlocked : Locked lock (Function.update s.pc i pc)) (warned : Bool)
    (data : T → Int) :
    Inv { s with
      lock, boostpulse_warned := warned, data, pc := Function.update s.pc i pc } := by
  refine ⟨hlocked, h.only, fun hclear => h.clear fun j hj => ?_, fun j => ?_, h.onOwn, h.counts⟩
  · by_cases hji : j = i
    · exact hi (hji ▸ hj)
    · refine hclear j ?_
      show Function.update s.pc i pc j = _
      rw [Function.update_of_ne hji, hj]
  · show s.PcOk (Function.update s.pc i pc j)
    by_cases hji : j = i
    · subst hji
      rw [Function.update_self]
      exact hpc
    · rw [Function.update_of_ne hji]
      exact h.pcOk j

omit [DecidableEq T] in
/-- Who has the lock is alone in having it. -/
theorem Inv.alone_locked (h : Inv s) (hi : (s.pc i).holdsLock = true) {j : T} (hj : j ≠ i) :
    (s.pc j).holdsLock = false := by
  rw [← Bool.not_eq_true, h.locked j, (h.locked i).mp hi]
  simpa using Ne.symm hj

omit [DecidableEq T] in
theorem Inv.not_clearing (h : Inv s) (hi : (s.pc i).holdsLock = true) (hne : s.pc i ≠ .clearing)
    (j : T) : s.pc j ≠ .clearing := by
  by_cases hj : j = i
  · exact hj ▸ hne
  · intro hclear
    have hfree := h.alone_locked hi hj
    rw [hclear] at hfree
    cases hfree

omit [DecidableEq T] in
/-- Where `boostpulse_fd` is negative no thread uses it. -/
theorem PcOk.of_neg {pc : HintPc} (hpc : s.PcOk pc) (hneg : s.boostpulse_fd < 0)
    (hfree : pc.holdsLock = false) (t : CmPowerModule T) : t.PcOk pc := by
  have hnone : ¬ s.InUse := fun huse => absurd huse.1 (Int.not_le.mpr hneg)
  cases pc with
  | reading | relocking => exact absurd hpc hnone
  | writing fd => exact absurd hpc.2 hnone
  | idle | locking | returning => trivial
  | testing | readGovernor | opening | unlocking | closing | clearing | leaving => cases hfree

/-- A change by a thread that has the lock while `boostpulse_fd` is negative. -/
theorem Inv.locked_change (h : Inv s) (hi : (s.pc i).holdsLock = true)
    (hneg : s.boostpulse_fd < 0) (hpc : t.pc = Function.update s.pc i .unlocking) :
    ∀ j, t.PcOk (t.pc j) := by
  intro j
  rw [hpc]
  by_cases hj : j = i
  · subst hj
    rw [Function.update_self]
    trivial
  · rw [Function.update_of_ne hj]
    exact (h.pcOk j).of_neg hneg (h.alone_locked hi hj) t

theorem Inv.openBoostpulse (h : Inv s) {governor : Governor} {result : Option Int}
    (hpc : s.pc i = .opening governor) (hopen : s.openBoostpulse governor result = some t) :
    Inv (t.goTo i .unlocking) := by
  have hi : (s.pc i).holdsLock = true := by
    rw [hpc]
    rfl
  have hneg : s.boostpulse_fd < 0 := by
    have hok := h.pcOk i
    rwa [hpc] at hok
  have hclear : ∀ j, s.pc j ≠ .clearing := h.not_clearing hi (by rw [hpc]; simp)
  have hfd : s.boostpulse_fd = -1 :=
    (h.clear hclear).resolve_right fun huse => absurd huse.1 (Int.not_le.mpr hneg)
  have hnone : ∀ fd, s.table fd ≠ some .boostpulse := by
    intro fd hfd
    have hpos := (h.only fd hfd).2
    rw [(h.only fd hfd).1] at hpos
    omega
  have hlocked : Locked s.lock (Function.update s.pc i .unlocking) :=
    h.locked.keep (by rw [hi]; rfl)
  cases result with
  | none =>
    cases hopen
    refine ⟨hlocked, fun fd hfd => absurd hfd (hnone fd), fun _ => .inl ?_,
      h.locked_change hi hneg rfl, h.onOwn, h.counts⟩
    show (if governor.hasBoostpulse then -1 else s.boostpulse_fd) = -1
    rw [hfd, ite_self]
  | some fd =>
    obtain ⟨⟨-, hpos, hfree⟩, heq⟩ := Option.ite_none_right_eq_some.mp hopen
    cases heq
    refine ⟨hlocked, ?_, fun _ => .inr ⟨hpos, Function.update_self ..⟩,
      h.locked_change hi hneg rfl, on_own_append h.onOwn fun hop => absurd rfl hop, ?_⟩
    · intro fd' hfd'
      by_cases hne : fd' = fd
      · exact ⟨hne, hne ▸ hpos⟩
      · exact absurd ((Function.update_of_ne hne ..).symm.trans hfd') (hnone fd')
    · intro fd'
      show opens (s.uses ++ _) fd' = closes (s.uses ++ _) fd' +
        if Function.update s.table fd (some Owner.boostpulse) fd' = some .boostpulse then 1 else 0
      have hcounts := h.counts fd'
      rw [if_neg (hnone fd')] at hcounts
      rw [opens_append, closes_append, hcounts]
      by_cases hne : fd' = fd
      · subst hne
        rw [Function.update_self]
        simp
      · rw [Function.update_of_ne hne, if_neg (hnone fd')]
        simp [Ne.symm hne]

theorem Inv.writeBoostpulse (h : Inv s) {fd : Int} {ok : Bool} (hpc : s.pc i = .writing fd)
    (hwrite : s.writeBoostpulse i fd ok = some t) : Inv t := by
  obtain ⟨hfd, huse⟩ : fd = s.boostpulse_fd ∧ s.InUse := by
    have hok := h.pcOk i
    rwa [hpc] at hok
  obtain ⟨-, heq⟩ := Option.ite_none_left_eq_some.mp hwrite
  cases heq
  have hmove : Inv { s with pc := Function.update s.pc i (if ok then .idle else .relocking) } := by
    refine h.move _ (by rw [hpc]; simp) ?_ (h.locked.keep ?_) s.boostpulse_warned s.data
    · cases ok
      · exact huse
      · trivial
    · rw [hpc]
      cases ok <;> rfl
  refine ⟨hmove.locked, hmove.only, hmove.clear, hmove.pcOk, on_own_append h.onOwn ?_, ?_⟩
  · intro _
    subst hfd
    refine ⟨huse.2, fun heq => ?_⟩
    have hpos := huse.1
    rw [show s.boostpulse_fd = -1 from heq] at hpos
    omega
  · intro fd'
    show opens (s.uses ++ _) fd' = closes (s.uses ++ _) fd' + _
    rw [opens_append, closes_append, h.counts]
    simp

/-- The descriptor that is closed is in use, and nobody else uses it. -/
theorem Inv.closeBoostpulse (h : Inv s) (hpc : s.pc i = .closing)
    (halone : ∀ j, j ≠ i → (s.pc j).usesFd = false) : Inv (s.closeBoostpulse i) := by
  have hi : (s.pc i).holdsLock = true := by
    rw [hpc]
    rfl
  have huse : s.InUse := by
    have hok := h.pcOk i
    rwa [hpc] at hok
  have hgone : ∀ fd, Function.update s.table s.boostpulse_fd none fd ≠ some .boostpulse := by
    intro fd hfd
    by_cases hne : fd = s.boostpulse_fd
    · rw [hne, Function.update_self] at hfd
      cases hfd
    · rw [Function.update_of_ne hne] at hfd
      exact hne (h.only fd hfd).1
  refine ⟨h.locked.keep (by rw [hi]; rfl), fun fd hfd => absurd hfd (hgone fd),
    fun hclear => absurd (Function.update_self ..) (hclear i), ?_, on_own_append h.onOwn ?_, ?_⟩
  · intro j
    show (s.closeBoostpulse i).PcOk (Function.update s.pc i .clearing j)
    by_cases hj : j = i
    · subst hj
      rw [Function.update_self]
      exact hgone
    · rw [Function.update_of_ne hj]
      have hother := halone j hj
      have hfree := h.alone_locked hi hj
      cases hpcj : s.pc j with
      | idle | locking | returning => trivial
      | reading | writing | relocking =>
        rw [hpcj] at hother
        cases hother
      | testing | readGovernor | opening | unlocking | closing | clearing | leaving =>
        rw [hpcj] at hfree
        cases hfree
  · intro _
    refine ⟨huse.2, fun heq => ?_⟩
    have hpos := huse.1
    rw [show s.boostpulse_fd = -1 from heq] at hpos
    omega
  · intro fd
    show opens (s.uses ++ _) fd = closes (s.uses ++ _) fd +
      if Function.update s.table s.boostpulse_fd none fd = some .boostpulse then 1 else 0
    rw [opens_append, closes_append, h.counts, if_neg (hgone fd)]
    by_cases hne : fd = s.boostpulse_fd
    · subst hne
      rw [huse.2]
      simp
    · have hnot : s.table fd ≠ some .boostpulse := fun hfd => hne (h.only fd hfd).1
      rw [if_neg hnot]
      simp [Ne.symm hne]

theorem Inv.clearBoostpulse (h : Inv s) (hpc : s.pc i = .clearing) :
    Inv (s.clearBoostpulse i) := by
  have hi : (s.pc i).holdsLock = true := by
    rw [hpc]
    rfl
  have hgone : ∀ fd, s.table fd ≠ some .boostpulse := by
    have hok := h.pcOk i
    rwa [hpc] at hok
  have hnone : ¬ s.InUse := fun huse => hgone _ huse.2
  refine ⟨h.locked.keep (by rw [hi]; rfl), fun fd hfd => absurd hfd (hgone fd),
    fun _ => .inl rfl, ?_, h.onOwn, h.counts⟩
  intro j
  show (s.clearBoostpulse i).PcOk (Function.update s.pc i .leaving j)
  by_cases hj : j = i
  · subst hj
    rw [Function.update_self]
    trivial
  · rw [Function.update_of_ne hj]
    have hfree := h.alone_locked hi hj
    have hok := h.pcOk j
    cases hpcj : s.pc j with
    | idle | locking | returning => trivial
    | reading | relocking =>
      rw [hpcj] at hok
      exact absurd hok hnone
    | writing fd =>
      rw [hpcj] at hok
      exact absurd hok.2 hnone
    | testing | readGovernor | opening | unlocking | closing | clearing | leaving =>
      rw [hpcj] at hfree
      cases hfree

omit [DecidableEq T] in
/-- Other code opens or closes a descriptor that is not the module's. -/
theorem Inv.other (h : Inv s) {fd : Int} {owner : Option Owner}
    (hbefore : s.table fd ≠ some .boostpulse) (hafter : owner ≠ some .boostpulse) :
    Inv { s with table := Function.update s.table fd owner } := by
  have hsame : ∀ fd', Function.update s.table fd owner fd' = some .boostpulse ↔
      s.table fd' = some .boostpulse := by
    intro fd'
    by_cases hne : fd' = fd
    · subst hne
      rw [Function.update_self]
      exact iff_of_false hafter hbefore
    · rw [Function.update_of_ne hne]
  have huse : s.InUse → InUse { s with table := Function.update s.table fd owner } :=
    fun huse => ⟨huse.1, (hsame _).mpr huse.2⟩
  refine ⟨h.locked, fun fd' hfd' => h.only fd' ((hsame fd').mp hfd'),
    fun hclear => (h.clear hclear).imp id huse, ?_, h.onOwn, ?_⟩
  · intro j
    have hok := h.pcOk j
    show PcOk _ (s.pc j)
    cases hpc : s.pc j with
    | readGovernor | opening =>
      rw [hpc] at hok
      exact hok
    | reading | relocking | closing =>
      rw [hpc] at hok
      exact huse hok
    | writing n =>
      rw [hpc] at hok
      exact ⟨hok.1, huse hok.2⟩
    | clearing =>
      rw [hpc] at hok
      exact fun fd' => mt (hsame fd').mp (hok fd')
    | idle | locking | testing | unlocking | returning | leaving => trivial
  · intro fd'
    show opens s.uses fd' = closes s.uses fd' + if Function.update s.table fd owner fd' = _ then _
      else _
    rw [h.counts fd']
    simp only [hsame]

theorem Inv.acquire (h : Inv s) (pc : HintPc) (hi : s.pc i ≠ .clearing) (hpc : s.PcOk pc)
    (hholds : pc.holdsLock = true) (hacquire : s.acquire i pc = some t) : Inv t := by
  obtain ⟨hfree, heq⟩ := Option.ite_none_right_eq_some.mp hacquire
  cases heq
  have hlocked := h.locked
  rw [hfree] at hlocked
  exact h.move pc hi hpc (hlocked.acquire hholds) s.boostpulse_warned s.data

theorem Inv.release (h : Inv s) (pc : HintPc) (hholds : (s.pc i).holdsLock = true)
    (hi : s.pc i ≠ .clearing) (hpc : s.PcOk pc) (hfree : pc.holdsLock = false) :
    Inv (s.release i pc) := by
  have hlocked := h.locked
  rw [(h.locked i).mp hholds] at hlocked
  exact h.move pc hi hpc (hlocked.release hfree) s.boostpulse_warned s.data

theorem Inv.goTo (h : Inv s) (pc : HintPc) (hi : s.pc i ≠ .clearing) (hpc : s.PcOk pc)
    (hsame : pc.holdsLock = (s.pc i).holdsLock) : Inv (s.goTo i pc) :=
  h.move pc hi hpc (h.locked.keep hsame) s.boostpulse_warned s.data

theorem Inv.stepThread (h : Inv s) {outcome : Outcome} (halone : s.Alone (.step i outcome))
    (hstep : s.stepThread i outcome = some t) : Inv t := by
  have hok := h.pcOk i
  unfold CmPowerModule.stepThread at hstep
  cases hpc : s.pc i with
  | idle =>
    rw [hpc] at hstep
    cases hstep
  | locking =>
    rw [hpc] at hstep
    cases outcome with
    | go => exact h.acquire .testing (by rw [hpc]; simp) trivial rfl hstep
    | _ => cases hstep
  | testing =>
    rw [hpc] at hstep
    cases outcome with
    | go =>
      cases hstep
      refine h.goTo _ (by rw [hpc]; simp) ?_ ?_
      · split
        next hneg => exact hneg
        · trivial
      · rw [hpc]
        split <;> rfl
    | _ => cases hstep
  | readGovernor =>
    rw [hpc] at hstep hok
    cases outcome with
    | governor result =>
      cases result with
      | none =>
        cases hstep
        exact h.move .unlocking (by rw [hpc]; simp) trivial (h.locked.keep (by rw [hpc]; rfl))
          true s.data
      | some governor =>
        cases hstep
        exact h.goTo _ (by rw [hpc]; simp) hok (by rw [hpc]; rfl)
    | _ => cases hstep
  | opening governor =>
    rw [hpc] at hstep
    cases outcome with
    | descriptor result =>
      obtain ⟨t', hopen, rfl⟩ := Option.map_eq_some_iff.mp hstep
      exact h.openBoostpulse hpc hopen
    | _ => cases hstep
  | unlocking =>
    rw [hpc] at hstep
    cases outcome with
    | go =>
      cases hstep
      exact h.release _ (by rw [hpc]; rfl) (by rw [hpc]; simp) trivial rfl
    | _ => cases hstep
  | returning =>
    rw [hpc] at hstep
    cases outcome with
    | go =>
      cases hstep
      refine h.goTo _ (by rw [hpc]; simp) ?_ ?_
      · split
        next hpos =>
          refine (h.clear (halone.2 hpc)).resolve_left fun heq => ?_
          rw [heq] at hpos
          omega
        · trivial
      · rw [hpc]
        split <;> rfl
    | _ => cases hstep
  | reading =>
    rw [hpc] at hstep hok
    cases outcome with
    | go =>
      cases hstep
      exact h.goTo _ (by rw [hpc]; simp) ⟨rfl, hok⟩ (by rw [hpc]; rfl)
    | _ => cases hstep
  | writing fd =>
    rw [hpc] at hstep
    cases outcome with
    | written ok => exact h.writeBoostpulse hpc hstep
    | _ => cases hstep
  | relocking =>
    rw [hpc] at hstep hok
    cases outcome with
    | go => exact h.acquire .closing (by rw [hpc]; simp) hok rfl hstep
    | _ => cases hstep
  | closing =>
    rw [hpc] at hstep
    cases outcome with
    | go =>
      cases hstep
      exact h.closeBoostpulse hpc (halone.1 hpc)
    | _ => cases hstep
  | clearing =>
    rw [hpc] at hstep
    cases outcome with
    | go =>
      cases hstep
      exact h.clearBoostpulse hpc
    | _ => cases hstep
  | leaving =>
    rw [hpc] at hstep
    cases outcome with
    | go =>
      cases hstep
      exact h.release _ (by rw [hpc]; rfl) (by rw [hpc]; simp) trivial rfl
    | _ => cases hstep

theorem Inv.callHint (h : Inv s) {hint : PowerHint} {data : Int}
    (hcall : s.callHint i hint data = some t) : Inv t := by
  obtain ⟨hidle, heq⟩ := Option.ite_none_right_eq_some.mp hcall
  cases hint with
  | interaction =>
    cases heq
    exact h.move .locking (by rw [hidle]; simp) trivial (h.locked.keep (by rw [hidle]; rfl))
      s.boostpulse_warned _
  | vsync | other =>
    cases heq
    exact h

theorem inv_step (h : Inv s) {a : HintAction T} (halone : s.Alone a) (hstep : s.step a = some t) :
    Inv t := by
  cases a with
  | hint i hint data => exact h.callHint hstep
  | step i outcome => exact h.stepThread halone hstep
  | otherOpen fd =>
    obtain ⟨⟨-, hfree⟩, heq⟩ := Option.ite_none_right_eq_some.mp hstep
    cases heq
    exact h.other (by rw [hfree]; simp) (by simp)
  | otherClose fd =>
    obtain ⟨howner, heq⟩ := Option.ite_none_right_eq_some.mp hstep
    cases heq
    exact h.other (by rw [howner]; simp) (by simp)

omit [DecidableEq T] in
theorem Inv.safe (h : Inv s) : Safe s := by
  refine ⟨fun fd => ?_, h.onOwn, fun hfree => h.clear fun i hclear => ?_⟩
  · rw [h.counts fd]
    exact Nat.le_add_right ..
  · have hholds := (h.locked i).mp (by rw [hclear]; rfl)
    rw [hfree] at hholds
    cases hholds

/-- As long as no thread closes the descriptor under another one, the handle is safe in every state
that the threads and the rest of the process come to. -/
theorem safe_of_alone (opened : List Int) (as : List (HintAction T)) (s : CmPowerModule T)
    (halone : Meets step Alone (start opened) as) (hrun : run step (start opened) as = some s) :
    Safe s :=
  (run_induction_of_meets (fun _ _ _ h => inv_step h) (inv_start opened) halone hrun).safe

end Steps

/-- A thread opens the file with the number 3, and its write fails. -/
def failingHint (i : Bool) : List (HintAction Bool) :=
  [.hint i .interaction 0, .step i .go, .step i .go, .step i (.governor (some .interactive)),
    .step i (.descriptor (some 3)), .step i .go, .step i .go, .step i .go,
    .step i (.written false)]

/-- It closes the file again. -/
def closeAfter (i : Bool) : List (HintAction Bool) :=
  [.step i .go, .step i .go, .step i .go, .step i .go]

theorem safe_of_alone_sample :
    ∃ s, run step (start [0, 1, 2]) (failingHint true ++ closeAfter true ++ failingHint false) =
      some s ∧ Safe s := by
  refine ⟨_, rfl, ?_⟩
  exact safe_of_alone [0, 1, 2] (failingHint true ++ closeAfter true ++ failingHint false) _
    (by decide) rfl

/-- Two threads write. The first fails and closes 3, which other code then gets; the second writes
to it, fails, and closes -1. -/
theorem descriptor_closed_under_writer :
    ∃ s : CmPowerModule Bool, run step (start [0, 1, 2])
        (failingHint true ++
          [.hint false .interaction 0, .step false .go, .step false .go, .step false .go,
            .step false .go, .step false .go] ++ closeAfter true ++
          [.otherOpen 3, .step false (.written false)] ++ closeAfter false) = some s ∧
      s.uses = [⟨.opened, 3, none⟩, ⟨.wrote "1", 3, some .boostpulse⟩,
        ⟨.closed, 3, some .boostpulse⟩, ⟨.wrote "1", 3, some .others⟩, ⟨.closed, -1, none⟩] ∧
      ¬ Safe s := by
  refine ⟨_, rfl, rfl, fun hsafe => ?_⟩
  have huse := hsafe.onOwn ⟨.closed, -1, none⟩ (by decide) (by decide)
  exact absurd rfl huse.2

end CmPowerModule
end Codinalte.Power
