import Codinalte.Sensors.Hal
import Mathlib.Logic.ExistsUnique
import Mathlib.Tactic.SplitIfs

/-! How many polling threads a physical sensor has: with every thread started after the last one has
left, and none that fails, one while the sensor is counted as open, and never two. -/

namespace Codinalte.Sensors
open Codinalte.Machine

/-- The sensor whose flag or thread the call is at. -/
def ActivatePc.current : ActivatePc → Option Polled
  | .flagCleared p _ | .threadCreated p _ _ | .stopping p _ => some p
  | _ => none

/-- The sensor that is being started. -/
def ActivatePc.starts : ActivatePc → Option Polled
  | .flagCleared p _ | .threadCreated p _ _ => some p
  | _ => none

namespace Hal
variable {V : Type}

def wanted (s : Hal V) (p : Polled) : Bool :=
  decide (0 < s.count p) || s.activator.starts == some p

def anyLive (s : Hal V) (p : Polled) : Bool :=
  (List.range (s.created p)).any fun i => (s.thread p i).live

/-- A thread is started only when those before it have left, and is created then; no read fails as
long as the sensor is wanted. -/
def startsCleanly (s : Hal V) : HalAction V → Bool
  | .activator created =>
    match s.activator with
    | .next true (p :: _) => s.count p != 0 || !s.anyLive p
    | .flagCleared _ _ => created
    | _ => true
  | .thread p i none =>
    match s.thread p i with
    | .asleep => !s.wanted p
    | _ => true
  | _ => true

def Live (s : Hal V) (p : Polled) (i : Nat) : Prop := (s.thread p i).live = true

end Hal

variable {V : Type} {s t : Hal V} {p : Polled}

structure ThreadInv (s : Hal V) (p : Polled) : Prop where
  fresh : ∀ i, s.created p ≤ i → s.thread p i = .absent
  untold : ∀ i, s.created p ≤ i → s.told p i = false
  alone : ∀ i j, s.Live p i → s.Live p j → i = j
  running : 0 < s.count p → s.exitFlag p = false ∧ ∃ i, s.Live p i
  cleared : ∀ rest, s.activator = .flagCleared p rest →
    s.count p = 0 ∧ s.exitFlag p = false ∧ ∀ i, ¬ s.Live p i
  starting : ∀ created rest, s.activator = .threadCreated p created rest →
    s.count p = 0 ∧ s.exitFlag p = false ∧ ∃ i, s.Live p i
  stopping : ∀ rest, s.activator = .stopping p rest → s.count p = 0
  told : ∀ i, s.told p i = true → s.Live p i → s.exitFlag p = true

theorem thread_inv_start (slot : SensorsEvent V) (p : Polled) : ThreadInv (Hal.start slot) p where
  fresh := fun _ _ => rfl
  untold := fun _ _ => rfl
  alone := fun _ _ hlive => by cases hlive
  running := fun hpos => by cases hpos
  cleared := fun _ h => by cases h
  starting := fun _ _ h => by cases h
  stopping := fun _ h => by cases h
  told := fun _ h => by cases h

theorem not_live_of_fresh (hinv : ThreadInv s p) {i : Nat} (hi : s.created p ≤ i) :
    ¬ s.Live p i := by
  intro hlive
  have hlive' : (s.thread p i).live = true := hlive
  rw [hinv.fresh i hi] at hlive'
  cases hlive'

theorem not_live_of_any (hinv : ThreadInv s p) (hany : s.anyLive p = false) (i : Nat) :
    ¬ s.Live p i := by
  intro hlive
  have hlt : i < s.created p := by
    by_contra hge
    exact not_live_of_fresh hinv (Nat.le_of_not_lt hge) hlive
  have htrue : s.anyLive p = true := List.any_eq_true.mpr ⟨i, List.mem_range.mpr hlt, hlive⟩
  rw [hany] at htrue
  cases htrue

/-- What concerns one sensor is in order where its fields are the same and the call has not come to
this sensor. -/
theorem ThreadInv.congr (hinv : ThreadInv s p) (hcount : t.count p = s.count p)
    (hexit : t.exitFlag p = s.exitFlag p) (hthread : t.thread p = s.thread p)
    (hcreated : t.created p = s.created p) (htold : t.told p = s.told p)
    (hpc : t.activator = s.activator ∨ t.activator.current ≠ some p) : ThreadInv t p := by
  have hlive : ∀ i, t.Live p i ↔ s.Live p i := by
    intro i
    unfold Hal.Live
    rw [hthread]
  have hkeep : ∀ pc : ActivatePc, pc.current = some p → t.activator = pc → s.activator = pc := by
    intro pc hcurrent heq
    rcases hpc with hsame | hne
    · rw [← hsame, heq]
    · rw [heq] at hne
      exact absurd hcurrent hne
  refine ⟨?_, ?_, ?_, ?_, ?_, ?_, ?_, ?_⟩
  · rw [hcreated, hthread]
    exact hinv.fresh
  · rw [hcreated, htold]
    exact hinv.untold
  · intro i j hi hj
    exact hinv.alone i j ((hlive i).mp hi) ((hlive j).mp hj)
  · rw [hcount, hexit]
    intro hpos
    obtain ⟨hflag, i, hi⟩ := hinv.running hpos
    exact ⟨hflag, i, (hlive i).mpr hi⟩
  · intro rest hrest
    rw [hcount, hexit]
    obtain ⟨hzero, hflag, hnone⟩ := hinv.cleared rest (hkeep _ rfl hrest)
    exact ⟨hzero, hflag, fun i hi => hnone i ((hlive i).mp hi)⟩
  · intro created rest hrest
    rw [hcount, hexit]
    obtain ⟨hzero, hflag, i, hi⟩ := hinv.starting created rest (hkeep _ rfl hrest)
    exact ⟨hzero, hflag, i, (hlive i).mpr hi⟩
  · intro rest hrest
    rw [hcount]
    exact hinv.stopping rest (hkeep _ rfl hrest)
  · intro i htoldi hi
    rw [htold] at htoldi
    rw [hexit]
    exact hinv.told i htoldi ((hlive i).mp hi)

section Activate
variable {q : Polled} {rest : List Polled}

theorem activate_next_inv {enable : Bool} (hinv : ThreadInv s p)
    (hclean : enable = true → s.count p = 0 → s.anyLive p = false) :
    ThreadInv (s.activateNext enable p rest) p := by
  unfold Hal.activateNext Hal.setCount
  split_ifs with henable hzero hzero hone
  · -- the flag is cleared for a thread that is still to be created
    have hnone := not_live_of_any hinv (hclean henable hzero)
    refine ⟨hinv.fresh, hinv.untold, hinv.alone, ?_, ?_, ?_, ?_, ?_⟩
    · intro hpos
      exact absurd hzero hpos.ne'
    · intro _ _
      exact ⟨hzero, Function.update_self .., hnone⟩
    · intro _ _ h
      cases h
    · intro _ h
      cases h
    · intro i _ hi
      exact absurd hi (hnone i)
  · refine ⟨hinv.fresh, hinv.untold, hinv.alone, ?_, ?_, ?_, ?_, hinv.told⟩
    · intro _
      exact hinv.running (Nat.pos_of_ne_zero hzero)
    · intro _ h
      cases h
    · intro _ _ h
      cases h
    · intro _ h
      cases h
  · exact hinv.congr rfl rfl rfl rfl rfl (.inr (fun h => nomatch h))
  · refine ⟨hinv.fresh, hinv.untold, hinv.alone, ?_, ?_, ?_, ?_, hinv.told⟩
    · intro _
      exact hinv.running (Nat.pos_of_ne_zero hzero)
    · intro _ h
      cases h
    · intro _ _ h
      cases h
    · intro _ _
      show Function.update s.count p (s.count p - 1) p = 0
      rw [Function.update_self, hone]
  · refine ⟨hinv.fresh, hinv.untold, hinv.alone, ?_, ?_, ?_, ?_, hinv.told⟩
    · intro _
      exact hinv.running (Nat.pos_of_ne_zero hzero)
    · intro _ h
      cases h
    · intro _ _ h
      cases h
    · intro _ h
      cases h

theorem activate_next_other {enable : Bool} (hinv : ThreadInv s q) (hne : q ≠ p) :
    ThreadInv (s.activateNext enable p rest) q := by
  have hcurrent : some p ≠ some q := fun h => hne (Option.some.inj h).symm
  unfold Hal.activateNext Hal.setCount
  split_ifs
  · exact hinv.congr rfl (Function.update_of_ne hne ..) rfl rfl rfl (.inr hcurrent)
  · exact hinv.congr (Function.update_of_ne hne ..) rfl rfl rfl rfl (.inr (fun h => nomatch h))
  · exact hinv.congr rfl rfl rfl rfl rfl (.inr (fun h => nomatch h))
  · exact hinv.congr (Function.update_of_ne hne ..) rfl rfl rfl rfl (.inr hcurrent)
  · exact hinv.congr (Function.update_of_ne hne ..) rfl rfl rfl rfl (.inr (fun h => nomatch h))

theorem create_thread_inv (hinv : ThreadInv s p) (hpc : s.activator = .flagCleared p rest) :
    ThreadInv (s.createThread p true rest) p := by
  obtain ⟨hzero, hflag, hnone⟩ := hinv.cleared rest hpc
  have hthread : (s.createThread p true rest).thread p =
      Function.update (s.thread p) (s.created p) .testExit := Function.update_self ..
  have hcreated : (s.createThread p true rest).created p = s.created p + 1 :=
    Function.update_self ..
  have hlive : ∀ i, (s.createThread p true rest).Live p i ↔ i = s.created p := by
    intro i
    unfold Hal.Live
    rw [hthread]
    by_cases hi : i = s.created p
    · rw [hi, Function.update_self]
      exact iff_of_true rfl rfl
    · rw [Function.update_of_ne hi]
      exact iff_of_false (hnone i) hi
  refine ⟨?_, ?_, ?_, ?_, ?_, ?_, ?_, ?_⟩
  · intro i hi
    rw [hcreated] at hi
    rw [hthread, Function.update_of_ne (by omega)]
    exact hinv.fresh i (by omega)
  · intro i hi
    rw [hcreated] at hi
    exact hinv.untold i (by omega)
  · intro i j hi hj
    rw [(hlive i).mp hi, (hlive j).mp hj]
  · intro hpos
    exact absurd hzero hpos.ne'
  · intro _ h
    cases h
  · intro _ _ _
    exact ⟨hzero, hflag, s.created p, (hlive _).mpr rfl⟩
  · intro _ h
    cases h
  · intro i htold hi
    -- the new thread was not there when the flag was set
    have hfresh := hinv.untold i (Nat.le_of_eq ((hlive i).mp hi).symm)
    exact absurd (htold.symm.trans hfresh) (by decide)

theorem count_thread_inv {created : Bool} {rest' : List Polled} (hinv : ThreadInv s p)
    (hpc : s.activator = .threadCreated p created rest) :
    ThreadInv (s.setCount p (countUp (s.count p)) (.next true rest')) p := by
  obtain ⟨-, hflag, hlive⟩ := hinv.starting created rest hpc
  refine ⟨hinv.fresh, hinv.untold, hinv.alone, ?_, ?_, ?_, ?_, hinv.told⟩
  · intro _
    exact ⟨hflag, hlive⟩
  · intro _ h
    cases h
  · intro _ _ h
    cases h
  · intro _ h
    cases h

theorem set_exit_inv (hinv : ThreadInv s p) (hpc : s.activator = .stopping p rest) :
    ThreadInv (s.setExit p rest) p := by
  have hzero := hinv.stopping rest hpc
  refine ⟨hinv.fresh, ?_, hinv.alone, ?_, ?_, ?_, ?_, ?_⟩
  · intro i hi
    have htold : (s.setExit p rest).told p = fun i => s.told p i || (s.thread p i).live :=
      Function.update_self ..
    rw [htold]
    dsimp only
    rw [hinv.untold i hi, hinv.fresh i hi]
    rfl
  · intro hpos
    exact absurd hzero hpos.ne'
  · intro _ h
    cases h
  · intro _ _ h
    cases h
  · intro _ h
    cases h
  · intro _ _ _
    exact Function.update_self ..

end Activate

theorem other_current {q : Polled} (hne : q ≠ p) : some p ≠ some q :=
  fun h => hne (Option.some.inj h).symm

theorem activator_inv {created : Bool} (hinv : ∀ q, ThreadInv s q)
    (hok : s.startsCleanly (.activator created) = true) (h : s.stepActivator created = some t)
    (q : Polled) : ThreadInv t q := by
  unfold Hal.stepActivator at h
  split at h
  · cases h
  next enable p rest hpc =>
    cases h
    by_cases hq : q = p
    · subst hq
      apply activate_next_inv (hinv q)
      intro henable hzero
      subst henable
      simpa [Hal.startsCleanly, hpc, hzero] using hok
    · exact activate_next_other (hinv q) hq
  · cases h
    exact (hinv q).congr rfl rfl rfl rfl rfl (.inr (fun h => nomatch h))
  next p rest hpc =>
    cases h
    have hcreated : created = true := by
      simpa [Hal.startsCleanly, hpc] using hok
    subst hcreated
    by_cases hq : q = p
    · subst hq
      exact create_thread_inv (hinv q) hpc
    · exact (hinv q).congr rfl rfl (Function.update_of_ne hq ..) (Function.update_of_ne hq ..) rfl
        (.inr (other_current hq))
  next p ok rest hpc =>
    cases h
    by_cases hq : q = p
    · subst hq
      exact count_thread_inv (hinv q) hpc
    · exact (hinv q).congr (Function.update_of_ne hq ..) rfl rfl rfl rfl (.inr (fun h => nomatch h))
  next p rest hpc =>
    cases h
    by_cases hq : q = p
    · subst hq
      exact set_exit_inv (hinv q) hpc
    · exact (hinv q).congr rfl (Function.update_of_ne hq ..) rfl rfl (Function.update_of_ne hq ..)
        (.inr (fun h => nomatch h))
  · cases h
    exact (hinv q).congr rfl rfl rfl rfl rfl (.inr (fun h => nomatch h))
  · cases h
    unfold Hal.countOpenSensors
    split_ifs <;> exact (hinv q).congr rfl rfl rfl rfl rfl (.inr (fun h => nomatch h))

/-- What a step of a thread leaves alone, and how the thread goes on: it stays, or it leaves at its
set exit flag or after a failed read. -/
structure ThreadStep (s t : Hal V) (p : Polled) (i : Nat) (read : Option V) : Prop where
  count : t.count = s.count
  exitFlag : t.exitFlag = s.exitFlag
  created : t.created = s.created
  told : t.told = s.told
  activator : t.activator = s.activator
  others : ∀ q j, (q, j) ≠ (p, i) → t.thread q j = s.thread q j
  queuedBy : ∀ q j, (q, j) ≠ (p, i) → t.queuedBy q j = s.queuedBy q j
  live : s.Live p i
  next : t.Live p i ∨ (t.thread p i = .exited ∧
    (s.exitFlag p = true ∨ s.thread p i = .asleep ∧ read = none))

theorem set_thread_other (s : Hal V) (p : Polled) (i : Nat) (pc : ThreadPc V) (q : Polled) (j : Nat)
    (hne : (q, j) ≠ (p, i)) : (s.setThread p i pc).thread q j = s.thread q j := by
  unfold Hal.setThread
  by_cases hq : q = p
  · subst hq
    have hj : j ≠ i := fun hj => hne (by rw [hj])
    dsimp only
    rw [Function.update_self, Function.update_of_ne hj]
  · dsimp only
    rw [Function.update_of_ne hq]

theorem set_thread_self (s : Hal V) (p : Polled) (i : Nat) (pc : ThreadPc V) :
    (s.setThread p i pc).thread p i = pc := by
  unfold Hal.setThread
  dsimp only
  rw [Function.update_self, Function.update_self]

theorem thread_step {i : Nat} {read : Option V} (h : s.stepThread p i read = some t) :
    ThreadStep s t p i read := by
  have hlive : ∀ pc : ThreadPc V, s.thread p i = pc → pc.live = true → s.Live p i := by
    rintro pc rfl hpc
    exact hpc
  unfold Hal.stepThread at h
  split at h
  · cases h
  · cases h
  next hpc =>
    cases h
    refine ⟨rfl, rfl, rfl, rfl, rfl, set_thread_other s p i _, fun _ _ _ => rfl,
      hlive _ hpc rfl, ?_⟩
    unfold Hal.Live
    rw [set_thread_self]
    split_ifs with hexit
    · exact .inr ⟨rfl, .inl hexit⟩
    · exact .inl rfl
  next hpc =>
    split at h
    · cases h
      refine ⟨rfl, rfl, rfl, rfl, rfl, set_thread_other s p i _, fun _ _ _ => rfl,
      hlive _ hpc rfl, ?_⟩
      exact .inr ⟨set_thread_self .., .inr ⟨hpc, rfl⟩⟩
    · cases h
      refine ⟨rfl, rfl, rfl, rfl, rfl, set_thread_other s p i _, fun _ _ _ => rfl,
      hlive _ hpc rfl, .inl ?_⟩
      unfold Hal.Live
      rw [set_thread_self]
      rfl
  next values hpc =>
    cases h
    refine ⟨rfl, rfl, rfl, rfl, rfl, set_thread_other s p i _, ?_, hlive _ hpc rfl, .inl ?_⟩
    · intro q j hne
      dsimp only
      by_cases hq : q = p
      · subst hq
        have hj : j ≠ i := fun hj => hne (by rw [hj])
        rw [Function.update_self, Function.update_of_ne hj]
      · rw [Function.update_of_ne hq]
    exact congrArg ThreadPc.live (set_thread_self s p i .testExit)

theorem thread_inv_thread {i : Nat} {read : Option V} (hinv : ∀ q, ThreadInv s q)
    (hok : s.startsCleanly (.thread p i read) = true) (h : s.stepThread p i read = some t)
    (q : Polled) : ThreadInv t q := by
  obtain ⟨hcount, hexit, hcreated, htold, hpc, hothers, -, hlive, hnext⟩ := thread_step h
  by_cases hq : q = p
  · subst hq
    have hsub : ∀ j, t.Live q j → s.Live q j := by
      intro j hj
      by_cases hji : j = i
      · rw [hji]
        exact hlive
      · unfold Hal.Live at hj ⊢
        rwa [hothers q j (by simp [hji])] at hj
    -- while the flag is clear and the sensor is wanted, the thread cannot leave
    have hstays : s.exitFlag q = false → s.wanted q = true → ∃ j, t.Live q j := by
      intro hflag hwanted
      rcases hnext with hstay | ⟨-, hset | ⟨hasleep, rfl⟩⟩
      · exact ⟨i, hstay⟩
      · rw [hflag] at hset
        cases hset
      · simp [Hal.startsCleanly, hasleep, hwanted] at hok
    refine ⟨?_, ?_, ?_, ?_, ?_, ?_, ?_, ?_⟩
    · intro j hj
      rw [hcreated] at hj
      have hji : j ≠ i := by
        rintro rfl
        exact not_live_of_fresh (hinv q) hj hlive
      rw [hothers q j (by simp [hji])]
      exact (hinv q).fresh j hj
    · rw [hcreated, htold]
      exact (hinv q).untold
    · intro j k hj hk
      exact (hinv q).alone j k (hsub j hj) (hsub k hk)
    · rw [hcount, hexit]
      intro hpos
      have hflag := ((hinv q).running hpos).1
      exact ⟨hflag, hstays hflag (by simp [Hal.wanted, hpos])⟩
    · intro rest hrest
      rw [hcount, hexit]
      rw [hpc] at hrest
      obtain ⟨-, -, hnone⟩ := (hinv q).cleared rest hrest
      exact absurd hlive (hnone i)
    · intro created rest hrest
      rw [hcount, hexit]
      rw [hpc] at hrest
      obtain ⟨hzero, hflag, -⟩ := (hinv q).starting created rest hrest
      exact ⟨hzero, hflag, hstays hflag (by simp [Hal.wanted, hrest, ActivatePc.starts])⟩
    · intro rest hrest
      rw [hcount]
      rw [hpc] at hrest
      exact (hinv q).stopping rest hrest
    · intro j htoldj hj
      rw [htold] at htoldj
      rw [hexit]
      exact (hinv q).told j htoldj (hsub j hj)
  · refine (hinv q).congr (by rw [hcount]) (by rw [hexit]) ?_ (by rw [hcreated]) (by rw [htold])
      (.inl hpc)
    funext j
    exact hothers q j (by simp [hq])

theorem thread_inv_step {a : HalAction V} (hinv : ∀ q, ThreadInv s q)
    (hok : s.startsCleanly a = true) (h : s.step a = some t) (q : Polled) : ThreadInv t q := by
  cases a with
  | activate handle enabled =>
    obtain ⟨-, heq⟩ := Option.ite_none_right_eq_some.mp h
    cases heq
    refine (hinv q).congr rfl rfl rfl rfl rfl (.inr ?_)
    show (Hal.activateStart handle enabled).current ≠ some q
    unfold Hal.activateStart
    split_ifs <;> exact fun h => nomatch h
  | activator created => exact activator_inv hinv hok h q
  | thread p i read => exact thread_inv_thread hinv hok h q
  | other thread values =>
    cases h
    exact (hinv q).congr rfl rfl rfl rfl rfl (.inl rfl)
  | poll =>
    obtain ⟨-, heq⟩ := Option.ite_none_right_eq_some.mp h
    cases heq
    unfold Hal.poll
    split_ifs <;> exact (hinv q).congr rfl rfl rfl rfl rfl (.inl rfl)
  | spuriousWakeUp | reader =>
    obtain ⟨-, heq⟩ := Option.ite_none_right_eq_some.mp h
    cases heq
    exact (hinv q).congr rfl rfl rfl rfl rfl (.inl rfl)

theorem thread_inv_run {slot : SensorsEvent V} {as : List (HalAction V)}
    (hrun : run Hal.step (.start slot) as = some s)
    (hok : Meets Hal.step (fun s a => s.startsCleanly a = true) (.start slot) as) (p : Polled) :
    ThreadInv s p := by
  refine run_induction_of_meets (P := fun s => ∀ q, ThreadInv s q) ?_ (thread_inv_start slot) hok
    hrun p
  intro s a t hinv hok hstep
  exact thread_inv_step hinv hok hstep

/-- A thread that has left, and will not be one of those still to be created. -/
structure Gone (s : Hal V) (p : Polled) (i queued : Nat) : Prop where
  fresh : ∀ j, s.created p ≤ j → s.thread p j = .absent
  exited : s.thread p i = .exited
  queuedBy : s.queuedBy p i = queued

theorem Gone.congr {i queued : Nat} (hgone : Gone s p i queued) (hthread : t.thread p = s.thread p)
    (hcreated : t.created p = s.created p) (hqueued : t.queuedBy p = s.queuedBy p) :
    Gone t p i queued := by
  refine ⟨?_, ?_, ?_⟩
  · rw [hthread, hcreated]
    exact hgone.fresh
  · rw [hthread]
    exact hgone.exited
  · rw [hqueued]
    exact hgone.queuedBy

theorem gone_create {i queued : Nat} (hgone : Gone s p i queued) (rest : List Polled) :
    Gone (s.createThread p true rest) p i queued := by
  have hthread : (s.createThread p true rest).thread p =
      Function.update (s.thread p) (s.created p) .testExit := Function.update_self ..
  have hcreated : (s.createThread p true rest).created p = s.created p + 1 :=
    Function.update_self ..
  refine ⟨?_, ?_, hgone.queuedBy⟩
  · intro j hj
    rw [hcreated] at hj
    rw [hthread, Function.update_of_ne (by omega)]
    exact hgone.fresh j (by omega)
  · have hne : i ≠ s.created p := by
      rintro rfl
      have habsent := hgone.fresh _ (Nat.le_refl _)
      rw [hgone.exited] at habsent
      cases habsent
    rw [hthread, Function.update_of_ne hne]
    exact hgone.exited

theorem gone_step {i queued : Nat} {a : HalAction V} (hgone : Gone s p i queued)
    (h : s.step a = some t) : Gone t p i queued := by
  cases a with
  | activate handle enabled =>
    obtain ⟨-, heq⟩ := Option.ite_none_right_eq_some.mp h
    cases heq
    exact hgone.congr rfl rfl rfl
  | activator created =>
    have h' : s.stepActivator created = some t := h
    unfold Hal.stepActivator at h'
    split at h'
    · cases h'
    · cases h'
      unfold Hal.activateNext Hal.setCount
      split_ifs <;> exact hgone.congr rfl rfl rfl
    · cases h'
      exact hgone.congr rfl rfl rfl
    next q rest hpc =>
      cases h'
      cases created with
      | false => exact hgone.congr rfl rfl rfl
      | true =>
        by_cases hq : p = q
        · subst hq
          exact gone_create hgone rest
        · exact hgone.congr (Function.update_of_ne hq ..) (Function.update_of_ne hq ..) rfl
    · cases h'
      exact hgone.congr rfl rfl rfl
    · cases h'
      exact hgone.congr rfl rfl rfl
    · cases h'
      exact hgone.congr rfl rfl rfl
    · cases h'
      unfold Hal.countOpenSensors
      split_ifs <;> exact hgone.congr rfl rfl rfl
  | thread q j read =>
    obtain ⟨-, -, hcreated, -, -, hothers, hqueued, hlive, -⟩ := thread_step h
    have hlive' : (s.thread q j).live = true := hlive
    have hne : ∀ k pc, s.thread p k = pc → pc.live = false → (p, k) ≠ (q, j) := by
      rintro k pc rfl hpc heq
      cases heq
      rw [hlive'] at hpc
      cases hpc
    refine ⟨?_, ?_, ?_⟩
    · intro k hk
      rw [hcreated] at hk
      rw [hothers p k (hne k _ (hgone.fresh k hk) rfl)]
      exact hgone.fresh k hk
    · rw [hothers p i (hne i _ hgone.exited rfl)]
      exact hgone.exited
    · rw [hqueued p i (hne i _ hgone.exited rfl)]
      exact hgone.queuedBy
  | other thread values =>
    cases h
    exact hgone.congr rfl rfl rfl
  | poll =>
    obtain ⟨-, heq⟩ := Option.ite_none_right_eq_some.mp h
    cases heq
    unfold Hal.poll
    split_ifs <;> exact hgone.congr rfl rfl rfl
  | spuriousWakeUp | reader =>
    obtain ⟨-, heq⟩ := Option.ite_none_right_eq_some.mp h
    cases heq
    exact hgone.congr rfl rfl rfl

/-- In every run in which threads are started cleanly, a physical sensor has at most one thread that
still queues events, and one that has not been told to exit while it is counted as open; a thread
that was told to exit finds its flag set, and one that has left queues nothing, whatever follows. -/
theorem one_polling_thread (slot : SensorsEvent V) (as : List (HalAction V)) (s : Hal V)
    (hrun : run Hal.step (.start slot) as = some s)
    (hok : Meets Hal.step (fun s a => s.startsCleanly a = true) (.start slot) as) (p : Polled) :
    (∀ i j, s.Live p i → s.Live p j → i = j) ∧
      (0 < s.count p → s.exitFlag p = false ∧ ∃! i, s.Live p i ∧ s.told p i = false) ∧
      (∀ i, s.told p i = true → s.Live p i → s.exitFlag p = true) ∧
      ∀ i, s.thread p i = .exited → ∀ more u, run Hal.step s more = some u →
        u.thread p i = .exited ∧ u.queuedBy p i = s.queuedBy p i := by
  have hinv := thread_inv_run hrun hok p
  refine ⟨hinv.alone, ?_, hinv.told, ?_⟩
  · intro hpos
    obtain ⟨hflag, i, hi⟩ := hinv.running hpos
    have htold : s.told p i = false := by
      cases htold : s.told p i with
      | false => rfl
      | true =>
        have hset := hinv.told i htold hi
        rw [hflag] at hset
        cases hset
    exact ⟨hflag, i, ⟨hi, htold⟩, fun j hj => hinv.alone j i hj.1 hi⟩
  · intro i hexited more u hmore
    have hgone : Gone s p i (s.queuedBy p i) := ⟨hinv.fresh, hexited, rfl⟩
    have hgone' := run_induction (P := fun s' => Gone s' p i (s.queuedBy p i))
      (fun _ _ _ hs hstep => gone_step hs hstep) hgone hmore
    exact ⟨hgone'.exited, hgone'.queuedBy⟩

/-- The accelerometer is enabled, disabled, and enabled again once its thread has left. -/
def sampleActivations : List (HalAction Nat) :=
  [.activate 0 true, .activator true, .activator true, .activator true, .activator true,
    .activator true, .thread .acc 0 none, .thread .acc 0 (some 7), .thread .acc 0 none,
    .activate 0 false, .activator true, .activator true, .activator true, .activator true,
    .thread .acc 0 none, .activate 0 true, .activator true, .activator true, .activator true]

theorem one_polling_thread_sample : ∃ s, run Hal.step (.start ⟨0, 0⟩) sampleActivations = some s ∧
    s.count .acc = 1 ∧ s.created .acc = 2 ∧ ∃! i, s.Live .acc i ∧ s.told .acc i = false := by
  have hrun : ∃ s, run Hal.step (.start ⟨0, 0⟩) sampleActivations = some s ∧
      s.count .acc = 1 ∧ s.created .acc = 2 := ⟨_, rfl, rfl, rfl⟩
  obtain ⟨s, hs, hcount, hcreated⟩ := hrun
  obtain ⟨-, hrunning, -⟩ := one_polling_thread ⟨0, 0⟩ sampleActivations s hs (by decide) .acc
  exact ⟨s, hs, hcount, hcreated, (hrunning (by omega)).2⟩

/-- Disabled and enabled again while its first thread sleeps, the accelerometer has two threads, and
each of them queues an event afterwards; enabled without a thread, it has none. -/
theorem two_polling_threads :
    (∃ s, run Hal.step (.start ⟨0, 0⟩)
        [.activate 0 true, .activator true, .activator true, .activator true, .activator true,
          .activator true, .thread .acc 0 none, .activate 0 false, .activator true, .activator true,
          .activator true, .activator true, .activate 0 true, .activator true, .activator true,
          .activator true, .activator true, .activator true] = some s ∧
      s.count .acc = 1 ∧ s.Live .acc 0 ∧ s.Live .acc 1 ∧
      ∃ u, run Hal.step s [.thread .acc 0 (some 7), .thread .acc 0 none, .thread .acc 1 none,
          .thread .acc 1 (some 8), .thread .acc 1 none] = some u ∧
        u.queuedBy .acc 0 = 1 ∧ u.queuedBy .acc 1 = 1) ∧
    ∃ s, run Hal.step (.start ⟨0, 0⟩)
        [.activate 0 true, .activator true, .activator false, .activator false] = some s ∧
      s.count .acc = 1 ∧ ∀ i, ¬ s.Live .acc i := by
  refine ⟨⟨_, rfl, rfl, rfl, rfl, _, rfl, rfl, rfl⟩, _, rfl, rfl, ?_⟩
  intro i hlive
  cases hlive

end Codinalte.Sensors
