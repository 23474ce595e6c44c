import Mathlib.Logic.Function.Basic
import Mathlib.Order.Lattice

/-! Rules over a store, each run again only where a variable that it reads has changed since its
last run. The stamps that tell so are counted modulo a bound; as long as they do not come round,
the loop gives what running every rule in every round gives. -/

namespace StampedRules

/-- A run gives the store that it leaves, and whether it has changed the variable of the rule. -/
structure Rules (σ V K E : Type) where
  order : List K
  var : K → V
  deps : K → List V
  run : K → σ → σ × Except E Bool

structure Loop (σ V K : Type) where
  store : σ
  rstamps : K → Nat
  vstamps : V → Nat
  stamp : Nat
  again : Bool
  runs : Nat

namespace Rules
variable {σ V K E : Type} (R : Rules σ V K E) (modulus : Nat)

def due (l : Loop σ V K) (k : K) : Bool :=
  (R.deps k).any fun d => decide (l.rstamps k < l.vstamps d)

def visit [DecidableEq V] [DecidableEq K] (l : Loop σ V K) (k : K) :
    Except (E × σ) (Loop σ V K) :=
  if R.due l k then
    match R.run k l.store with
    | (s, .error e) => .error (e, s)
    | (s, .ok changed) =>
      .ok {
        store := s
        rstamps := Function.update l.rstamps k l.stamp
        vstamps := if changed then Function.update l.vstamps (R.var k) l.stamp else l.vstamps
        stamp := (l.stamp + 1) % modulus
        again := l.again || changed
        runs := l.runs + 1 }
  else .ok l

def pass [DecidableEq V] [DecidableEq K] : List K → Loop σ V K → Except (E × σ) (Loop σ V K)
  | [], l => .ok l
  | k :: ks, l =>
    match R.visit modulus l k with
    | .error e => .error e
    | .ok l => pass ks l

/-- `none` is a loop that the fuel was not enough for. -/
def rounds [DecidableEq V] [DecidableEq K] : Nat → Loop σ V K → Option (Except (E × σ) (Loop σ V K))
  | 0, _ => none
  | fuel + 1, l =>
    match R.pass modulus R.order { l with again := false } with
    | .error e => some (.error e)
    | .ok l => if l.again then rounds fuel l else some (.ok l)

/-- Every rule in turn, whether it is due or not. -/
def plainPass : List K → σ → Except (E × σ) (σ × Bool)
  | [], s => .ok (s, false)
  | k :: ks, s =>
    match R.run k s with
    | (s, .error e) => .error (e, s)
    | (s, .ok changed) => (plainPass ks s).map fun r => (r.1, changed || r.2)

def plainRounds : Nat → σ → Option (Except (E × σ) σ)
  | 0, _ => none
  | fuel + 1, s =>
    match R.plainPass R.order s with
    | .error e => some (.error e)
    | .ok (s, again) => if again then plainRounds fuel s else some (.ok s)

/-- Nothing is left for the rule to do. -/
def Stable (k : K) (s : σ) : Prop := R.run k s = (s, .ok false)

/-- What the rules keep on the stores that are good: a run that reports no change has made none, a
rule is done after its own run, and stays so until a variable that it reads changes. -/
structure Lawful (Good : σ → Prop) : Prop where
  kept : ∀ {k s changed}, Good s → (R.run k s).2 = .ok changed → Good (R.run k s).1
  idle : ∀ {k s}, Good s → (R.run k s).2 = .ok false → (R.run k s).1 = s
  settled : ∀ {k s}, Good s → (R.run k s).2 = .ok true → R.Stable k (R.run k s).1
  apart : ∀ {j k s}, Good s → (R.run j s).2 = .ok true → R.var j ∉ R.deps k → R.Stable k s →
    R.Stable k (R.run j s).1

/-- The stamps are those of the past, and a rule that is not due has nothing to do. -/
structure Fresh (l : Loop σ V K) : Prop where
  stamp : l.stamp = l.runs + 2
  rule : ∀ k, l.rstamps k < l.stamp
  changed : ∀ v, l.vstamps v < l.stamp
  covered : ∀ k, R.due l k = true ∨ R.Stable k l.store

/-- No rule fails on a good store, and a change makes the store smaller. -/
structure Descends (Good : σ → Prop) (size : σ → Nat) : Prop where
  succeeds : ∀ {k s}, Good s → ∃ changed, (R.run k s).2 = .ok changed
  shrinks : ∀ {k s}, Good s → (R.run k s).2 = .ok true → size (R.run k s).1 < size s

variable {R modulus} {Good : σ → Prop} {l l' : Loop σ V K} {k : K} {ks : List K}

theorem due_of_mem {d : V} (hd : d ∈ R.deps k) (h : l.rstamps k < l.vstamps d) :
    R.due l k = true :=
  List.any_eq_true.mpr ⟨d, hd, decide_eq_true h⟩

theorem plainPass_unchanged {s s' : σ} (law : R.Lawful Good) (hgood : Good s)
    (hpass : R.plainPass ks s = .ok (s', false)) : s' = s ∧ ∀ k ∈ ks, R.Stable k s := by
  induction ks generalizing s with
  | nil =>
    cases hpass
    exact ⟨rfl, nofun⟩
  | cons k ks ih =>
    rcases hrun : R.run k s with ⟨t, error | changed⟩
    · simp only [plainPass, hrun] at hpass
      cases hpass
    · rcases hrest : R.plainPass ks t with error | ⟨u, later⟩
      · simp only [plainPass, hrun, hrest, Except.map] at hpass
        cases hpass
      · simp only [plainPass, hrun, hrest, Except.map, Except.ok.injEq, Prod.mk.injEq,
          Bool.or_eq_false_iff] at hpass
        obtain ⟨rfl, rfl, rfl⟩ := hpass
        have hidle := law.idle hgood (by rw [hrun])
        rw [hrun] at hidle
        have hsame : t = s := hidle
        subst hsame
        obtain ⟨hu, hstable⟩ := ih hgood hrest
        refine ⟨hu, ?_⟩
        intro j hj
        rcases List.mem_cons.mp hj with rfl | hj
        · exact hrun
        · exact hstable j hj

theorem fresh_again (again : Bool) (hfresh : R.Fresh l) : R.Fresh { l with again := again } :=
  ⟨hfresh.stamp, hfresh.rule, hfresh.changed, hfresh.covered⟩

variable [DecidableEq V]

/-- A run that changed its variable leaves each other rule due, or as done as it was. -/
theorem covered_of_changed {s : σ} {j : K} (law : R.Lawful Good) (hgood : Good l.store)
    (hfresh : R.Fresh l) (hrun : R.run k l.store = (s, .ok true)) :
    (∃ d ∈ R.deps j, l.rstamps j < Function.update l.vstamps (R.var k) l.stamp d) ∨
      R.Stable j s := by
  by_cases hmem : R.var k ∈ R.deps j
  · refine .inl ⟨R.var k, hmem, ?_⟩
    rw [Function.update_self]
    exact hfresh.rule j
  · rcases hfresh.covered j with hdue | hstable
    · obtain ⟨d, hd, hlt⟩ := List.any_eq_true.mp hdue
      refine .inl ⟨d, hd, ?_⟩
      have hdk : d ≠ R.var k := fun h => hmem (h ▸ hd)
      rw [Function.update_of_ne hdk]
      exact of_decide_eq_true hlt
    · refine .inr ?_
      have hok : (R.run k l.store).2 = .ok true := by rw [hrun]
      have hapart := law.apart hgood hok hmem hstable
      rwa [hrun] at hapart

variable [DecidableEq K]

theorem visit_of_due {s : σ} {changed : Bool} (hdue : R.due l k = true)
    (hrun : R.run k l.store = (s, .ok changed)) :
    R.visit modulus l k = .ok {
      store := s
      rstamps := Function.update l.rstamps k l.stamp
      vstamps := if changed then Function.update l.vstamps (R.var k) l.stamp else l.vstamps
      stamp := (l.stamp + 1) % modulus
      again := l.again || changed
      runs := l.runs + 1 } := by
  simp only [visit, hdue, if_true, hrun]

/-- A rule was passed over, or it has run. -/
theorem visit_cases (hvisit : R.visit modulus l k = .ok l') :
    (R.due l k = false ∧ l' = l) ∨
      ∃ s changed, R.due l k = true ∧ R.run k l.store = (s, .ok changed) ∧ l' = {
        store := s
        rstamps := Function.update l.rstamps k l.stamp
        vstamps := if changed then Function.update l.vstamps (R.var k) l.stamp else l.vstamps
        stamp := (l.stamp + 1) % modulus
        again := l.again || changed
        runs := l.runs + 1 } := by
  by_cases hdue : R.due l k = true
  · rcases hrun : R.run k l.store with ⟨s, error | changed⟩
    · simp only [visit, hdue, if_true, hrun] at hvisit
      cases hvisit
    · rw [visit_of_due hdue hrun] at hvisit
      exact .inr ⟨s, changed, hdue, rfl, (Except.ok.inj hvisit).symm⟩
  · rw [visit, if_neg hdue] at hvisit
    exact .inl ⟨Bool.eq_false_iff.mpr hdue, (Except.ok.inj hvisit).symm⟩

theorem visit_runs (hvisit : R.visit modulus l k = .ok l') :
    l.runs ≤ l'.runs ∧ l'.runs ≤ l.runs + 1 := by
  rcases visit_cases hvisit with ⟨-, rfl⟩ | ⟨s, changed, -, -, rfl⟩
  · exact ⟨le_rfl, Nat.le_succ _⟩
  · exact ⟨Nat.le_succ l.runs, le_rfl⟩

theorem pass_runs (hpass : R.pass modulus ks l = .ok l') :
    l.runs ≤ l'.runs ∧ l'.runs ≤ l.runs + ks.length := by
  induction ks generalizing l with
  | nil =>
    cases hpass
    exact ⟨le_rfl, le_rfl⟩
  | cons k ks ih =>
    rw [pass] at hpass
    split at hpass
    · cases hpass
    · next m hvisit =>
      obtain ⟨hle, hle'⟩ := visit_runs hvisit
      obtain ⟨hrest, hrest'⟩ := ih hpass
      rw [List.length_cons]
      exact ⟨hle.trans hrest, by omega⟩

theorem rounds_runs {fuel : Nat} (hrounds : R.rounds modulus fuel l = some (.ok l')) :
    l.runs ≤ l'.runs ∧ l'.runs ≤ l.runs + fuel * R.order.length := by
  induction fuel generalizing l with
  | zero => cases hrounds
  | succ fuel ih =>
    rw [rounds] at hrounds
    split at hrounds
    · cases hrounds
    · next m hpass =>
      have hle : l.runs ≤ m.runs ∧ m.runs ≤ l.runs + R.order.length :=
        pass_runs (l := { l with again := false }) hpass
      have hlength : (fuel + 1) * R.order.length = fuel * R.order.length + R.order.length :=
        Nat.succ_mul _ _
      split at hrounds
      · obtain ⟨hrest, hrest'⟩ := ih hrounds
        exact ⟨hle.1.trans hrest, by omega⟩
      · cases hrounds
        exact ⟨hle.1, by omega⟩

theorem visit_fresh (law : R.Lawful Good) (hgood : Good l.store) (hfresh : R.Fresh l)
    (hvisit : R.visit modulus l k = .ok l') (hruns : l'.runs + 2 < modulus) :
    Good l'.store ∧ R.Fresh l' ∧
      ∃ changed, R.run k l.store = (l'.store, .ok changed) ∧ l'.again = (l.again || changed) := by
  rcases visit_cases hvisit with ⟨hdue, rfl⟩ | ⟨s, changed, hdue, hrun, rfl⟩
  · have hstable : R.Stable k l'.store :=
      (hfresh.covered k).resolve_left (Bool.eq_false_iff.mp hdue)
    exact ⟨hgood, hfresh, false, hstable, (Bool.or_false _).symm⟩
  · have hok : (R.run k l.store).2 = .ok changed := by rw [hrun]
    have hkept : Good s := by
      have hrun' := law.kept hgood hok
      rwa [hrun] at hrun'
    have hstamp : (l.stamp + 1) % modulus = l.stamp + 1 := by
      have hnext : l.runs + 1 + 2 < modulus := hruns
      rw [Nat.mod_eq_of_lt]
      rw [hfresh.stamp]
      exact hnext
    refine ⟨hkept, ⟨?_, ?_, ?_, ?_⟩, changed, hrun, rfl⟩
    · show (l.stamp + 1) % modulus = l.runs + 1 + 2
      rw [hstamp, hfresh.stamp]
    · intro j
      show Function.update l.rstamps k l.stamp j < (l.stamp + 1) % modulus
      rw [hstamp]
      by_cases hj : j = k
      · rw [hj, Function.update_self]
        exact Nat.lt_succ_self _
      · rw [Function.update_of_ne hj]
        exact (hfresh.rule j).trans (Nat.lt_succ_self _)
    · intro v
      show (if changed then Function.update l.vstamps (R.var k) l.stamp else l.vstamps) v <
        (l.stamp + 1) % modulus
      rw [hstamp]
      have hold : l.vstamps v < l.stamp + 1 := (hfresh.changed v).trans (Nat.lt_succ_self _)
      split
      · by_cases hv : v = R.var k
        · rw [hv, Function.update_self]
          exact Nat.lt_succ_self _
        · rwa [Function.update_of_ne hv]
      · exact hold
    · intro j
      by_cases hj : j = k
      · subst hj
        refine .inr ?_
        cases changed with
        | true =>
          have hsettled := law.settled hgood hok
          rwa [hrun] at hsettled
        | false =>
          have hidle := law.idle hgood hok
          rw [hrun] at hidle
          have hsame : s = l.store := hidle
          show R.run j s = (s, .ok false)
          rw [hsame] at hrun ⊢
          exact hrun
      · cases changed with
        | true =>
          refine (covered_of_changed law hgood hfresh hrun).imp ?_ id
          rintro ⟨d, hd, hlt⟩
          refine due_of_mem hd ?_
          show Function.update l.rstamps k l.stamp j < Function.update l.vstamps _ l.stamp d
          rwa [Function.update_of_ne hj]
        | false =>
          have hidle := law.idle hgood hok
          rw [hrun] at hidle
          have hsame : s = l.store := hidle
          rw [hsame]
          refine (hfresh.covered j).imp ?_ id
          intro hlate
          obtain ⟨d, hd, hlt⟩ := List.any_eq_true.mp hlate
          refine due_of_mem hd ?_
          show Function.update l.rstamps k l.stamp j < l.vstamps d
          rw [Function.update_of_ne hj]
          exact of_decide_eq_true hlt

theorem pass_plain (law : R.Lawful Good) (hgood : Good l.store) (hfresh : R.Fresh l)
    (hpass : R.pass modulus ks l = .ok l') (hruns : l'.runs + 2 < modulus) :
    Good l'.store ∧ R.Fresh l' ∧
      ∃ changed, R.plainPass ks l.store = .ok (l'.store, changed) ∧
        l'.again = (l.again || changed) := by
  induction ks generalizing l with
  | nil =>
    cases hpass
    exact ⟨hgood, hfresh, false, rfl, (Bool.or_false _).symm⟩
  | cons k ks ih =>
    rw [pass] at hpass
    split at hpass
    · cases hpass
    · next m hvisit =>
      have hle : m.runs + 2 < modulus := by
        have hlater := (pass_runs hpass).1
        omega
      obtain ⟨hgood', hfresh', changed, hrun, hagain⟩ := visit_fresh law hgood hfresh hvisit hle
      obtain ⟨hgood'', hfresh'', later, hplain, hagain'⟩ := ih hgood' hfresh' hpass
      refine ⟨hgood'', hfresh'', changed || later, ?_, ?_⟩
      · simp only [plainPass, hrun, hplain, Except.map]
      · rw [hagain', hagain, Bool.or_assoc]

/-- The stamps change nothing about the result, and the loop ends where no rule has anything to
do. -/
theorem rounds_plain {fuel : Nat} (law : R.Lawful Good) (hgood : Good l.store)
    (hfresh : R.Fresh l) (hrounds : R.rounds modulus fuel l = some (.ok l'))
    (hruns : l'.runs + 2 < modulus) :
    R.plainRounds fuel l.store = some (.ok l'.store) ∧ ∀ k ∈ R.order, R.Stable k l'.store := by
  induction fuel generalizing l with
  | zero => cases hrounds
  | succ fuel ih =>
    rw [rounds] at hrounds
    split at hrounds
    · cases hrounds
    · next m hpass =>
      have hle : m.runs + 2 < modulus := by
        split at hrounds
        · have hlater := (rounds_runs hrounds).1
          omega
        · cases hrounds
          exact hruns
      obtain ⟨hgood', hfresh', changed, hplain, hagain⟩ :=
        pass_plain (l := { l with again := false }) law hgood (fresh_again false hfresh) hpass hle
      have hchanged : m.again = changed := by rw [hagain, Bool.false_or]
      cases changed with
      | true =>
        rw [if_pos hchanged] at hrounds
        obtain ⟨hrest, hstable⟩ := ih hgood' hfresh' hrounds
        refine ⟨?_, hstable⟩
        simp only [plainRounds, hplain, if_true]
        exact hrest
      | false =>
        rw [if_neg (Bool.eq_false_iff.mp hchanged)] at hrounds
        cases hrounds
        obtain ⟨hsame, hstable⟩ := plainPass_unchanged law hgood hplain
        refine ⟨?_, ?_⟩
        · simp only [plainRounds, hplain, Bool.false_eq_true, if_false]
        · rw [hsame]
          exact hstable

theorem visit_ends {size : σ → Nat} (law : R.Lawful Good) (desc : R.Descends Good size)
    (modulus : Nat) (hgood : Good l.store) (k : K) :
    ∃ l', R.visit modulus l k = .ok l' ∧ Good l'.store ∧ size l'.store ≤ size l.store ∧
      (l'.again = true → l.again = true ∨ size l'.store < size l.store) := by
  by_cases hdue : R.due l k = true
  · obtain ⟨changed, hok⟩ := desc.succeeds (k := k) hgood
    have hrun : R.run k l.store = ((R.run k l.store).1, .ok changed) := by rw [← hok]
    refine ⟨_, visit_of_due hdue hrun, law.kept hgood hok, ?_, ?_⟩
    · cases changed with
      | true => exact (desc.shrinks hgood hok).le
      | false => exact (congrArg size (law.idle hgood hok)).le
    · intro hagain
      cases changed with
      | true => exact .inr (desc.shrinks hgood hok)
      | false => exact .inl (by rwa [Bool.or_false] at hagain)
  · exact ⟨l, if_neg hdue, hgood, le_rfl, .inl⟩

theorem pass_ends {size : σ → Nat} (law : R.Lawful Good) (desc : R.Descends Good size)
    (modulus : Nat) (hgood : Good l.store) (ks : List K) :
    ∃ l', R.pass modulus ks l = .ok l' ∧ Good l'.store ∧ size l'.store ≤ size l.store ∧
      (l'.again = true → l.again = true ∨ size l'.store < size l.store) := by
  induction ks generalizing l with
  | nil => exact ⟨l, rfl, hgood, le_rfl, .inl⟩
  | cons k ks ih =>
    obtain ⟨m, hvisit, hgood', hle, hagain⟩ := visit_ends law desc modulus hgood k
    obtain ⟨l', hpass, hgood'', hle', hagain'⟩ := ih hgood'
    refine ⟨l', ?_, hgood'', hle'.trans hle, ?_⟩
    · rw [pass, hvisit]
      exact hpass
    · intro h
      rcases hagain' h with h | h
      · rcases hagain h with h | h
        · exact .inl h
        · exact .inr (hle'.trans_lt h)
      · exact .inr (h.trans_le hle)

/-- Each round but the last makes the store smaller. -/
theorem rounds_ends {size : σ → Nat} {fuel : Nat} (law : R.Lawful Good)
    (desc : R.Descends Good size) (modulus : Nat) (hgood : Good l.store)
    (hfuel : size l.store < fuel) :
    ∃ l', R.rounds modulus fuel l = some (.ok l') ∧ Good l'.store := by
  induction fuel generalizing l with
  | zero => exact absurd hfuel (Nat.not_lt_zero _)
  | succ fuel ih =>
    obtain ⟨m, hpass, hgood', hle, hagain⟩ :=
      pass_ends (l := { l with again := false }) law desc modulus hgood R.order
    rw [rounds, hpass]
    cases hm : m.again with
    | true =>
      have hlt : size m.store < size l.store := (hagain hm).resolve_left Bool.false_ne_true
      obtain ⟨l', hrest, hkept⟩ := ih hgood' (by omega)
      refine ⟨l', ?_, hkept⟩
      simp only [hm, if_true]
      exact hrest
    | false =>
      refine ⟨m, ?_, hgood'⟩
      simp only [hm, Bool.false_eq_true, if_false]

theorem rounds_mono {fuel more : Nat} {r : Except (E × σ) (Loop σ V K)} (hle : fuel ≤ more)
    (hrounds : R.rounds modulus fuel l = some r) : R.rounds modulus more l = some r := by
  induction fuel generalizing l more with
  | zero => cases hrounds
  | succ fuel ih =>
    obtain ⟨more, rfl⟩ := Nat.exists_eq_succ_of_ne_zero (Nat.ne_of_gt (Nat.lt_of_lt_of_le
      (Nat.succ_pos fuel) hle))
    rw [rounds] at hrounds ⊢
    split at hrounds
    · exact hrounds
    · next m hpass =>
      split at hrounds
      · next hm =>
        rw [if_pos hm]
        exact ih (Nat.le_of_succ_le_succ hle) hrounds
      · next hm =>
        rw [if_neg hm]
        exact hrounds

end Rules
end StampedRules
