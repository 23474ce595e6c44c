import Mathlib.Data.List.Basic

/-! Checks that end at the first error. -/

namespace Codinalte.Checks
variable {E α β : Type}

/-- Refuses with an error where the condition holds. -/
def reject (cond : Prop) [Decidable cond] (e : E) : Except E Unit :=
  if cond then .error e else .ok ⟨⟩

@[simp] theorem reject_ok {cond : Prop} [Decidable cond] {e : E} {u : Unit} :
    reject cond e = .ok u ↔ ¬ cond := by
  unfold reject
  split
  · next h => exact iff_of_false nofun (not_not.mpr h)
  · next h => exact iff_of_true rfl h

theorem bind_ok {x : Except E α} {f : α → Except E β} {b : β} :
    (x >>= f) = .ok b ↔ ∃ a, x = .ok a ∧ f a = .ok b := by
  cases x with
  | error e => exact ⟨nofun, fun ⟨_, h, _⟩ => nomatch h⟩
  | ok a => exact ⟨fun h => ⟨a, rfl, h⟩, fun ⟨_, h, hf⟩ => Except.ok.inj h ▸ hf⟩

theorem seq_ok {x : Except E Unit} {y : Except E β} {b : β} :
    (x >>= fun _ => y) = .ok b ↔ x = .ok ⟨⟩ ∧ y = .ok b := by
  rw [bind_ok]
  exact ⟨fun ⟨_, h⟩ => h, fun h => ⟨_, h⟩⟩

/-- One check after the other. -/
def checkEach (check : α → Except E Unit) : List α → Except E Unit
  | [] => .ok ⟨⟩
  | a :: l => do
    check a
    checkEach check l

theorem checkEach_ok {check : α → Except E Unit} {l : List α} :
    checkEach check l = .ok ⟨⟩ ↔ ∀ a ∈ l, check a = .ok ⟨⟩ := by
  induction l with
  | nil => exact iff_of_true rfl nofun
  | cons a l ih =>
    unfold checkEach
    rw [seq_ok, ih, List.forall_mem_cons]

theorem mem_mapM {f : α → Except E β} {l : List α} {l' : List β} (h : l.mapM f = .ok l') {b : β} :
    b ∈ l' ↔ ∃ a ∈ l, f a = .ok b := by
  induction l generalizing l' with
  | nil =>
    rw [List.mapM_nil] at h
    cases h
    exact ⟨nofun, nofun⟩
  | cons a l ih =>
    rw [List.mapM_cons] at h
    obtain ⟨b', hb', h⟩ := bind_ok.mp h
    obtain ⟨rest, hrest, h⟩ := bind_ok.mp h
    cases h
    rw [List.mem_cons, ih hrest, List.exists_mem_cons_iff, hb', Except.ok.injEq, eq_comm]

theorem exists_of_mapM {f : α → Except E β} {l : List α} {l' : List β} (h : l.mapM f = .ok l') {a : α}
    (ha : a ∈ l) : ∃ b, f a = .ok b := by
  induction l generalizing l' with
  | nil => cases ha
  | cons c l ih =>
    rw [List.mapM_cons] at h
    obtain ⟨b, hb, h⟩ := bind_ok.mp h
    obtain ⟨rest, hrest, -⟩ := bind_ok.mp h
    rcases List.mem_cons.mp ha with rfl | ha
    · exact ⟨b, hb⟩
    · exact ih hrest ha

theorem mapM_append_ok {f : α → Except E β} {l₁ l₂ : List α} {l' : List β}
    (h : (l₁ ++ l₂).mapM f = .ok l') :
    ∃ l₁' l₂', l₁.mapM f = .ok l₁' ∧ l₂.mapM f = .ok l₂' ∧ l' = l₁' ++ l₂' := by
  rw [List.mapM_append] at h
  obtain ⟨l₁', h₁, h⟩ := bind_ok.mp h
  obtain ⟨l₂', h₂, h⟩ := bind_ok.mp h
  cases h
  exact ⟨l₁', l₂', h₁, h₂, rfl⟩

/-- What holds of the values that are gone through so far is carried along. -/
theorem foldlM_ok {f : β → α → Except E β} {P : List α → β → Prop}
    (hstep : ∀ before b a b', P before b → f b a = .ok b' → P (before ++ [a]) b') {l before : List α}
    {b b' : β} (hb : P before b) (h : l.foldlM f b = .ok b') : P (before ++ l) b' := by
  induction l generalizing before b with
  | nil =>
    cases h
    rw [List.append_nil]
    exact hb
  | cons a l ih =>
    rw [List.foldlM_cons] at h
    obtain ⟨b₁, hb₁, h⟩ := bind_ok.mp h
    have hrest := ih (hstep before b a b₁ hb hb₁) h
    rw [List.append_assoc] at hrest
    exact hrest

theorem foldlM_keeps {f : β → α → Except E β} {P : β → Prop} {l : List α} {b b' : β}
    (hkeep : ∀ a ∈ l, ∀ b b', P b → f b a = .ok b' → P b') (hb : P b) (h : l.foldlM f b = .ok b') :
    P b' := by
  induction l generalizing b with
  | nil =>
    cases h
    exact hb
  | cons a l ih =>
    rw [List.foldlM_cons] at h
    obtain ⟨b₁, hb₁, h⟩ := bind_ok.mp h
    exact ih (fun a ha => hkeep a (List.mem_cons_of_mem _ ha))
      (hkeep a List.mem_cons_self b b₁ hb hb₁) h

theorem bind_ne_error {x : Except E α} {f : α → Except E β} {e : E} (hx : x ≠ .error e)
    (hf : ∀ a, x = .ok a → f a ≠ .error e) : (x >>= f) ≠ .error e := by
  cases x with
  | error e' => exact fun h => hx (congrArg Except.error (Except.error.inj h))
  | ok a => exact hf a rfl

/-- An error that no value raises is not raised by all of them. -/
theorem foldlM_ne_error {f : β → α → Except E β} {P : β → Prop} {e : E} {l : List α} {b : β}
    (hkeep : ∀ b a b', P b → f b a = .ok b' → P b') (hne : ∀ b, ∀ a ∈ l, P b → f b a ≠ .error e)
    (hb : P b) : l.foldlM f b ≠ .error e := by
  induction l generalizing b with
  | nil => exact nofun
  | cons a l ih =>
    rw [List.foldlM_cons]
    have hfirst := hne b a List.mem_cons_self hb
    cases hf : f b a with
    | error e' => exact fun h => hfirst (hf.trans h)
    | ok b' => exact ih (fun b a ha => hne b a (List.mem_cons_of_mem _ ha)) (hkeep b a b' hb hf)

end Codinalte.Checks
