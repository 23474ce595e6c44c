import Mathlib.Data.List.Basic

/-! A recursion that goes down the edges of a frame, one after the other, and can stop with an
error. What it needs to end, and how a property of its outcome is proved. -/

namespace Codinalte.Recursion

variable {F E S ε : Type}

/-- `follow` says what an edge leads to: a state at once, or a frame below with the state in which
it is entered. `leave` comes back from there, and `close` ends a frame. -/
structure Descent (F E S ε : Type) where
  edges : F → List E
  follow : F → S → E → Except ε (S ⊕ F × S)
  leave : F → E → F → S → S → Except ε S
  close : F → S → S

def Descent.edge (d : Descent F E S ε) (rec : F → S → Except ε S) (f : F) (s : S) (e : E) :
    Except ε S := do
  match ← d.follow f s e with
  | .inl s' => return s'
  | .inr (c, below) => do
    let s' ← rec c below
    d.leave f e c s s'

/-- The error `unfinished` stands for one frame too many. -/
def Descent.run (d : Descent F E S ε) (unfinished : ε) : Nat → F → S → Except ε S
  | 0, _, _ => .error unfinished
  | n + 1, f, s => do
    let s' ← (d.edges f).foldlM (d.edge (d.run unfinished n) f) s
    return d.close f s'

theorem Descent.run_succ (d : Descent F E S ε) (unfinished : ε) (n : Nat) (f : F) (s : S) :
    d.run unfinished (n + 1) f s =
      (d.edges f).foldlM (d.edge (d.run unfinished n) f) s >>= fun s' => .ok (d.close f s') := rfl

/-- What is said of an outcome: of the value, or of the error. -/
def Outcome {α : Type} (P : α → Prop) (Fails : ε → Prop) : Except ε α → Prop
  | .ok a => P a
  | .error e => Fails e

namespace Outcome
variable {α β : Type} {P : α → Prop} {Q : β → Prop} {Fails : ε → Prop}

theorem bind {x : Except ε α} {f : α → Except ε β} (hx : Outcome P Fails x)
    (hf : ∀ a, x = .ok a → P a → Outcome Q Fails (f a)) : Outcome Q Fails (x >>= f) := by
  cases x with
  | error e => exact hx
  | ok a => exact hf a rfl hx

theorem mono {P' : α → Prop} {Fails' : ε → Prop} {x : Except ε α} (hx : Outcome P Fails x)
    (hP : ∀ a, P a → P' a) (hF : ∀ e, Fails e → Fails' e) : Outcome P' Fails' x := by
  cases x with
  | error e => exact hF e hx
  | ok a => exact hP a hx

theorem ok {x : Except ε α} {a : α} (hx : Outcome P Fails x) (h : x = .ok a) : P a := by
  rw [h] at hx
  exact hx

theorem error {x : Except ε α} {e : ε} (hx : Outcome P Fails x) (h : x = .error e) :
    Fails e := by
  rw [h] at hx
  exact hx

/-- The rule of a loop that an error ends: `J` holds of what is done and of the state. -/
theorem foldlM {s₀ : β} {g : β → α → Except ε β} {J : List α → β → Prop} {l : List α}
    (h₀ : J [] s₀)
    (hstep : ∀ done a rest s, l = done ++ a :: rest → J done s →
      Outcome (J (done ++ [a])) Fails (g s a)) : Outcome (J l) Fails (l.foldlM g s₀) := by
  suffices h : ∀ done rest s, l = done ++ rest → J done s →
      Outcome (J l) Fails (rest.foldlM g s) from h [] l s₀ rfl h₀
  intro done rest
  induction rest generalizing done with
  | nil =>
    intro s hl hJ
    rw [List.append_nil] at hl
    rw [hl]
    exact hJ
  | cons a rest ih =>
    intro s hl hJ
    rw [List.foldlM_cons]
    refine (hstep done a rest s hl hJ).bind fun s' _ hs' => ?_
    refine ih (done ++ [a]) s' ?_ hs'
    rw [hl, List.append_assoc, List.singleton_append]

end Outcome

section Rule
variable (d : Descent F E S ε) (unfinished : ε)

/-- What has to be shown of one frame: `J f s₀ done s` holds in state `s` when the frame that was
entered in `s₀` is done with some of its edges. -/
structure Rule (Pre : F → S → Prop) (Post : F → S → S → Prop)
    (J : F → S → List E → S → Prop) (Fails : ε → Prop) : Prop where
  unfinished : Fails unfinished
  enter : ∀ f s, Pre f s → J f s [] s
  follow : ∀ f s₀ done e rest s, Pre f s₀ → d.edges f = done ++ e :: rest → J f s₀ done s →
    Outcome (fun next => match next with
      | .inl s' => J f s₀ (done ++ [e]) s'
      | .inr (c, below) => Pre c below ∧ ∀ s', Post c below s' →
        Outcome (J f s₀ (done ++ [e])) Fails (d.leave f e c s s')) Fails (d.follow f s e)
  close : ∀ f s₀ s, Pre f s₀ → J f s₀ (d.edges f) s → Post f s₀ (d.close f s)

variable {d unfinished} {Pre : F → S → Prop} {Post : F → S → S → Prop}
  {J : F → S → List E → S → Prop} {Fails : ε → Prop}

theorem Rule.edge (hrule : Rule d unfinished Pre Post J Fails) {rec : F → S → Except ε S}
    (hrec : ∀ f s, Pre f s → Outcome (Post f s) Fails (rec f s)) {f : F} {s₀ s : S} {e : E}
    {done rest : List E} (hpre : Pre f s₀) (hl : d.edges f = done ++ e :: rest)
    (hJ : J f s₀ done s) : Outcome (J f s₀ (done ++ [e])) Fails (d.edge rec f s e) := by
  refine (hrule.follow f s₀ done e rest s hpre hl hJ).bind fun next _ hnext => ?_
  match next, hnext with
  | .inl s', hs' => exact hs'
  | .inr (c, below), ⟨hbelow, hleave⟩ =>
    exact (hrec c below hbelow).bind fun s' _ hs' => hleave s' hs'

theorem Rule.run (hrule : Rule d unfinished Pre Post J Fails) (n : Nat) {f : F} {s : S}
    (hpre : Pre f s) : Outcome (Post f s) Fails (d.run unfinished n f s) := by
  induction n generalizing f s with
  | zero => exact hrule.unfinished
  | succ n ih =>
    rw [Descent.run_succ]
    have hedges : Outcome (J f s (d.edges f)) Fails
        ((d.edges f).foldlM (d.edge (d.run unfinished n) f) s) :=
      Outcome.foldlM (hrule.enter f s hpre) fun done e rest s' hl hJ =>
        hrule.edge (fun f s h => ih h) hpre hl hJ
    exact hedges.bind fun s' _ hs' => hrule.close f s s' hpre hs'

end Rule

section Ends
variable (d : Descent F E S ε) (unfinished : ε)

/-- `size` bounds the frames that can still be entered: each frame that an edge leads to has a
smaller one, and it never gets larger while a frame is gone through. -/
structure Measured (Reach : F → S → Prop) (size : F → S → Nat) : Prop where
  follow_ne : ∀ f s e, Reach f s → d.follow f s e ≠ .error unfinished
  leave_ne : ∀ f e c s s', d.leave f e c s s' ≠ .error unfinished
  stay : ∀ f s e s', Reach f s → d.follow f s e = .ok (.inl s') →
    Reach f s' ∧ size f s' ≤ size f s
  down : ∀ f s e c below, Reach f s → d.follow f s e = .ok (.inr (c, below)) →
    Reach c below ∧ size c below < size f s
  back : ∀ f s e c below s' s'', Reach f s → d.follow f s e = .ok (.inr (c, below)) →
    Reach c s' → size c s' ≤ size c below → d.leave f e c s s' = .ok s'' →
    Reach f s'' ∧ size f s'' ≤ size f s
  close : ∀ f s, Reach f s → Reach f (d.close f s) ∧ size f (d.close f s) ≤ size f s

variable {d unfinished} {Reach : F → S → Prop} {size : F → S → Nat}

/-- As many nested frames as the size says are enough. -/
theorem Measured.ends (hd : Measured d unfinished Reach size) {n : Nat} {f : F} {s : S}
    (hreach : Reach f s) (hn : size f s < n) :
    Outcome (fun s' => Reach f s' ∧ size f s' ≤ size f s) (· ≠ unfinished)
      (d.run unfinished n f s) := by
  induction n generalizing f s with
  | zero => omega
  | succ n ih =>
    rw [Descent.run_succ]
    have hedges : Outcome (fun s' => Reach f s' ∧ size f s' ≤ size f s) (· ≠ unfinished)
        ((d.edges f).foldlM (d.edge (d.run unfinished n) f) s) := by
      refine Outcome.foldlM (J := fun _ s' => Reach f s' ∧ size f s' ≤ size f s)
        ⟨hreach, Nat.le_refl _⟩ fun done e rest s₁ _ ⟨hr₁, hs₁⟩ => ?_
      unfold Descent.edge
      match hfollow : d.follow f s₁ e with
      | .error err =>
        intro heq
        exact hd.follow_ne f s₁ e hr₁ (hfollow.trans (congrArg _ heq))
      | .ok (.inl s') =>
        obtain ⟨hr', hs'⟩ := hd.stay f s₁ e s' hr₁ hfollow
        exact ⟨hr', Nat.le_trans hs' hs₁⟩
      | .ok (.inr (c, below)) =>
        obtain ⟨hrc, hsc⟩ := hd.down f s₁ e c below hr₁ hfollow
        refine (ih hrc (by omega)).bind fun s' _ ⟨hr', hs'⟩ => ?_
        match hleave : d.leave f e c s₁ s' with
        | .error err =>
          intro heq
          exact hd.leave_ne f e c s₁ s' (hleave.trans (congrArg _ heq))
        | .ok s'' =>
          obtain ⟨hr'', hs''⟩ := hd.back f s₁ e c below s' s'' hr₁ hfollow hr' hs' hleave
          exact ⟨hr'', Nat.le_trans hs'' hs₁⟩
    refine hedges.bind fun s' _ ⟨hr', hs'⟩ => ?_
    obtain ⟨hr'', hs''⟩ := hd.close f s' hr'
    exact ⟨hr'', Nat.le_trans hs'' hs'⟩

theorem Measured.ne_unfinished (hd : Measured d unfinished Reach size) {n : Nat} {f : F} {s : S}
    (hreach : Reach f s) (hn : size f s < n) : d.run unfinished n f s ≠ .error unfinished :=
  fun h => (hd.ends hreach hn).error h rfl

end Ends

section Below
variable (unfinished : ε) {α β : Type}

/-- The same outcome, unless the first one did not get to its end. -/
def Below (x y : Except ε α) : Prop := x = .error unfinished ∨ x = y

variable {unfinished}

theorem Below.bind {x y : Except ε α} {f g : α → Except ε β} (hx : Below unfinished x y)
    (hf : ∀ a, Below unfinished (f a) (g a)) : Below unfinished (x >>= f) (y >>= g) := by
  rcases hx with rfl | rfl
  · exact .inl rfl
  · cases x with
    | error e => exact .inr rfl
    | ok a => exact hf a

theorem Below.foldlM {f g : β → α → Except ε β} (hf : ∀ s a, Below unfinished (f s a) (g s a))
    (l : List α) (s : β) : Below unfinished (l.foldlM f s) (l.foldlM g s) := by
  induction l generalizing s with
  | nil => exact .inr rfl
  | cons a l ih =>
    rw [List.foldlM_cons, List.foldlM_cons]
    exact (hf s a).bind fun s' => ih s'

theorem Below.eq {x y : Except ε α} (h : Below unfinished x y) (hx : x ≠ .error unfinished) :
    x = y := h.resolve_left hx

variable (d : Descent F E S ε)

theorem run_below_succ (n : Nat) (f : F) (s : S) :
    Below unfinished (d.run unfinished n f s) (d.run unfinished (n + 1) f s) := by
  induction n generalizing f s with
  | zero => exact .inl rfl
  | succ n ih =>
    refine (Below.foldlM (fun s' e => ?_) (d.edges f) s).bind fun s' => .inr rfl
    refine Below.bind (.inr rfl) fun next => ?_
    match next with
    | .inl s'' => exact .inr rfl
    | .inr (c, below) => exact (ih c below).bind fun s'' => .inr rfl

/-- With more nested frames than it needs the outcome stays what it is. -/
theorem run_settled {n m : Nat} {f : F} {s : S} (h : d.run unfinished n f s ≠ .error unfinished)
    (hle : n ≤ m) : d.run unfinished m f s = d.run unfinished n f s := by
  induction hle with
  | refl => rfl
  | @step m _ ih => rw [← (run_below_succ d m f s).eq (ih ▸ h), ih]

end Below

section Visited
variable (d : Descent F E S ε) (unfinished : ε)

/-- The run from a frame comes to an edge of it, or of a frame below, in some state. -/
inductive Visits : Nat → F → S → F → S → E → Prop where
  | here {n : Nat} {f : F} {s s' : S} {done rest : List E} {e : E}
      (hl : d.edges f = done ++ e :: rest)
      (hdone : done.foldlM (d.edge (d.run unfinished n) f) s = .ok s') :
      Visits (n + 1) f s f s' e
  | under {n : Nat} {f c g : F} {s s' b t : S} {done rest : List E} {e e' : E}
      (hl : d.edges f = done ++ e :: rest)
      (hdone : done.foldlM (d.edge (d.run unfinished n) f) s = .ok s')
      (hfollow : d.follow f s' e = .ok (.inr (c, b))) (hbelow : Visits n c b g t e') :
      Visits (n + 1) f s g t e'

variable {d unfinished} {f g : F} {s t : S} {e : E} {n : Nat} {err : ε}

theorem run_succ_error {done rest : List E} {s' : S} (hl : d.edges f = done ++ e :: rest)
    (hdone : done.foldlM (d.edge (d.run unfinished n) f) s = .ok s')
    (hedge : d.edge (d.run unfinished n) f s' e = .error err) :
    d.run unfinished (n + 1) f s = .error err := by
  rw [Descent.run_succ, hl, List.foldlM_append, hdone]
  change (List.foldlM _ s' (e :: rest) >>= _) = _
  rw [List.foldlM_cons, hedge]
  rfl

/-- An error at an edge that is visited is the outcome. -/
theorem Visits.run_error (h : Visits d unfinished n f s g t e)
    (herror : d.follow g t e = .error err) : d.run unfinished n f s = .error err := by
  induction h with
  | here hl hdone =>
    refine run_succ_error hl hdone ?_
    unfold Descent.edge
    rw [herror]
    rfl
  | under hl hdone hfollow _ ih =>
    refine run_succ_error hl hdone ?_
    unfold Descent.edge
    rw [hfollow]
    change (d.run unfinished _ _ _ >>= _) = _
    rw [ih herror]
    rfl

end Visited

section Simulated
variable {F' S' ε' : Type} (d : Descent F E S ε) (d' : Descent F' E S' ε') (frame : F → F')
  (R : S → S' → Prop)

/-- What follows an edge in the first descent is followed in the second one. -/
inductive Follows : S ⊕ F × S → S' ⊕ F' × S' → Prop where
  | inl {s : S} {s' : S'} (h : R s s') : Follows (.inl s) (.inl s')
  | inr {c : F} {s : S} {s' : S'} (h : R s s') : Follows (.inr (c, s)) (.inr (frame c, s'))

/-- A descent that does all that another one does, when that has no error. -/
structure Simulated : Prop where
  edges : ∀ f, d'.edges (frame f) = d.edges f
  follow : ∀ f s s' e next, R s s' → d.follow f s e = .ok next →
    ∃ next', d'.follow (frame f) s' e = .ok next' ∧ Follows frame R next next'
  leave : ∀ f e c s t s' t' u, R s s' → R t t' → d.leave f e c s t = .ok u →
    ∃ u', d'.leave (frame f) e (frame c) s' t' = .ok u' ∧ R u u'
  close : ∀ f s s', R s s' → R (d.close f s) (d'.close (frame f) s')

variable {d d' frame R} {unfinished : ε} {unfinished' : ε'}

theorem exists_bind_ok {α α' β β' : Type} {P : α → α' → Prop} {Q : β → β' → Prop}
    {x : Except ε α} {x' : Except ε' α'} {k : α → Except ε β} {k' : α' → Except ε' β'} {b : β}
    (h : x >>= k = .ok b) (hx : ∀ a, x = .ok a → ∃ a', x' = .ok a' ∧ P a a')
    (hk : ∀ a a', P a a' → k a = .ok b → ∃ b', k' a' = .ok b' ∧ Q b b') :
    ∃ b', x' >>= k' = .ok b' ∧ Q b b' := by
  cases x with
  | error e => cases h
  | ok a =>
    obtain ⟨a', rfl, ha⟩ := hx a rfl
    exact hk a a' ha h

theorem Simulated.run (hd : Simulated d d' frame R) (n : Nat) {f : F} {s t : S} {s' : S'}
    (hs : R s s') (hrun : d.run unfinished n f s = .ok t) :
    ∃ t', d'.run unfinished' n (frame f) s' = .ok t' ∧ R t t' := by
  induction n generalizing f s t s' with
  | zero => cases hrun
  | succ n ih =>
    have hedge : ∀ s s' e u, R s s' → d.edge (d.run unfinished n) f s e = .ok u →
        ∃ u', d'.edge (d'.run unfinished' n) (frame f) s' e = .ok u' ∧ R u u' := by
      intro s s' e u hs hu
      refine exists_bind_ok hu (fun next hnext => hd.follow f s s' e next hs hnext)
        fun next next' hfollows hnext => ?_
      cases hfollows with
      | inl h =>
        cases hnext
        exact ⟨_, rfl, h⟩
      | inr h =>
        exact exists_bind_ok hnext (fun v hv => ih h hv)
          fun v v' hv hleave => hd.leave f e _ s v s' v' u hs hv hleave
    have hedges : ∀ (l : List E) s s' u, R s s' →
        l.foldlM (d.edge (d.run unfinished n) f) s = .ok u →
          ∃ u', l.foldlM (d'.edge (d'.run unfinished' n) (frame f)) s' = .ok u' ∧ R u u' := by
      intro l
      induction l with
      | nil =>
        intro s s' u hs hu
        cases hu
        exact ⟨s', rfl, hs⟩
      | cons e l ihl =>
        intro s s' u hs hu
        rw [List.foldlM_cons] at hu ⊢
        exact exists_bind_ok hu (fun v hv => hedge s s' e v hs hv)
          fun v v' hv hu => ihl v v' u hv hu
    rw [Descent.run_succ] at hrun ⊢
    rw [hd.edges]
    refine exists_bind_ok hrun (fun u hu => hedges _ s s' u hs hu) fun u u' hu ht => ?_
    cases ht
    exact ⟨_, rfl, hd.close f u u' hu⟩

end Simulated

section Viewed
variable {T : Type} (d : Descent F E S ε) (unfinished : ε) (view : S → T)

/-- What an edge does is seen in a part of the state, and depends on that part only. -/
structure Viewed : Prop where
  follow : ∀ f s s' e, view s = view s' →
    (d.follow f s e).map (Sum.map view (Prod.map id view)) =
      (d.follow f s' e).map (Sum.map view (Prod.map id view))
  leave : ∀ f e c s s' t t', view s = view s' → view t = view t' →
    (d.leave f e c s t).map view = (d.leave f e c s' t').map view
  close : ∀ f s s', view s = view s' → view (d.close f s) = view (d.close f s')

variable {d unfinished view}

theorem map_bind_eq {α β γ δ : Type} {x x' : Except ε α} {k k' : α → Except ε β} {p : α → γ}
    {q : β → δ} (hx : x.map p = x'.map p)
    (hk : ∀ a a', p a = p a' → (k a).map q = (k' a').map q) :
    (x >>= k).map q = (x' >>= k').map q := by
  cases x with
  | error e =>
    cases x' with
    | error e' =>
      cases hx
      rfl
    | ok a' => cases hx
  | ok a =>
    cases x' with
    | error e' => cases hx
    | ok a' => exact hk a a' (Except.ok.inj hx)

theorem map_bind_congr {α β δ : Type} {x : Except ε α} {k k' : α → Except ε β} {q : β → δ}
    (hk : ∀ a, (k a).map q = (k' a).map q) : (x >>= k).map q = (x >>= k').map q := by
  cases x with
  | error e => rfl
  | ok a => exact hk a

theorem Viewed.run (h : Viewed d view) (n : Nat) (f : F) {s s' : S} (hs : view s = view s') :
    (d.run unfinished n f s).map view = (d.run unfinished n f s').map view := by
  induction n generalizing f s s' with
  | zero => rfl
  | succ n ih =>
    have hedge : ∀ s s' e, view s = view s' →
        (d.edge (d.run unfinished n) f s e).map view =
          (d.edge (d.run unfinished n) f s' e).map view := by
      intro s s' e hs
      refine map_bind_eq (h.follow f s s' e hs) fun next next' hnext => ?_
      cases next with
      | inl t =>
        cases next' with
        | inl t' => exact congrArg Except.ok (Sum.inl.inj hnext)
        | inr c' => cases hnext
      | inr c =>
        cases next' with
        | inl t' => cases hnext
        | inr c' =>
          obtain ⟨c, b⟩ := c
          obtain ⟨c', b'⟩ := c'
          obtain ⟨hc, hb⟩ := Prod.mk.inj (Sum.inr.inj hnext)
          obtain rfl : c = c' := hc
          exact map_bind_eq (ih c hb) fun t t' ht => h.leave f e c s s' t t' hs ht
    have hedges : ∀ (l : List E) s s', view s = view s' →
        (l.foldlM (d.edge (d.run unfinished n) f) s).map view =
          (l.foldlM (d.edge (d.run unfinished n) f) s').map view := by
      intro l
      induction l with
      | nil => exact fun s s' hs => congrArg Except.ok hs
      | cons e l ihl =>
        intro s s' hs
        rw [List.foldlM_cons, List.foldlM_cons]
        exact map_bind_eq (hedge s s' e hs) fun t t' ht => ihl t t' ht
    rw [Descent.run_succ, Descent.run_succ]
    exact map_bind_eq (hedges _ s s' hs) fun t t' ht => congrArg Except.ok (h.close f t t' ht)

end Viewed

end Codinalte.Recursion
