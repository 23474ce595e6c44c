import Codinalte.Mpc.EventPlaces

/-! What holds in every run of the command path: which elements have been handed to the scheduler,
and which interrupts are still to come. -/

namespace Codinalte.Mpc
open Codinalte.Machine
variable {P : Type} [DecidableEq P] {cfg : ComsConfig P} {s t : CommandPath P}

/-- What the scheduler is to get for an element: pool, parameters and method. -/
def ComsConfig.fields (cfg : ComsConfig P) (elem : ComsElem P) : P × Nat × Nat :=
  (elem.pool, elem.param, cfg.method elem.pool elem.method)

/-- What the scheduler got. -/
def postedFields (entry : Descriptor P × Nat × Nat) : P × Nat × Nat :=
  (entry.1.pool, entry.2)

/-- The element of the FIFO of `core` that has been posted and not acknowledged. -/
def postedElem (pc : It11Pc P) (core : Nat) : List (ComsElem P) :=
  match pc.posted with
  | some (core', elem) => if core' = core then [elem] else []
  | none => []

/-- Elements are taken from the front of each FIFO, one posting for each. -/
structure ElemInv (cfg : ComsConfig P) (s : CommandPath P) : Prop where
  balance : ∀ core, s.pushed core = s.drained core ++ s.fifo core
  head : ∀ core elem, s.it11.headElem = some (core, elem) → ∃ rest, s.fifo core = elem :: rest
  filled : ∀ core elem event, s.it11 = .popped core elem event →
    (event.pool, s.data event, s.reaction event) = cfg.fields elem
  posted : ∀ core, (s.scheduled core).map postedFields =
    (s.drained core ++ postedElem s.it11 core).map cfg.fields

section Elements

omit [DecidableEq P] in
theorem elem_loaded (cfg : ComsConfig P) : ElemInv cfg (.loaded cfg) where
  balance := fun _ => rfl
  head := by
    intro core elem hhead
    cases hhead
  filled := by
    intro core elem event hpc
    cases hpc
  posted := fun _ => rfl

omit [DecidableEq P] in
/-- IT11 goes on within one element, or without one. -/
theorem ElemInv.go (h : ElemInv cfg s) (hfifo : t.fifo = s.fifo) (hpushed : t.pushed = s.pushed)
    (hdrained : t.drained = s.drained) (hscheduled : t.scheduled = s.scheduled)
    (hposted : t.it11.posted = s.it11.posted)
    (hhead : ∀ core elem, t.it11.headElem = some (core, elem) → ∃ rest, s.fifo core = elem :: rest)
    (hpopped : ∀ core elem event, t.it11 = .popped core elem event →
      (event.pool, t.data event, t.reaction event) = cfg.fields elem) : ElemInv cfg t := by
  refine ⟨?_, ?_, hpopped, ?_⟩
  · intro core
    rw [hpushed, hdrained, hfifo]
    exact h.balance core
  · intro core elem hsome
    rw [hfifo]
    exact hhead core elem hsome
  · intro core
    have hsame : postedElem t.it11 core = postedElem s.it11 core := by
      unfold postedElem
      rw [hposted]
    rw [hscheduled, hdrained, hsame]
    exact h.posted core

omit [DecidableEq P] in
theorem elem_push (h : ElemInv cfg s) (core : Nat) (elem : ComsElem P) :
    ElemInv cfg (s.push core elem) := by
  refine ⟨?_, ?_, h.filled, h.posted⟩
  · intro other
    show Function.update s.pushed core _ other =
      s.drained other ++ Function.update s.fifo core _ other
    by_cases hcore : other = core
    · subst hcore
      rw [Function.update_self, Function.update_self, h.balance, List.append_assoc]
    · rw [Function.update_of_ne hcore, Function.update_of_ne hcore]
      exact h.balance other
  · intro other first hhead
    obtain ⟨rest, hfifo⟩ := h.head other first hhead
    show ∃ rest, Function.update s.fifo core _ other = first :: rest
    by_cases hcore : other = core
    · subst hcore
      rw [Function.update_self, hfifo]
      exact ⟨rest ++ [elem], rfl⟩
    · rw [Function.update_of_ne hcore]
      exact ⟨rest, hfifo⟩

/-- The event carries what the element says. -/
theorem elem_fill (h : ElemInv cfg s) {core : Nat} {elem : ComsElem P} {event : Descriptor P}
    (hpc : s.it11 = .filling core elem event) (hpool : event.pool = elem.pool) :
    ElemInv cfg (s.fill cfg core elem event) := by
  refine h.go rfl rfl rfl rfl (by rw [hpc]; rfl) ?_ ?_
  · intro other first hhead
    apply h.head
    rw [hpc]
    exact hhead
  · intro other first chosen hpopped
    cases hpopped
    show (event.pool, Function.update s.data event elem.param event,
      Function.update s.reaction event _ event) = _
    rw [Function.update_self, Function.update_self, hpool]
    rfl

omit [DecidableEq P] in
theorem elem_post (h : ElemInv cfg s) {core : Nat} {elem : ComsElem P} {event : Descriptor P}
    {cpu : HybridScheduler (CpuEvent P)} (hpc : s.it11 = .popped core elem event) :
    ElemInv cfg { s with
      cpu := cpu
      scheduled := Function.update s.scheduled core
        (s.scheduled core ++ [(event, s.data event, s.reaction event)])
      it11 := .unmasking core elem } := by
  have hfields := h.filled core elem event hpc
  refine ⟨h.balance, ?_, ?_, ?_⟩
  · intro other first hhead
    apply h.head
    rw [hpc]
    exact hhead
  · intro other first chosen hpopped
    cases hpopped
  · intro other
    have hposted := h.posted other
    have hnone : postedElem s.it11 other = [] := by
      rw [hpc]
      rfl
    rw [hnone, List.append_nil] at hposted
    show (Function.update s.scheduled core _ other).map postedFields =
      (s.drained other ++ if core = other then [elem] else []).map cfg.fields
    by_cases hcore : other = core
    · subst hcore
      rw [Function.update_self, if_pos rfl, List.map_append, List.map_append, hposted]
      show _ ++ [(event.pool, s.data event, s.reaction event)] = _ ++ [cfg.fields elem]
      rw [hfields]
    · rw [Function.update_of_ne hcore, if_neg (Ne.symm hcore), List.append_nil]
      exact hposted

omit [DecidableEq P] in
theorem elem_acknowledge_read (h : ElemInv cfg s) {core : Nat} {elem : ComsElem P}
    (hpc : s.it11 = .acknowledging core elem) : ElemInv cfg (s.acknowledgeRead core) := by
  obtain ⟨rest, hfifo⟩ := h.head core elem (by rw [hpc]; rfl)
  refine ⟨?_, ?_, ?_, ?_⟩
  · intro other
    show s.pushed other =
      Function.update s.drained core _ other ++ Function.update s.fifo core _ other
    by_cases hcore : other = core
    · subst hcore
      rw [Function.update_self, Function.update_self, h.balance, hfifo, List.append_assoc]
      rfl
    · rw [Function.update_of_ne hcore, Function.update_of_ne hcore]
      exact h.balance other
  · intro other first hhead
    cases hhead
  · intro other first event hpopped
    cases hpopped
  · intro other
    have hposted := h.posted other
    have hcurrent : postedElem s.it11 other = if core = other then [elem] else [] := by
      rw [hpc]
      rfl
    rw [hcurrent] at hposted
    show (s.scheduled other).map postedFields =
      (Function.update s.drained core _ other ++ []).map cfg.fields
    rw [hposted, List.append_nil]
    by_cases hcore : other = core
    · subst hcore
      rw [Function.update_self, if_pos rfl, hfifo]
      rfl
    · rw [Function.update_of_ne hcore, if_neg (Ne.symm hcore), List.append_nil]

theorem elem_it11 (h : ElemInv cfg s) (hplace : PlaceInv cfg s) (hstep : It11Step cfg s t) :
    ElemInv cfg t := by
  have hkept : ∀ pc : It11Pc P, pc.headElem = s.it11.headElem → ∀ core elem,
      pc.headElem = some (core, elem) → ∃ rest, s.fifo core = elem :: rest := by
    intro pc hsame core elem hhead
    rw [hsame] at hhead
    exact h.head core elem hhead
  cases hstep with
  | found core hpc hcore =>
    refine h.go rfl rfl rfl rfl (by rw [hpc]; rfl) (hkept _ (by rw [hpc]; rfl)) ?_
    simp
  | quiet hpc hmis =>
    refine h.go rfl rfl rfl rfl (by rw [hpc]; rfl) (hkept _ (by rw [hpc]; rfl)) ?_
    simp
  | acknowledge core semId hpc =>
    refine h.go rfl rfl rfl rfl (by rw [hpc]; rfl) (hkept _ (by rw [hpc]; rfl)) ?_
    intro other first event hpopped
    cases hpopped
  | read core elem rest hpc hfifo =>
    refine h.go rfl rfl rfl rfl (by rw [hpc]; rfl) ?_ (by simp)
    intro other first hhead
    cases hhead
    exact ⟨rest, hfifo⟩
  | drained core hpc hfifo =>
    have hnone : s.it11.posted = none ∧ s.it11.headElem = none := by
      rcases hpc with hpc | hpc
      · rw [hpc]
        exact ⟨rfl, rfl⟩
      · rw [hpc]
        exact ⟨rfl, rfl⟩
    exact h.go rfl rfl rfl rfl hnone.1.symm (hkept _ hnone.2.symm) (by simp)
  | again core hpc =>
    exact h.go rfl rfl rfl rfl (by rw [hpc]; rfl) (hkept _ (by rw [hpc]; rfl)) (by simp)
  | choose core elem slot rest hpc htop =>
    exact h.go rfl rfl rfl rfl (by rw [hpc]; rfl) (hkept _ (by rw [hpc]; rfl)) (by simp)
  | panic core elem cpu hpc htop hcpu =>
    exact h.go rfl rfl rfl rfl (by rw [hpc]; rfl) (hkept _ (by rw [hpc]; rfl)) (by simp)
  | mask core elem event cpu hpc hcpu =>
    exact h.go rfl rfl rfl rfl (by rw [hpc]; rfl) (hkept _ (by rw [hpc]; rfl)) (by simp)
  | fill core elem event hpc =>
    exact elem_fill h hpc (hplace.chosen elem event (by rw [hpc]; rfl)).1
  | post core elem event cpu hpc hcpu => exact elem_post h hpc
  | unmask core elem cpu hpc hcpu =>
    exact h.go rfl rfl rfl rfl (by rw [hpc]; rfl) (hkept _ (by rw [hpc]; rfl)) (by simp)
  | acknowledgeRead core elem hpc => exact elem_acknowledge_read h hpc
  | leave cpu hpc hcpu =>
    exact h.go rfl rfl rfl rfl (by rw [hpc]; rfl) (hkept _ (by rw [hpc]; rfl)) (by simp)

theorem elem_step {a : CommandAction P} (h : ElemInv cfg s) (hplace : PlaceInv cfg s)
    (hstep : s.step cfg a = some t) : ElemInv cfg t := by
  rcases command_step_cases hstep with ⟨core, elem, -, -, rfl⟩ | ⟨core, -, rfl⟩ |
    ⟨action, cpu, -, -, -, -, -, rfl⟩ | ⟨cpu, -, -, -, rfl⟩ |
    ⟨event, hevent, rfl⟩ | ⟨cpu, -, houtside, -, rfl⟩ | ⟨-, hit11⟩
  · exact elem_push h core elem
  · exact ⟨h.balance, h.head, h.filled, h.posted⟩
  · exact ⟨h.balance, h.head, h.filled, h.posted⟩
  · exact ⟨h.balance, h.head, h.filled, h.posted⟩
  · exact ⟨h.balance, h.head, h.filled, h.posted⟩
  · refine h.go rfl rfl rfl rfl (by rw [houtside]; rfl) ?_ (by simp)
    intro core elem hhead
    cases hhead
  · exact elem_it11 h hplace (it11_step_of_eq hit11)

omit [DecidableEq P] in
theorem posted_head {pc : It11Pc P} {entry : Nat × ComsElem P} (h : pc.posted = some entry) :
    pc.headElem = some entry := by
  cases pc with
  | unmasking core elem => exact h
  | acknowledging core elem => exact h
  | outside | scanning | acking | reading | element | allocated | filling | popped | recounting
  | leaving | panicked => cases h

omit [DecidableEq P] in
/-- What has been posted is a beginning of what has been pushed. -/
theorem posted_pushed (h : ElemInv cfg s) (core : Nat) :
    s.drained core ++ postedElem s.it11 core <+: s.pushed core := by
  rw [h.balance]
  apply List.prefix_append_right_inj _ |>.mpr
  unfold postedElem
  split
  · next core' elem hposted =>
    split_ifs with hsame
    · subst hsame
      obtain ⟨rest, hfifo⟩ := h.head core' elem (posted_head hposted)
      rw [hfifo]
      exact ⟨rest, rfl⟩
    · exact List.nil_prefix
  · exact List.nil_prefix

end Elements

/-- The interrupts: an element that has been raised is either noticed, or drained, or in the FIFO
being emptied. -/
structure IrqInv (cfg : ComsConfig P) (s : CommandPath P) : Prop where
  neighbors : ∀ core, s.pushed core ≠ [] → cfg.Neighbor core
  acking : ∀ core semId, s.it11 = .acking core semId →
    cfg.Neighbor core ∧ semId = comsSemid cfg.myCoreId core
  noticed : ∀ core, cfg.Neighbor core → s.mis (comsSemid cfg.myCoreId core) = false →
    s.raisedCount core ≤ (s.drained core).length ∨ s.it11.draining = some core
  own : ∀ core, s.pushedAtAck core ≤ (s.drained core).length ∨ s.it11.draining = some core
  ownBound : ∀ core, s.pushedAtAck core ≤ (s.pushed core).length
  marks : ∀ core, s.raisedAtAck core ≤ s.raisedCount core
  returned : s.it11 = .leaving ∨ s.it11 = .outside →
    ∀ core, s.raisedAtAck core ≤ (s.drained core).length

section Interrupts

omit [DecidableEq P] in
theorem irq_loaded (cfg : ComsConfig P) : IrqInv cfg (.loaded cfg) where
  neighbors := fun _ hne => absurd rfl hne
  acking := by
    intro core semId hpc
    cases hpc
  noticed := fun _ _ _ => .inl (Nat.zero_le _)
  own := fun _ => .inl (Nat.zero_le _)
  ownBound := fun _ => Nat.zero_le _
  marks := fun _ => Nat.zero_le _
  returned := fun _ _ => Nat.zero_le _

omit [DecidableEq P] in
theorem raised_count_le (s : CommandPath P) (core : Nat) :
    s.raisedCount core ≤ (s.pushed core).length :=
  Nat.sub_le _ _

omit [DecidableEq P] in
/-- A step of IT11 other than an acknowledge, a drained FIFO and the way out. -/
theorem IrqInv.go (h : IrqInv cfg s) (hmis : t.mis = s.mis) (hpushed : t.pushed = s.pushed)
    (hraising : t.raising = s.raising) (hpushedAtAck : t.pushedAtAck = s.pushedAtAck)
    (hraisedAtAck : t.raisedAtAck = s.raisedAtAck)
    (hdrained : ∀ core, (s.drained core).length ≤ (t.drained core).length)
    (hdraining : t.it11.draining = s.it11.draining)
    (hacking : ∀ core semId, t.it11 = .acking core semId →
      cfg.Neighbor core ∧ semId = comsSemid cfg.myCoreId core)
    (hreturned : t.it11 = .leaving ∨ t.it11 = .outside →
      ∀ core, s.raisedAtAck core ≤ (s.drained core).length) : IrqInv cfg t := by
  have hraised : ∀ core, t.raisedCount core = s.raisedCount core := by
    intro core
    unfold CommandPath.raisedCount
    rw [hpushed, hraising]
  refine ⟨?_, hacking, ?_, ?_, ?_, ?_, ?_⟩
  · rw [hpushed]
    exact h.neighbors
  · intro core hcore hquiet
    rw [hmis] at hquiet
    rw [hraised, hdraining]
    apply (h.noticed core hcore hquiet).imp_left
    intro hle
    exact Nat.le_trans hle (hdrained core)
  · intro core
    rw [hpushedAtAck, hdraining]
    apply (h.own core).imp_left
    intro hle
    exact Nat.le_trans hle (hdrained core)
  · rw [hpushedAtAck, hpushed]
    exact h.ownBound
  · intro core
    rw [hraisedAtAck, hraised]
    exact h.marks core
  · intro hout core
    rw [hraisedAtAck]
    exact Nat.le_trans (hreturned hout core) (hdrained core)

omit [DecidableEq P] in
/-- The interrupt of the new element is still to come. -/
theorem irq_push (h : IrqInv cfg s) {core : Nat} (elem : ComsElem P) (hcore : cfg.Neighbor core)
    (hraising : s.raising core = false) : IrqInv cfg (s.push core elem) := by
  have hlength : ∀ other, (s.pushed other).length ≤ ((s.push core elem).pushed other).length := by
    intro other
    show _ ≤ (Function.update s.pushed core _ other).length
    by_cases hother : other = core
    · subst hother
      rw [Function.update_self, List.length_append]
      exact Nat.le_add_right _ _
    · exact Nat.le_of_eq (congrArg List.length (Function.update_of_ne hother _ _).symm)
  have hraised : ∀ other, (s.push core elem).raisedCount other = s.raisedCount other := by
    intro other
    show (Function.update s.pushed core _ other).length -
      (if Function.update s.raising core true other then 1 else 0) = _
    unfold CommandPath.raisedCount
    by_cases hother : other = core
    · subst hother
      rw [Function.update_self, Function.update_self, List.length_append, hraising]
      rfl
    · rw [Function.update_of_ne hother, Function.update_of_ne hother]
  refine ⟨?_, h.acking, ?_, h.own, ?_, ?_, h.returned⟩
  · intro other hne
    by_cases hother : other = core
    · subst hother
      exact hcore
    · apply h.neighbors
      have hsame : (s.push core elem).pushed other = s.pushed other :=
        Function.update_of_ne hother _ _
      rw [hsame] at hne
      exact hne
  · intro other hother hquiet
    rw [hraised]
    exact h.noticed other hother hquiet
  · intro other
    exact Nat.le_trans (h.ownBound other) (hlength other)
  · intro other
    rw [hraised]
    exact h.marks other

omit [DecidableEq P] in
theorem irq_raise (h : IrqInv cfg s) (core : Nat) : IrqInv cfg (s.raise cfg core) := by
  have hraised : ∀ other, s.raisedCount other ≤ (s.raise cfg core).raisedCount other := by
    intro other
    show _ ≤ (s.pushed other).length - (if Function.update s.raising core false other then 1 else 0)
    by_cases hother : other = core
    · subst hother
      rw [Function.update_self]
      exact raised_count_le s other
    · rw [Function.update_of_ne hother]
      exact Nat.le_refl _
  refine ⟨h.neighbors, h.acking, ?_, h.own, h.ownBound, ?_, h.returned⟩
  · intro other hother hquiet
    change Function.update s.mis (comsSemid cfg.myCoreId core) true _ = false at hquiet
    by_cases hsem : comsSemid cfg.myCoreId other = comsSemid cfg.myCoreId core
    · rw [hsem, Function.update_self] at hquiet
      cases hquiet
    · rw [Function.update_of_ne hsem] at hquiet
      have hne : other ≠ core := by
        intro heq
        exact hsem (by rw [heq])
      have hsame : (s.raise cfg core).raisedCount other = s.raisedCount other := by
        show _ - (if Function.update s.raising core false other then 1 else 0) = _
        rw [Function.update_of_ne hne]
        rfl
      rw [hsame]
      exact h.noticed other hother hquiet
  · intro other
    exact Nat.le_trans (h.marks other) (hraised other)

omit [DecidableEq P] in
/-- From the acknowledge on the FIFO of that core is being emptied. -/
theorem irq_acknowledge (h : IrqInv cfg s) {core semId : Nat}
    (hpc : s.it11 = .acking core semId) : IrqInv cfg (s.acknowledge core semId) := by
  obtain ⟨hcore, rfl⟩ := h.acking core semId hpc
  have hidle : s.it11.draining = none := by
    rw [hpc]
    rfl
  refine ⟨h.neighbors, ?_, ?_, ?_, ?_, fun _ => Nat.le_refl _, ?_⟩
  · intro other other' hacking
    cases hacking
  · intro other hother hquiet
    by_cases hsame : core = other
    · exact .inr (congrArg some hsame)
    · have hsem : comsSemid cfg.myCoreId other ≠ comsSemid cfg.myCoreId core := by
        intro heq
        exact hsame (coms_semid_injective hother hcore heq).symm
      change Function.update s.mis _ false _ = false at hquiet
      rw [Function.update_of_ne hsem] at hquiet
      have hnoticed := h.noticed other hother hquiet
      rw [hidle] at hnoticed
      exact .inl (hnoticed.resolve_right (Option.some_ne_none other).symm)
  · intro other
    by_cases hsame : core = other
    · exact .inr (congrArg some hsame)
    · have hown := h.own other
      rw [hidle] at hown
      have hmark : (s.acknowledge core (comsSemid cfg.myCoreId core)).pushedAtAck other =
          s.pushedAtAck other := Function.update_of_ne (Ne.symm hsame) _ _
      rw [hmark]
      exact .inl (hown.resolve_right (Option.some_ne_none other).symm)
  · intro other
    show Function.update s.pushedAtAck core _ other ≤ (s.pushed other).length
    by_cases hsame : other = core
    · subst hsame
      exact Nat.le_of_eq (Function.update_self ..)
    · rw [Function.update_of_ne hsame]
      exact h.ownBound other
  · intro hout
    rcases hout with hout | hout
    · cases hout
    · cases hout

omit [DecidableEq P] in
/-- An empty FIFO has been drained. -/
theorem irq_drained (h : IrqInv cfg s) (helem : ElemInv cfg s) {core : Nat}
    (hdraining : s.it11.draining = some core) (hfifo : s.fifo core = []) :
    IrqInv cfg { s with it11 := .scanning } := by
  have hall : s.drained core = s.pushed core := by
    rw [helem.balance, hfifo, List.append_nil]
  refine ⟨h.neighbors, ?_, ?_, ?_, h.ownBound, h.marks, ?_⟩
  · intro other semId hacking
    cases hacking
  · intro other hother hquiet
    refine .inl ?_
    rcases h.noticed other hother hquiet with hle | hsame
    · exact hle
    · rw [hdraining] at hsame
      cases hsame
      show _ ≤ (s.drained core).length
      rw [hall]
      exact raised_count_le s core
  · intro other
    refine .inl ?_
    rcases h.own other with hle | hsame
    · exact hle
    · rw [hdraining] at hsame
      cases hsame
      show _ ≤ (s.drained core).length
      rw [hall]
      exact h.ownBound core
  · intro hout
    rcases hout with hout | hout
    · cases hout
    · cases hout

omit [DecidableEq P] in
/-- No interrupt is pending: what was raised before the last acknowledge has been drained. -/
theorem irq_quiet (h : IrqInv cfg s) (hpc : s.it11 = .scanning)
    (hmis : ∀ core, cfg.Neighbor core → s.mis (comsSemid cfg.myCoreId core) = false) :
    IrqInv cfg { s with it11 := .leaving } := by
  have hidle : s.it11.draining = none := by
    rw [hpc]
    rfl
  refine h.go rfl rfl rfl rfl rfl (fun _ => Nat.le_refl _) hidle.symm ?_ ?_
  · intro core semId hacking
    cases hacking
  · intro _ core
    have hmark := h.marks core
    by_cases hcore : cfg.Neighbor core
    · have hnoticed := h.noticed core hcore (hmis core hcore)
      rw [hidle] at hnoticed
      exact Nat.le_trans hmark (hnoticed.resolve_right (Option.some_ne_none core).symm)
    · have hempty : s.pushed core = [] := by
        by_contra hne
        exact hcore (h.neighbors core hne)
      have hzero := raised_count_le s core
      rw [hempty] at hzero
      exact Nat.le_trans (Nat.le_trans hmark hzero) (Nat.zero_le _)

omit [DecidableEq P] in
theorem drained_le_acknowledge_read (s : CommandPath P) (core other : Nat) :
    (s.drained other).length ≤ ((s.acknowledgeRead core).drained other).length := by
  show _ ≤ (Function.update s.drained core _ other).length
  by_cases hsame : other = core
  · subst hsame
    rw [Function.update_self, List.length_append]
    exact Nat.le_add_right _ _
  · exact Nat.le_of_eq (congrArg List.length (Function.update_of_ne hsame _ _).symm)

theorem irq_it11 (h : IrqInv cfg s) (helem : ElemInv cfg s) (hstep : It11Step cfg s t) :
    IrqInv cfg t := by
  -- A step between two places of IT11 that are neither an acknowledge nor a way out.
  have hwithin : ∀ {next : CommandPath P}, next.mis = s.mis → next.pushed = s.pushed →
      next.raising = s.raising → next.pushedAtAck = s.pushedAtAck →
      next.raisedAtAck = s.raisedAtAck →
      (∀ core, (s.drained core).length ≤ (next.drained core).length) →
      ∀ core, next.it11.draining = some core → s.it11.draining = some core → IrqInv cfg next := by
    intro next hmis hpushed hraising hpushedAtAck hraisedAtAck hdrained core hnext hbefore
    refine h.go hmis hpushed hraising hpushedAtAck hraisedAtAck hdrained
      (hnext.trans hbefore.symm) ?_ ?_
    · intro other semId hacking
      rw [hacking] at hnext
      cases hnext
    · intro hout
      rcases hout with hout | hout
      · rw [hout] at hnext
        cases hnext
      · rw [hout] at hnext
        cases hnext
  have hsame : ∀ core, (s.drained core).length ≤ (s.drained core).length :=
    fun _ => Nat.le_refl _
  cases hstep with
  | found core hpc hcore =>
    refine h.go rfl rfl rfl rfl rfl hsame (by rw [hpc]; rfl) ?_ (by simp)
    intro other semId hacking
    cases hacking
    exact ⟨hcore, rfl⟩
  | quiet hpc hmis => exact irq_quiet h hpc hmis
  | acknowledge core semId hpc => exact irq_acknowledge h hpc
  | read core elem rest hpc hfifo =>
    exact hwithin rfl rfl rfl rfl rfl hsame core rfl (by rw [hpc]; rfl)
  | drained core hpc hfifo =>
    apply irq_drained h helem _ hfifo
    rcases hpc with hpc | hpc
    · rw [hpc]
      rfl
    · rw [hpc]
      rfl
  | again core hpc => exact hwithin rfl rfl rfl rfl rfl hsame core rfl (by rw [hpc]; rfl)
  | choose core elem slot rest hpc htop =>
    exact hwithin rfl rfl rfl rfl rfl hsame core rfl (by rw [hpc]; rfl)
  | panic core elem cpu hpc htop hcpu =>
    exact hwithin rfl rfl rfl rfl rfl hsame core rfl (by rw [hpc]; rfl)
  | mask core elem event cpu hpc hcpu =>
    exact hwithin rfl rfl rfl rfl rfl hsame core rfl (by rw [hpc]; rfl)
  | fill core elem event hpc =>
    exact hwithin rfl rfl rfl rfl rfl hsame core rfl (by rw [hpc]; rfl)
  | post core elem event cpu hpc hcpu =>
    exact hwithin rfl rfl rfl rfl rfl hsame core rfl (by rw [hpc]; rfl)
  | unmask core elem cpu hpc hcpu =>
    exact hwithin rfl rfl rfl rfl rfl hsame core rfl (by rw [hpc]; rfl)
  | acknowledgeRead core elem hpc =>
    exact hwithin rfl rfl rfl rfl rfl (drained_le_acknowledge_read s core) core rfl
      (by rw [hpc]; rfl)
  | leave cpu hpc hcpu =>
    refine h.go rfl rfl rfl rfl rfl hsame (by rw [hpc]; rfl) (by simp) ?_
    intro _
    exact h.returned (.inl hpc)

theorem irq_step {a : CommandAction P} (h : IrqInv cfg s) (helem : ElemInv cfg s)
    (hstep : s.step cfg a = some t) : IrqInv cfg t := by
  rcases command_step_cases hstep with ⟨core, elem, hcore, hraising, rfl⟩ | ⟨core, -, rfl⟩ |
    ⟨action, cpu, -, -, -, -, -, rfl⟩ | ⟨cpu, -, -, -, rfl⟩ |
    ⟨event, hevent, rfl⟩ | ⟨cpu, -, houtside, -, rfl⟩ | ⟨-, hit11⟩
  · exact irq_push h elem hcore hraising
  · exact irq_raise h core
  · exact ⟨h.neighbors, h.acking, h.noticed, h.own, h.ownBound, h.marks, h.returned⟩
  · exact ⟨h.neighbors, h.acking, h.noticed, h.own, h.ownBound, h.marks, h.returned⟩
  · exact ⟨h.neighbors, h.acking, h.noticed, h.own, h.ownBound, h.marks, h.returned⟩
  · refine h.go rfl rfl rfl rfl rfl (fun _ => Nat.le_refl _) (by rw [houtside]; rfl) ?_ (by simp)
    intro core semId hacking
    cases hacking
  · exact irq_it11 h helem (it11_step_of_eq hit11)

end Interrupts

/-- What holds in every state the command path can reach. -/
structure CommandInv (cfg : ComsConfig P) (s : CommandPath P) : Prop where
  level : LevelInv cfg s
  mask : MaskInv s
  place : PlaceInv cfg s
  elem : ElemInv cfg s
  irq : IrqInv cfg s

section Runs
open Codinalte.Machine

theorem command_inv_step {a : CommandAction P} (h : CommandInv cfg s)
    (hstep : s.step cfg a = some t) : CommandInv cfg t where
  level := level_step h.level hstep
  mask := mask_step h.mask hstep
  place := place_step h.place h.level hstep
  elem := elem_step h.elem h.place hstep
  irq := irq_step h.irq h.elem hstep

theorem command_inv_run {as : List (CommandAction P)}
    (hrun : run (CommandPath.step cfg) (.loaded cfg) as = some s) : CommandInv cfg s := by
  refine run_induction (P := CommandInv cfg) ?_ ?_ hrun
  · intro s a t h hstep
    exact command_inv_step h hstep
  · exact ⟨level_loaded cfg, mask_loaded cfg, place_loaded cfg, elem_loaded cfg, irq_loaded cfg⟩

omit [DecidableEq P] in
/-- An element left in a FIFO has its interrupt pending or still to come. -/
theorem interrupt_to_come (helem : ElemInv cfg s) (hirq : IrqInv cfg s)
    (houtside : s.it11 = .outside) {core : Nat} (hfifo : s.fifo core ≠ []) :
    s.mis (comsSemid cfg.myCoreId core) = true ∨ s.raising core = true := by
  by_contra hnone
  obtain ⟨hmis, hraising⟩ := not_or.mp hnone
  have hbalance := congrArg List.length (helem.balance core)
  rw [List.length_append] at hbalance
  have hpos : 0 < (s.fifo core).length := List.length_pos_of_ne_nil hfifo
  have hcore : cfg.Neighbor core := by
    apply hirq.neighbors
    intro hempty
    rw [hempty] at hbalance
    have hzero : 0 = (s.drained core).length + (s.fifo core).length := hbalance
    omega
  have hraised : s.raisedCount core = (s.pushed core).length := by
    unfold CommandPath.raisedCount
    rw [Bool.eq_false_iff.mpr hraising]
    rfl
  rcases hirq.noticed core hcore (Bool.eq_false_iff.mpr hmis) with hle | hdraining
  · omega
  · rw [houtside] at hdraining
    cases hdraining

theorem held_masked (h : MaskInv s) {event : Descriptor P} (hheld : s.inIT11 event ≠ 0) :
    s.cpu.masked = true ∧ ∃ core elem, s.it11 = .popped core elem event := by
  have hsome : s.it11.held = some event := by
    by_contra hne
    apply hheld
    exact if_neg hne
  cases hpc : s.it11 with
  | popped core elem chosen =>
    rw [hpc] at hsome
    cases hsome
    exact ⟨(h (by rw [hpc]; rfl)).1, core, elem, rfl⟩
  | outside | scanning | acking | reading | element | allocated | filling | unmasking
  | acknowledging | recounting | leaving | panicked =>
    rw [hpc] at hsome
    cases hsome

/-- In every run of the command path each event of a pool is in one place, queued only under its own
priority and held by IT11 only with the interrupts masked; IT11 panics only over an empty free list;
the elements of each core are handed to the scheduler once and in the order of the pushes; and when
IT11 is not running, what was pushed before its last acknowledge has been drained. -/
theorem command_path_runs (as : List (CommandAction P)) (s : CommandPath P)
    (hrun : run (CommandPath.step cfg) (.loaded cfg) as = some s) :
    (∀ event : Descriptor P, s.inFreeList event + s.inQueue cfg event + s.inReaction event +
      s.inIT11 event = if event.slot ∈ cfg.pool event.pool then 1 else 0) ∧
    (∀ (event : Descriptor P) p, .remote event ∈ s.cpu.queue p →
      p = cfg.eventPriority (.remote event)) ∧
    (∀ event : Descriptor P, s.inIT11 event ≠ 0 →
      s.cpu.masked = true ∧ ∃ core elem, s.it11 = .popped core elem event) ∧
    (∀ core elem, s.it11 = .panicked core elem → s.top elem.pool = []) ∧
    (∀ core, s.pushed core = s.drained core ++ s.fifo core ∧
      (s.scheduled core).map postedFields =
        (s.drained core ++ postedElem s.it11 core).map cfg.fields ∧
      (s.drained core ++ postedElem s.it11 core) <+: s.pushed core) ∧
    (s.it11 = .outside → ∀ core,
      s.pushedAtAck core ≤ (s.drained core).length ∧
      s.raisedAtAck core ≤ (s.drained core).length ∧
      (s.fifo core ≠ [] →
        s.mis (comsSemid cfg.myCoreId core) = true ∨ s.raising core = true)) := by
  have h := command_inv_run hrun
  refine ⟨?_, ?_, fun event => held_masked h.mask, h.place.panic, ?_, ?_⟩
  · intro event
    rw [h.place.counted event]
    exact (cfg.nodup event.pool).count
  · intro event p hmem
    exact (h.level.posting.priority_eq hmem).symm
  · intro core
    refine ⟨h.elem.balance core, h.elem.posted core, ?_⟩
    exact posted_pushed h.elem core
  · intro houtside core
    refine ⟨?_, h.irq.returned (.inr houtside) core, ?_⟩
    · apply (h.irq.own core).resolve_right
      rw [houtside]
      intro hdraining
      cases hdraining
    · intro hfifo
      exact interrupt_to_come h.elem h.irq houtside hfifo

/-- One pool with two events, on the first media processor. -/
def sampleConfig : ComsConfig Unit where
  myCoreId := 1
  priority := fun _ => 0
  method := fun _ index => 100 + index
  pool := fun _ => [0, 1]
  isDsp := .inl rfl
  nodup := fun _ => by decide

/-- The host pushes an element, and IT11 goes on until it has taken an event for it. -/
def sampleCommand : List (CommandAction Unit) :=
  [.cpu .enterLoop, .cpu .enterLoop, .cpu .schedule, .cpu .schedule, .cpu .schedule,
    .cpu .schedule, .cpu .enterLoop, .push 0 ⟨(), 3, 7⟩, .raise 0, .enterIT11, .it11, .it11, .it11,
    .it11, .it11, .it11]

/-- A second element is pushed while the first one is handed over, and its interrupt finds the FIFO
empty; then the first event is dispatched. -/
def sampleSecond : List (CommandAction Unit) :=
  [.push 0 ⟨(), 4, 8⟩, .it11, .it11, .it11, .it11, .raise 0] ++ List.replicate 13 .it11 ++
    [.cpu .takeIT2, .cpu .schedule, .cpu .schedule, .cpu .schedule, .freeEvent]

theorem command_path_sample_commands : ∃ s,
    run (CommandPath.step sampleConfig) (.loaded sampleConfig)
      (sampleCommand ++ sampleSecond) = some s ∧
    s.it11 = .outside ∧
    s.scheduled 0 = [(⟨(), 0⟩, 7, 103), (⟨(), 1⟩, 8, 104)] ∧
    s.raisedAtAck 0 ≤ (s.drained 0).length ∧
    s.inFreeList ⟨(), 0⟩ + s.inQueue sampleConfig ⟨(), 0⟩ + s.inReaction ⟨(), 0⟩ +
      s.inIT11 ⟨(), 0⟩ = if 0 ∈ sampleConfig.pool () then 1 else 0 := by
  have hrun : ∃ s, run (CommandPath.step sampleConfig) (.loaded sampleConfig)
      (sampleCommand ++ sampleSecond) = some s ∧
      s.it11 = .outside ∧ s.scheduled 0 = [(⟨(), 0⟩, 7, 103), (⟨(), 1⟩, 8, 104)] :=
    ⟨_, rfl, rfl, rfl⟩
  obtain ⟨s, hs, houtside, hscheduled⟩ := hrun
  obtain ⟨hplaces, -, -, -, -, hreturned⟩ := command_path_runs _ s hs
  exact ⟨s, hs, houtside, hscheduled, (hreturned houtside 0).2.1, hplaces ⟨(), 0⟩⟩

/-- With the interrupts masked, the event IT11 has taken is in none of the three places. -/
theorem event_in_no_place : ∃ s,
    run (CommandPath.step sampleConfig) (.loaded sampleConfig) sampleCommand = some s ∧
    s.cpu.masked = true ∧ 0 ∈ sampleConfig.pool () ∧
    s.inFreeList ⟨(), 0⟩ = 0 ∧ s.inQueue sampleConfig ⟨(), 0⟩ = 0 ∧
    s.inReaction ⟨(), 0⟩ = 0 :=
  ⟨_, rfl, rfl, by decide, by decide, by decide, by decide⟩

end Runs

end Codinalte.Mpc
