import Codinalte.Idl.Layout
import Mathlib.Data.List.Induction

/-! The emitted statements run as a walk over the cells of the layout: the loops and the members do
nothing but to reach each cell at its index. Stub and skeleton differ in the statements for a cell
only, so that the walk is done once for both. -/

namespace Codinalte.Idl

/-- The words and the values. -/
abbrev Memory := (Int → Int) × (Location → Int)

mutual

/-- What stub and skeleton have in common. -/
def emit (leaf : CType → Name → Index → Code) (refer : Name → Name) :
    IdlType → Name → Index → Nat → Code
  | .primitive p, name, nb16, _ => leaf (.primitive p) name nb16
  | .pointer, name, nb16, _ => leaf .pointer name nb16
  | .enumeration, name, nb16, _ => leaf .enumeration name nb16
  | .reference type, name, nb16, arraylevel => emit leaf refer type (refer name) nb16 arraylevel
  | .typedef type, name, nb16, arraylevel => emit leaf refer type name nb16 arraylevel
  | .const type, name, nb16, arraylevel => emit leaf refer type name nb16 arraylevel
  | .named type, name, nb16, arraylevel => emit leaf refer type name nb16 arraylevel
  | .structure members, name, nb16, arraylevel =>
    emitMembers leaf refer members name nb16 arraylevel 0
  | .array type sizeInteger, name, nb16, arraylevel =>
    .loop arraylevel sizeInteger (emit leaf refer type (.element name arraylevel)
      (nb16 ++ [.step arraylevel]) (arraylevel + 1)) (javaInt type.words)
  | .other, _, _, _ => .skip

def emitMembers (leaf : CType → Name → Index → Code) (refer : Name → Name) :
    Members → Name → Index → Nat → Nat → Code
  | .nil, _, _, _, _ => .skip
  | .cons field type rest, name, nb16, arraylevel, offset =>
    .seq (emit leaf refer type (.member name field) (nb16.plus (javaInt offset)) arraylevel)
      (emitMembers leaf refer rest name nb16 arraylevel (offset + type.words))

end

/-- The parameters from the `k`-th on. -/
def emitParameters (leaf : CType → Name → Index → Code) (refer : Name → Name) :
    List IdlType → Nat → Nat → Code
  | [], _, _ => .skip
  | type :: types, k, offset =>
    .seq (emit leaf refer type (.parameter k) [.literal (javaInt offset)] 0)
      (emitParameters leaf refer types (k + 1) (offset + type.words))

theorem javaInt_sum (offset words : Nat) :
    javaInt (javaInt offset + javaInt words) = javaInt ((offset + words : Nat) : Int) := by
  rw [javaInt_add_left, javaInt_add_right, Int.natCast_add]

/-- The statements of a stub for one cell. -/
def writeLeaf : CType → Name → Index → Code
  | .primitive p, name, nb16 => (writePrimitive p name nb16).1
  | .enumeration, name, nb16 => writeUnsigned name nb16
  | .pointer, name, nb16 => writeUnsigned name nb16

def readLeaf (skeleton : Skeleton) : CType → Name → Index → Code
  | .primitive p, name, nb16 =>
    (readValue skeleton (.primitive p) (.primitive p) p.packedsize p.signed name nb16).1
  | .enumeration, name, nb16 => (readValue skeleton .uint16 .enumeration 32 false name nb16).1
  | .pointer, name, nb16 => (readValue skeleton .uint16 .pointer 32 false name nb16).1

def Style.refer : Style → Name → Name
  | .c, name => .deref name
  | .cpp, name => name

mutual

theorem writeData_eq_emit (style : Style) : ∀ (type : IdlType) (name : Name) (nb16 : Index)
    (arraylevel : Nat), type.Marshalled → (writeData style type name nb16 arraylevel).1 =
      emit writeLeaf style.refer type name nb16 arraylevel
  | .primitive p, name, nb16, arraylevel, h => by simp only [writeData, emit, writeLeaf]
  | .pointer, name, nb16, arraylevel, h => by simp only [writeData, emit, writeLeaf]
  | .enumeration, name, nb16, arraylevel, h => by simp only [writeData, emit, writeLeaf]
  | .reference type, name, nb16, arraylevel, h => by
    unfold writeData emit
    cases style with
    | c => exact writeData_eq_emit .c type _ nb16 arraylevel h
    | cpp => exact writeData_eq_emit .cpp type name nb16 arraylevel h
  | .typedef type, name, nb16, arraylevel, h => by
    unfold writeData emit
    exact writeData_eq_emit style type name nb16 arraylevel h
  | .const type, name, nb16, arraylevel, h => by
    unfold writeData emit
    exact writeData_eq_emit style type name nb16 arraylevel h
  | .named type, name, nb16, arraylevel, h => by
    unfold writeData emit
    exact writeData_eq_emit style type name nb16 arraylevel h
  | .structure members, name, nb16, arraylevel, h => by
    unfold writeData emit
    exact writeMembers_eq_emit style members name nb16 arraylevel 0 h
  | .array type sizeInteger, name, nb16, arraylevel, h => by
    unfold writeData emit
    simp only [writeData_words style type _ _ _ h]
    rw [writeData_eq_emit style type _ _ _ h]
  | .other, name, nb16, arraylevel, h => absurd h id

theorem writeMembers_eq_emit (style : Style) : ∀ (members : Members) (name : Name) (nb16 : Index)
    (arraylevel offset : Nat), members.Marshalled →
    (writeMembers style members name nb16 arraylevel (javaInt offset)).1 =
      emitMembers writeLeaf style.refer members name nb16 arraylevel offset
  | .nil, name, nb16, arraylevel, offset, h => rfl
  | .cons field type rest, name, nb16, arraylevel, offset, h => by
    unfold writeMembers emitMembers
    simp only [writeData_words style type _ _ _ h.1, javaInt_sum]
    rw [writeData_eq_emit style type _ _ _ h.1, writeMembers_eq_emit style rest _ _ _ _ h.2]

end

mutual

theorem readData_eq_emit (skeleton : Skeleton) : ∀ (type : IdlType) (name : Name) (nb16 : Index)
    (arraylevel : Nat), type.Marshalled → (readData skeleton type name nb16 arraylevel).1 =
      emit (readLeaf skeleton) id type name nb16 arraylevel
  | .primitive p, name, nb16, arraylevel, h => by simp only [readData, emit, readLeaf]
  | .pointer, name, nb16, arraylevel, h => by simp only [readData, emit, readLeaf]
  | .enumeration, name, nb16, arraylevel, h => by simp only [readData, emit, readLeaf]
  | .reference type, name, nb16, arraylevel, h => by
    unfold readData emit
    exact readData_eq_emit skeleton type name nb16 arraylevel h
  | .typedef type, name, nb16, arraylevel, h => by
    rw [readData_typedef]
    unfold emit
    exact readData_eq_emit skeleton type name nb16 arraylevel h
  | .const type, name, nb16, arraylevel, h => by
    unfold readData emit
    exact readData_eq_emit skeleton type name nb16 arraylevel h
  | .named type, name, nb16, arraylevel, h => by
    unfold readData emit
    exact readData_eq_emit skeleton type name nb16 arraylevel h
  | .structure members, name, nb16, arraylevel, h => by
    unfold readData emit
    exact readMembers_eq_emit skeleton members name nb16 arraylevel 0 h
  | .array type sizeInteger, name, nb16, arraylevel, h => by
    unfold readData emit
    simp only [readData_words skeleton type _ _ _ h]
    rw [readData_eq_emit skeleton type _ _ _ h]
  | .other, name, nb16, arraylevel, h => absurd h id

theorem readMembers_eq_emit (skeleton : Skeleton) : ∀ (members : Members) (name : Name)
    (nb16 : Index) (arraylevel offset : Nat), members.Marshalled →
    (readMembers skeleton members name nb16 arraylevel (javaInt offset)).1 =
      emitMembers (readLeaf skeleton) id members name nb16 arraylevel offset
  | .nil, name, nb16, arraylevel, offset, h => rfl
  | .cons field type rest, name, nb16, arraylevel, offset, h => by
    unfold readMembers emitMembers
    simp only [readData_words skeleton type _ _ _ h.1, javaInt_sum]
    rw [readData_eq_emit skeleton type _ _ _ h.1, readMembers_eq_emit skeleton rest _ _ _ _ h.2]

end

section Parameters
variable {types : List IdlType}

theorem writeParameters_eq (style : Style) (h : ∀ type ∈ types, type.Marshalled) (k offset : Nat) :
    writeParameters style types k (javaInt offset) =
      (emitParameters writeLeaf style.refer types k offset,
        javaInt ((offset + parametersWords types : Nat) : Int)) := by
  induction types generalizing k offset with
  | nil => rfl
  | cons type types ih =>
    have htype := h type List.mem_cons_self
    have hrest := ih (fun t ht => h t (List.mem_cons_of_mem _ ht)) (k + 1) (offset + type.words)
    have hwords : parametersWords (type :: types) = type.words + parametersWords types :=
      List.sum_cons
    unfold writeParameters emitParameters
    simp only [writeData_words style type _ _ _ htype, javaInt_sum, hrest,
      writeData_eq_emit style type _ _ _ htype, hwords, Nat.add_assoc]

theorem readParameters_eq (skeleton : Skeleton) (h : ∀ type ∈ types, type.Marshalled)
    (k offset : Nat) : readParameters skeleton types k (javaInt offset) =
      (emitParameters (readLeaf skeleton) id types k offset,
        javaInt ((offset + parametersWords types : Nat) : Int)) := by
  induction types generalizing k offset with
  | nil => rfl
  | cons type types ih =>
    have htype := h type List.mem_cons_self
    have hrest := ih (fun t ht => h t (List.mem_cons_of_mem _ ht)) (k + 1) (offset + type.words)
    have hwords : parametersWords (type :: types) = type.words + parametersWords types :=
      List.sum_cons
    unfold readParameters emitParameters
    simp only [readData_words skeleton type _ _ _ htype, javaInt_sum, hrest,
      readData_eq_emit skeleton type _ _ _ htype, hwords, Nat.add_assoc]

end Parameters

section Evaluation
variable {processor : Processor} {s s' : State} {name : Name} {nb16 : Index} {arraylevel : Nat}
  {location : Location} {b : Int} {n : Nat} {memory memory' : Memory}

theorem checked_of_lt {x : Int} (hpos : 0 ≤ x) (hlt : x < 8388608) :
    checked processor x = some x := by
  unfold checked
  apply if_pos
  cases processor with
  | host => simp only [Processor.intBits]; omega
  | mmdsp => simp only [Processor.intBits]; omega

theorem eval_append (nb16 : Index) (term : Term) (j : Nat → Int) :
    Index.eval processor j (nb16 ++ [term]) =
      (nb16.eval processor j).bind fun k => checked processor (k + term.value j) := by
  unfold Index.eval
  rw [List.foldlM_append]
  congr 1
  funext k
  simp

theorem eval_congr {j j' : Nat → Int} (h : ∀ l ∈ nb16.levels, j l = j' l) :
    nb16.eval processor j = nb16.eval processor j' := by
  induction nb16 using List.reverseRecOn with
  | nil => rfl
  | append_singleton nb16 term ih =>
    have hterm : term.value j = term.value j' := by
      cases term with
      | literal m => rfl
      | step l => exact h l (by simp [Index.levels])
    have hbefore : ∀ l ∈ Index.levels nb16, j l = j' l := by
      intro l hl
      apply h l
      unfold Index.levels at hl ⊢
      rw [List.filterMap_append]
      exact List.mem_append_left _ hl
    rw [eval_append, eval_append, ih hbefore, hterm]

theorem location_congr {i i' : Nat → Int} (h : ∀ l ∈ name.levels, i l = i' l) :
    name.location i = name.location i' := by
  induction name with
  | parameter k => rfl
  | deref name ih => exact ih h
  | member name field ih =>
    unfold Name.location
    rw [ih h]
  | element name arraylevel ih =>
    unfold Name.location
    rw [ih fun l hl => h l (List.mem_cons_of_mem _ hl), h arraylevel List.mem_cons_self]

/-- A name and an index that denote a place with as many words. -/
structure Ready (processor : Processor) (s : State) (name : Name) (nb16 : Index)
    (arraylevel : Nat) (location : Location) (b : Int) (n : Nat) : Prop where
  eval : nb16.eval processor s.j = some b
  nonneg : 0 ≤ b
  room : b + n < 8388608
  location : name.location s.i = location
  name : Below name.levels arraylevel
  nb16 : Below nb16.levels arraylevel

/-- What a run leaves: the loop variables outside are kept, and only its words are touched. -/
structure Ran (s s' : State) (arraylevel : Nat) (b : Int) (n : Nat) (memory : Memory) : Prop where
  memory : (s'.data, s'.values) = memory
  i : ∀ l < arraylevel, s'.i l = s.i l
  j : ∀ l < arraylevel, s'.j l = s.j l
  touched : ∀ k ∈ s'.touched, k ∈ s.touched ∨ (b ≤ k ∧ k < b + n)

theorem Ran.refl (s : State) (arraylevel : Nat) (b : Int) (n : Nat) :
    Ran s s arraylevel b n (s.data, s.values) where
  memory := rfl
  i := fun _ _ => rfl
  j := fun _ _ => rfl
  touched := fun _ hk => .inl hk

theorem Ready.plus {m : Nat} (h : Ready processor s name nb16 arraylevel location b n) (hle : m ≤ n) :
    (nb16.plus m).eval processor s.j = some (b + m) := by
  have hnonneg := h.nonneg
  have hroom := h.room
  unfold Index.plus
  rw [eval_append, h.eval, Option.bind_some]
  exact checked_of_lt (by simp only [Term.value]; omega) (by simp only [Term.value]; omega)

/-- In a state with the same outer loop variables. -/
theorem Ready.transfer (h : Ready processor s name nb16 arraylevel location b n)
    (hi : ∀ l < arraylevel, s'.i l = s.i l) (hj : ∀ l < arraylevel, s'.j l = s.j l) :
    Ready processor s' name nb16 arraylevel location b n where
  eval := (eval_congr fun l hl => hj l (h.nb16 l hl)).trans h.eval
  nonneg := h.nonneg
  room := h.room
  location := (location_congr fun l hl => hi l (h.name l hl)).trans h.location
  name := h.name
  nb16 := h.nb16

theorem Ready.member {m k : Nat} (h : Ready processor s name nb16 arraylevel location b n)
    (field : String) (hle : m + k ≤ n) :
    Ready processor s (.member name field) (nb16.plus m) arraylevel (location ++ [.member field])
      (b + m) k where
  eval := h.plus (Nat.le_trans (Nat.le_add_right m k) hle)
  nonneg := by
    have hnonneg := h.nonneg
    omega
  room := by
    have hroom := h.room
    omega
  location := by
    unfold Name.location
    rw [h.location]
  name := h.name
  nb16 := h.nb16.plus _

/-- The index and the name of an element, in the round for it. -/
theorem Ready.element {m k : Nat} (h : Ready processor s name nb16 arraylevel location b n)
    (hi : s.i arraylevel = m) (hj : s.j arraylevel = (k * m : Nat)) (hle : k * m + k ≤ n) :
    Ready processor s (.element name arraylevel) (nb16 ++ [.step arraylevel]) (arraylevel + 1)
      (location ++ [.element m]) (b + (k * m : Nat)) k where
  eval := by
    have hnonneg := h.nonneg
    have hroom := h.room
    rw [eval_append, h.eval, Option.bind_some]
    simp only [Term.value, hj]
    exact checked_of_lt (by omega) (by omega)
  nonneg := by
    have hnonneg := h.nonneg
    omega
  room := by
    have hroom := h.room
    omega
  location := by
    unfold Name.location
    rw [h.location, hi]
  name := (h.name.mono (Nat.le_succ _)).cons (Nat.lt_succ_self _)
  nb16 := (h.nb16.mono (Nat.le_succ _)).step (Nat.lt_succ_self _)

/-- What the rounds of a loop leave, from what each of them keeps. -/
theorem rounds_run {sizeInteger : Nat} {elemcomputed : Int} {body : State → Option State}
    {inv : Nat → State → Prop} (hi : ∀ n s, inv n s → s.i arraylevel = n)
    (hbody : ∀ n s, n < sizeInteger → inv n s → ∃ s' j, body s = some s' ∧ s'.i arraylevel = n ∧
      checked processor (s'.j arraylevel + elemcomputed) = some j ∧
      inv (n + 1) { s' with
        i := Function.update s'.i arraylevel (n + 1), j := Function.update s'.j arraylevel j })
    (hsize : sizeInteger < 8388608) (k n : Nat) (s : State) (hk : n + k = sizeInteger)
    (h : inv n s) :
    ∃ s', rounds processor arraylevel sizeInteger elemcomputed body (k + 1) s = some s' ∧
      inv sizeInteger s' := by
  induction k generalizing n s with
  | zero =>
    have hn : n = sizeInteger := hk
    subst hn
    refine ⟨s, ?_, h⟩
    unfold rounds
    rw [if_neg]
    rw [hi n s h]
    exact Int.lt_irrefl _
  | succ k ih =>
    have hlt : n < sizeInteger := by omega
    obtain ⟨s', j, hrun, hround, hj, hinv⟩ := hbody n s hlt h
    obtain ⟨t, ht, hdone⟩ := ih (n + 1) _ (by omega) hinv
    refine ⟨t, ?_, hdone⟩
    have hcond : s.i arraylevel < sizeInteger := by
      rw [hi n s h]
      omega
    have hstep : checked processor (s'.i arraylevel + 1) = some ((n : Int) + 1) := by
      rw [hround]
      exact checked_of_lt (by omega) (by omega)
    rw [rounds, if_pos hcond, hrun]
    simp only [bind, Option.bind, hj, hstep]
    exact ht

end Evaluation

mutual

/-- No array has more elements than an `int` of the MMDSP counts. -/
def IdlType.Counted : IdlType → Prop
  | .reference type => type.Counted
  | .structure members => members.Counted
  | .typedef type => type.Counted
  | .array type sizeInteger => sizeInteger < 8388608 ∧ type.Counted
  | .const type => type.Counted
  | .named type => type.Counted
  | _ => True

def Members.Counted : Members → Prop
  | .nil => True
  | .cons _ type rest => type.Counted ∧ rest.Counted

end

section Visit
variable {processor : Processor} {leaf : CType → Name → Index → Code} {refer : Name → Name}
  {act : CType → Location → Int → Memory → Memory} {location : Location} {b : Int}
  {cells cells' : List Cell} {memory : Memory}

/-- What the statements for a cell do, for one cell after the other. -/
def visit (act : CType → Location → Int → Memory → Memory) (location : Location) (b : Int)
    (cells : List Cell) (memory : Memory) : Memory :=
  cells.foldl (fun memory c => act c.type (location ++ c.path) (b + c.offset) memory) memory

theorem visit_append : visit act location b (cells ++ cells') memory =
    visit act location b cells' (visit act location b cells memory) := List.foldl_append

theorem visit_under (step : Step) (offset : Nat) :
    visit act location b (cells.map (Cell.under step offset)) memory =
      visit act (location ++ [step]) (b + offset) cells memory := by
  unfold visit
  rw [List.foldl_map]
  congr 1
  funext memory c
  simp only [Cell.under, Int.natCast_add, List.append_assoc, List.singleton_append]
  rw [Int.add_assoc]

/-- A C type that fills two words at most. -/
def CType.Marshalled : CType → Prop
  | .primitive p => p.packedsize ≤ 32
  | _ => True

/-- The statements for a cell do what `act` says. -/
def LeafRuns (processor : Processor) (leaf : CType → Name → Index → Code)
    (act : CType → Location → Int → Memory → Memory) : Prop :=
  ∀ (type : CType) (name : Name) (nb16 : Index) (arraylevel : Nat) (s : State)
    (location : Location) (b : Int), type.Marshalled →
    Ready processor s name nb16 arraylevel location b type.words →
    ∃ s', exec processor (leaf type name nb16) s = some s' ∧
      Ran s s' arraylevel b type.words (act type location b (s.data, s.values))

/-- The name of a reference denotes what it refers to. -/
structure Refers (refer : Name → Name) : Prop where
  location : ∀ name i, (refer name).location i = name.location i
  levels : ∀ name, (refer name).levels = name.levels

theorem Refers.ready {s : State} {name : Name} {nb16 : Index} {arraylevel n : Nat}
    (hrefer : Refers refer) (h : Ready processor s name nb16 arraylevel location b n) :
    Ready processor s (refer name) nb16 arraylevel location b n where
  eval := h.eval
  nonneg := h.nonneg
  room := h.room
  location := (hrefer.location name s.i).trans h.location
  name := by
    rw [hrefer.levels]
    exact h.name
  nb16 := h.nb16

/-- The state in a round of a loop: the elements before it have been visited. -/
structure Round (act : CType → Location → Int → Memory → Memory) (type : IdlType) (s : State)
    (arraylevel : Nat) (location : Location) (b : Int) (n : Nat) (s' : State) : Prop where
  memory : (s'.data, s'.values) =
    visit act location b (IdlType.array type n).layout (s.data, s.values)
  round : s'.i arraylevel = n
  offset : s'.j arraylevel = (type.words * n : Nat)
  i : ∀ l < arraylevel, s'.i l = s.i l
  j : ∀ l < arraylevel, s'.j l = s.j l
  touched : ∀ k ∈ s'.touched, k ∈ s.touched ∨ (b ≤ k ∧ k < b + (type.words * n : Nat))

theorem round_zero (type : IdlType) (s : State) (arraylevel : Nat) :
    Round act type s arraylevel location b 0 { s with
      i := Function.update s.i arraylevel 0, j := Function.update s.j arraylevel 0 } where
  memory := rfl
  round := Function.update_self ..
  offset := Function.update_self ..
  i := fun _ hl => Function.update_of_ne (Nat.ne_of_lt hl) _ _
  j := fun _ hl => Function.update_of_ne (Nat.ne_of_lt hl) _ _
  touched := fun _ hk => .inl hk

/-- One more element. -/
theorem Round.succ {type : IdlType} {s s' s'' : State} {arraylevel n : Nat}
    (h : Round act type s arraylevel location b n s')
    (hran : Ran s' s'' (arraylevel + 1) (b + (type.words * n : Nat)) type.words
      (visit act (location ++ [.element n]) (b + (type.words * n : Nat)) type.layout
        (s'.data, s'.values))) :
    Round act type s arraylevel location b (n + 1) { s'' with
      i := Function.update s''.i arraylevel (n + 1)
      j := Function.update s''.j arraylevel (type.words * (n + 1) : Nat) } where
  memory := by
    rw [layout_array_succ, visit_append, visit_under, ← h.memory]
    exact hran.memory
  round := Function.update_self ..
  offset := Function.update_self ..
  i := by
    intro l hl
    have hbefore := hran.i l (Nat.lt_succ_of_lt hl)
    exact (Function.update_of_ne (Nat.ne_of_lt hl) _ _).trans (hbefore.trans (h.i l hl))
  j := by
    intro l hl
    have hbefore := hran.j l (Nat.lt_succ_of_lt hl)
    exact (Function.update_of_ne (Nat.ne_of_lt hl) _ _).trans (hbefore.trans (h.j l hl))
  touched := by
    intro k hk
    have hsucc : type.words * (n + 1) = type.words * n + type.words := Nat.mul_succ ..
    rcases hran.touched k hk with hk | hk
    · rcases h.touched k hk with hk | hk
      · exact .inl hk
      · exact .inr ⟨hk.1, by omega⟩
    · exact .inr ⟨by omega, by omega⟩

theorem LeafRuns.exec (hleaf : LeafRuns processor leaf act) {type : CType} {name : Name}
    {nb16 : Index} {arraylevel : Nat} {s : State} (h : type.Marshalled)
    (hready : Ready processor s name nb16 arraylevel location b type.words) :
    ∃ s', exec processor (leaf type name nb16) s = some s' ∧
      Ran s s' arraylevel b type.words
        (visit act location b [⟨[], 0, type⟩] (s.data, s.values)) := by
  have hone : visit act location b [⟨[], 0, type⟩] (s.data, s.values) =
      act type location b (s.data, s.values) := by
    simp [visit]
  rw [hone]
  exact hleaf type name nb16 arraylevel s location b h hready

mutual

/-- The statements for a type visit the cells of its layout. -/
theorem exec_emit (hleaf : LeafRuns processor leaf act) (hrefer : Refers refer) :
    ∀ (type : IdlType) (name : Name) (nb16 : Index) (arraylevel : Nat) (s : State)
      (location : Location) (b : Int), type.Marshalled → type.Counted →
      Ready processor s name nb16 arraylevel location b type.words →
      ∃ s', exec processor (emit leaf refer type name nb16 arraylevel) s = some s' ∧
        Ran s s' arraylevel b type.words (visit act location b type.layout (s.data, s.values))
  | .primitive p, name, nb16, arraylevel, s, location, b, h, hcounted, hready => by
    unfold emit
    exact hleaf.exec h hready
  | .pointer, name, nb16, arraylevel, s, location, b, h, hcounted, hready => by
    unfold emit
    exact hleaf.exec h hready
  | .enumeration, name, nb16, arraylevel, s, location, b, h, hcounted, hready => by
    unfold emit
    exact hleaf.exec h hready
  | .reference type, name, nb16, arraylevel, s, location, b, h, hcounted, hready => by
    unfold emit
    exact exec_emit hleaf hrefer type (refer name) nb16 arraylevel s location b h hcounted
      (hrefer.ready hready)
  | .typedef type, name, nb16, arraylevel, s, location, b, h, hcounted, hready => by
    unfold emit
    exact exec_emit hleaf hrefer type name nb16 arraylevel s location b h hcounted hready
  | .const type, name, nb16, arraylevel, s, location, b, h, hcounted, hready => by
    unfold emit
    exact exec_emit hleaf hrefer type name nb16 arraylevel s location b h hcounted hready
  | .named type, name, nb16, arraylevel, s, location, b, h, hcounted, hready => by
    unfold emit
    exact exec_emit hleaf hrefer type name nb16 arraylevel s location b h hcounted hready
  | .other, name, nb16, arraylevel, s, location, b, h, hcounted, hready => absurd h id
  | .structure members, name, nb16, arraylevel, s, location, b, h, hcounted, hready => by
    unfold emit
    have hwords : 0 + members.words ≤ members.words := Nat.le_of_eq (Nat.zero_add _)
    exact exec_emitMembers hleaf hrefer members name nb16 arraylevel s location b members.words 0 h
      hcounted hready hwords
  | .array type sizeInteger, name, nb16, arraylevel, s, location, b, h, hcounted, hready => by
    have hbody : ∀ n s', n < sizeInteger → Round act type s arraylevel location b n s' →
        ∃ s'' j, exec processor (emit leaf refer type (.element name arraylevel)
            (nb16 ++ [.step arraylevel]) (arraylevel + 1)) s' = some s'' ∧
          s''.i arraylevel = n ∧
          checked processor (s''.j arraylevel + javaInt type.words) = some j ∧
          Round act type s arraylevel location b (n + 1) { s'' with
            i := Function.update s''.i arraylevel (n + 1)
            j := Function.update s''.j arraylevel j } := by
      intro n s' hn hround
      have hmore : type.words * n + type.words ≤ (IdlType.array type sizeInteger).words := by
        have hle := Nat.mul_le_mul_left type.words hn
        rw [Nat.mul_succ] at hle
        exact hle
      have hroom := hready.room
      have hnonneg := hready.nonneg
      have hready' := (hready.transfer hround.i hround.j).element hround.round hround.offset hmore
      obtain ⟨s'', hrun, hran⟩ := exec_emit hleaf hrefer type (.element name arraylevel)
        (nb16 ++ [.step arraylevel]) (arraylevel + 1) s' _ _ h hcounted.2 hready'
      have hi : s''.i arraylevel = n := (hran.i arraylevel (Nat.lt_succ_self _)).trans hround.round
      have hj : s''.j arraylevel = (type.words * n : Nat) :=
        (hran.j arraylevel (Nat.lt_succ_self _)).trans hround.offset
      refine ⟨s'', (type.words * (n + 1) : Nat), hrun, hi, ?_, hround.succ hran⟩
      have hsucc : type.words * (n + 1) = type.words * n + type.words := Nat.mul_succ ..
      rw [hj, javaInt_of_lt (by omega) (by omega), ← Int.natCast_add, ← hsucc]
      exact checked_of_lt (by omega) (by omega)
    obtain ⟨s', hrun, hround⟩ := rounds_run (fun n s' (h : Round act type s arraylevel location b n s')
      => h.round) hbody hcounted.1 sizeInteger 0 _ (Nat.zero_add _) (round_zero type s arraylevel)
    refine ⟨s', ?_, hround.memory, hround.i, hround.j, hround.touched⟩
    unfold emit exec
    exact hrun

theorem exec_emitMembers (hleaf : LeafRuns processor leaf act) (hrefer : Refers refer) :
    ∀ (members : Members) (name : Name) (nb16 : Index) (arraylevel : Nat) (s : State)
      (location : Location) (b : Int) (n offset : Nat), members.Marshalled → members.Counted →
      Ready processor s name nb16 arraylevel location b n → offset + members.words ≤ n →
      ∃ s', exec processor (emitMembers leaf refer members name nb16 arraylevel offset) s =
          some s' ∧
        Ran s s' arraylevel b n (visit act location b (members.layout offset) (s.data, s.values))
  | .nil, name, nb16, arraylevel, s, location, b, n, offset, h, hcounted, hready, hle =>
    ⟨s, rfl, .refl s arraylevel b n⟩
  | .cons field type rest, name, nb16, arraylevel, s, location, b, n, offset, h, hcounted, hready,
      hle => by
    have hwords : (Members.cons field type rest).words = type.words + rest.words := rfl
    have hroom := hready.room
    have hnonneg := hready.nonneg
    have hjava : javaInt offset = offset := javaInt_of_lt (by omega) (by omega)
    obtain ⟨s₁, hrun₁, hran₁⟩ := exec_emit hleaf hrefer type (.member name field)
      (nb16.plus offset) arraylevel s _ _ h.1 hcounted.1 (hready.member field (by omega))
    obtain ⟨s₂, hrun₂, hran₂⟩ := exec_emitMembers hleaf hrefer rest name nb16 arraylevel s₁ location b
      n (offset + type.words) h.2 hcounted.2 (hready.transfer hran₁.i hran₁.j) (by omega)
    refine ⟨s₂, ?_, ?_, ?_, ?_, ?_⟩
    · unfold emitMembers exec
      rw [hjava, hrun₁]
      exact hrun₂
    · have hlayout : (Members.cons field type rest).layout offset =
          type.layout.map (Cell.under (.member field) offset) ++
            rest.layout (offset + type.words) := rfl
      rw [hran₂.memory, hran₁.memory, hlayout, visit_append, visit_under]
    · exact fun l hl => (hran₂.i l hl).trans (hran₁.i l hl)
    · exact fun l hl => (hran₂.j l hl).trans (hran₁.j l hl)
    · intro k hk
      rcases hran₂.touched k hk with hk | hk
      · rcases hran₁.touched k hk with hk | hk
        · exact .inl hk
        · exact .inr ⟨by omega, by omega⟩
      · exact .inr hk

end

/-- The statements for the parameters of a method visit the cells of all of them. -/
theorem exec_emitParameters (hleaf : LeafRuns processor leaf act) (hrefer : Refers refer)
    {types : List IdlType} (h : ∀ type ∈ types, type.Marshalled ∧ type.Counted) (k offset : Nat)
    (hroom : offset + parametersWords types < 8388608) (s : State) :
    ∃ s', exec processor (emitParameters leaf refer types k offset) s = some s' ∧
      (s'.data, s'.values) =
        visit act [] 0 (parametersLayout types k offset) (s.data, s.values) ∧
      ∀ i ∈ s'.touched, i ∈ s.touched ∨ (offset ≤ i ∧ i < (offset + parametersWords types : Nat)) := by
  induction types generalizing k offset s with
  | nil => exact ⟨s, rfl, rfl, fun _ hi => .inl hi⟩
  | cons type types ih =>
    have hwords : parametersWords (type :: types) = type.words + parametersWords types :=
      List.sum_cons
    rw [hwords] at hroom ⊢
    have hjava : javaInt offset = offset := javaInt_of_lt (by omega) (by omega)
    have hready : Ready processor s (.parameter k) [.literal offset] 0 ([] ++ [.parameter k])
        (0 + offset) type.words := by
      refine ⟨?_, by omega, by omega, rfl, below_nil, below_nil⟩
      have heval : checked processor (offset : Int) = some (offset : Int) :=
        checked_of_lt (by omega) (by omega)
      simp [Index.eval, Term.value, heval]
    obtain ⟨htype, hcounted⟩ := h type List.mem_cons_self
    obtain ⟨s₁, hrun₁, hran₁⟩ := exec_emit hleaf hrefer type (.parameter k) [.literal offset] 0 s _ _
      htype hcounted hready
    obtain ⟨s₂, hrun₂, hmemory, htouched⟩ := ih (fun t ht => h t (List.mem_cons_of_mem _ ht)) (k + 1)
      (offset + type.words) (by omega) s₁
    refine ⟨s₂, ?_, ?_, ?_⟩
    · unfold emitParameters exec
      rw [hjava, hrun₁]
      exact hrun₂
    · unfold parametersLayout
      rw [hmemory, hran₁.memory, visit_append, visit_under]
    · intro i hi
      rcases htouched i hi with hi | hi
      · rcases hran₁.touched i hi with hi | hi
        · exact .inl hi
        · exact .inr ⟨by omega, by omega⟩
      · exact .inr ⟨by omega, by omega⟩

end Visit

end Codinalte.Idl
