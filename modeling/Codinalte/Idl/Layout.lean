import Codinalte.Idl.Run
import Codinalte.Lib.Stores

/-! Where the values of a type lie among the words: each value that is no structure or array has a
cell of one word or two, and the cells follow each other. The three recursions over a type agree
with it in their counts and in their loop variables. -/

namespace Codinalte.Idl

structure Cell where
  path : List Step
  offset : Nat
  type : CType
deriving DecidableEq

def CType.words : CType → Nat
  | .primitive p => if p.packedsize ≤ 16 then 1 else 2
  | .enumeration => 2
  | .pointer => 2

/-- The cell of a part. -/
def Cell.under (step : Step) (offset : Nat) (c : Cell) : Cell :=
  ⟨step :: c.path, offset + c.offset, c.type⟩

mutual

def IdlType.words : IdlType → Nat
  | .primitive p => (CType.primitive p).words
  | .pointer => CType.pointer.words
  | .reference type => type.words
  | .structure members => members.words
  | .enumeration => CType.enumeration.words
  | .typedef type => type.words
  | .array type sizeInteger => type.words * sizeInteger
  | .const type => type.words
  | .named type => type.words
  | .other => 0

def Members.words : Members → Nat
  | .nil => 0
  | .cons _ type rest => type.words + rest.words

end

mutual

def IdlType.layout : IdlType → List Cell
  | .primitive p => [⟨[], 0, .primitive p⟩]
  | .pointer => [⟨[], 0, .pointer⟩]
  | .reference type => type.layout
  | .structure members => members.layout 0
  | .enumeration => [⟨[], 0, .enumeration⟩]
  | .typedef type => type.layout
  | .array type sizeInteger =>
    (List.range sizeInteger).flatMap fun i : Nat =>
      type.layout.map (Cell.under (.element i) (type.words * i))
  | .const type => type.layout
  | .named type => type.layout
  | .other => []

def Members.layout : Members → Nat → List Cell
  | .nil, _ => []
  | .cons field type rest, offset =>
    type.layout.map (Cell.under (.member field) offset) ++ rest.layout (offset + type.words)

end

mutual

/-- How deep arrays lie in arrays. -/
def IdlType.depth : IdlType → Nat
  | .reference type => type.depth
  | .structure members => members.depth
  | .typedef type => type.depth
  | .array type _ => type.depth + 1
  | .const type => type.depth
  | .named type => type.depth
  | _ => 0

def Members.depth : Members → Nat
  | .nil => 0
  | .cons _ type rest => max type.depth rest.depth

end

mutual

/-- The types with words of their own. -/
def IdlType.Marshalled : IdlType → Prop
  | .primitive p => p.packedsize ≤ 32
  | .reference type => type.Marshalled
  | .structure members => members.Marshalled
  | .typedef type => type.Marshalled
  | .array type _ => type.Marshalled
  | .const type => type.Marshalled
  | .named type => type.Marshalled
  | .pointer => True
  | .enumeration => True
  | .other => False

def Members.Marshalled : Members → Prop
  | .nil => True
  | .cons _ type rest => type.Marshalled ∧ rest.Marshalled

end

section JavaInt

theorem javaInt_add_left (x y : Int) : javaInt (javaInt x + y) = javaInt (x + y) := by
  unfold javaInt
  exact Int.bmod_add_bmod

theorem javaInt_add_right (x y : Int) : javaInt (x + javaInt y) = javaInt (x + y) := by
  unfold javaInt
  exact Int.add_bmod_bmod

theorem javaInt_mul_left (x y : Int) : javaInt (javaInt x * y) = javaInt (x * y) := by
  unfold javaInt
  exact Int.bmod_mul_bmod

theorem javaInt_of_lt {x : Int} (hpos : 0 ≤ x) (hlt : x < 2147483648) : javaInt x = x := by
  unfold javaInt
  apply Int.bmod_eq_of_le
  · omega
  · omega

end JavaInt

mutual

/-- The size check refuses exactly the types without words. -/
theorem checkData_eq : ∀ (type : IdlType) (needi arrayindex : Nat), arrayindex ≤ needi →
    (type.Marshalled → checkData type needi arrayindex =
      .ok (javaInt type.words, max needi (arrayindex + type.depth))) ∧
    (∀ r, checkData type needi arrayindex = .ok r → type.Marshalled)
  | .primitive p, needi, arrayindex, hle => by
    have hsize : p.packedsize ≤ 32 → checkData (.primitive p) needi arrayindex =
        .ok (javaInt (IdlType.primitive p).words, max needi (arrayindex + 0)) := by
      intro hp
      rw [Nat.add_zero, max_eq_left hle]
      unfold checkData
      by_cases h16 : p.packedsize ≤ 16
      · rw [if_pos h16]
        simp [IdlType.words, CType.words, h16, javaInt]
      · rw [if_neg h16, if_pos hp]
        simp [IdlType.words, CType.words, h16, javaInt]
    refine ⟨hsize, ?_⟩
    intro r hr
    by_contra hp
    have hp' : ¬ p.packedsize ≤ 32 := hp
    have h16 : ¬ p.packedsize ≤ 16 := fun h => hp' (Nat.le_trans h (by decide))
    unfold checkData at hr
    rw [if_neg h16, if_neg hp'] at hr
    cases hr
  | .pointer, needi, arrayindex, hle => by
    refine ⟨fun _ => ?_, fun _ _ => trivial⟩
    simp [checkData, IdlType.words, CType.words, IdlType.depth, javaInt, hle]
  | .enumeration, needi, arrayindex, hle => by
    refine ⟨fun _ => ?_, fun _ _ => trivial⟩
    simp [checkData, IdlType.words, CType.words, IdlType.depth, javaInt, hle]
  | .reference type, needi, arrayindex, hle => checkData_eq type needi arrayindex hle
  | .typedef type, needi, arrayindex, hle => checkData_eq type needi arrayindex hle
  | .const type, needi, arrayindex, hle => checkData_eq type needi arrayindex hle
  | .named type, needi, arrayindex, hle => checkData_eq type needi arrayindex hle
  | .other, needi, arrayindex, hle => ⟨fun h => absurd h id, fun r hr => by cases hr⟩
  | .structure members, needi, arrayindex, hle => by
    have h := checkMembers_eq members needi arrayindex 0 hle
    rw [Int.zero_add] at h
    exact h
  | .array type sizeInteger, needi, arrayindex, hle => by
    obtain ⟨hok, hback⟩ := checkData_eq type (max needi (arrayindex + 1)) (arrayindex + 1)
      (le_max_right ..)
    constructor
    · intro h
      unfold checkData
      rw [hok h]
      simp only [IdlType.words, IdlType.depth, bind, Except.bind, pure, Except.pure]
      rw [javaInt_mul_left]
      congr 2
      omega
    · intro r hr
      unfold checkData at hr
      cases hc : checkData type (max needi (arrayindex + 1)) (arrayindex + 1) with
      | error e =>
        rw [hc] at hr
        cases hr
      | ok q => exact hback q hc

theorem checkMembers_eq : ∀ (members : Members) (needi arrayindex : Nat) (nb16 : Int),
    arrayindex ≤ needi →
    (members.Marshalled → checkMembers members needi arrayindex (javaInt nb16) =
      .ok (javaInt (nb16 + members.words), max needi (arrayindex + members.depth))) ∧
    (∀ r, checkMembers members needi arrayindex (javaInt nb16) = .ok r → members.Marshalled)
  | .nil, needi, arrayindex, nb16, hle => by
    refine ⟨fun _ => ?_, fun _ _ => trivial⟩
    simp [checkMembers, Members.words, Members.depth, hle]
  | .cons field type rest, needi, arrayindex, nb16, hle => by
    obtain ⟨hok, hback⟩ := checkData_eq type needi arrayindex hle
    have hmax : arrayindex ≤ max needi (arrayindex + type.depth) := Nat.le_trans hle (Nat.le_max_left ..)
    obtain ⟨hok', hback'⟩ := checkMembers_eq rest (max needi (arrayindex + type.depth)) arrayindex
      (nb16 + type.words) hmax
    have hsum : javaInt (javaInt nb16 + javaInt type.words) = javaInt (nb16 + type.words) := by
      rw [javaInt_add_left, javaInt_add_right]
    constructor
    · rintro ⟨htype, hrest⟩
      unfold checkMembers
      rw [hok htype]
      simp only [bind, Except.bind]
      rw [hsum, hok' hrest]
      simp only [Members.words, Members.depth]
      congr 2
      · push_cast
        rw [Int.add_assoc]
      · omega
    · intro r hr
      unfold checkMembers at hr
      cases hc : checkData type needi arrayindex with
      | error e =>
        rw [hc] at hr
        cases hr
      | ok q =>
        have htype := hback q hc
        rw [hc] at hr
        have hq := Except.ok.inj (hc.symm.trans (hok htype))
        subst hq
        simp only [bind, Except.bind, hsum] at hr
        exact ⟨htype, hback' r hr⟩

end

theorem writePrimitive_eq {p : TypePrimitive} (h : p.packedsize ≤ 32) (name : Name)
    (nb16 : Index) : writePrimitive p name nb16 =
      if p.packedsize ≤ 16 then (.store nb16 (.low name), 1)
      else (.seq (.store nb16 (.low name)) (.store (nb16.plus 1) (.shifted name 16)), 2) := by
  have h32 : ¬ p.packedsize > 32 := Nat.not_lt.mpr h
  have h48 : ¬ p.packedsize > 48 := by omega
  unfold writePrimitive
  by_cases h16 : p.packedsize ≤ 16
  · have h16' : ¬ p.packedsize > 16 := Nat.not_lt.mpr h16
    simp only [if_neg h32, if_neg h48, if_neg h16', if_pos h16]
  · have h16' : p.packedsize > 16 := Nat.lt_of_not_le h16
    simp only [if_neg h32, if_neg h48, if_pos h16', if_neg h16]
    rfl

mutual

/-- A stub fills as many words as the check counts. -/
theorem writeData_words (style : Style) : ∀ (type : IdlType) (name : Name) (nb16 : Index)
    (arraylevel : Nat), type.Marshalled →
    (writeData style type name nb16 arraylevel).2 = javaInt type.words
  | .primitive p, name, nb16, arraylevel, h => by
    unfold writeData
    rw [writePrimitive_eq h]
    by_cases h16 : p.packedsize ≤ 16
    · simp [IdlType.words, CType.words, h16, javaInt]
    · simp [IdlType.words, CType.words, h16, javaInt]
  | .pointer, name, nb16, arraylevel, h => rfl
  | .enumeration, name, nb16, arraylevel, h => rfl
  | .reference type, name, nb16, arraylevel, h => by
    unfold writeData
    cases style with
    | c => exact writeData_words .c type _ nb16 arraylevel h
    | cpp => exact writeData_words .cpp type name nb16 arraylevel h
  | .typedef type, name, nb16, arraylevel, h => writeData_words style type name nb16 arraylevel h
  | .const type, name, nb16, arraylevel, h => writeData_words style type name nb16 arraylevel h
  | .named type, name, nb16, arraylevel, h => writeData_words style type name nb16 arraylevel h
  | .structure members, name, nb16, arraylevel, h => by
    have hmembers := writeMembers_words style members name nb16 arraylevel 0 h
    rw [Int.zero_add] at hmembers
    exact hmembers
  | .array type sizeInteger, name, nb16, arraylevel, h => by
    have htype := writeData_words style type (.element name arraylevel)
      (nb16 ++ [.step arraylevel]) (arraylevel + 1) h
    unfold writeData
    simp only [htype]
    exact javaInt_mul_left _ _

theorem writeMembers_words (style : Style) : ∀ (members : Members) (name : Name) (nb16 : Index)
    (arraylevel : Nat) (computed : Int), members.Marshalled →
    (writeMembers style members name nb16 arraylevel (javaInt computed)).2 =
      javaInt (computed + members.words)
  | .nil, name, nb16, arraylevel, computed, h => by
    simp [writeMembers, Members.words]
  | .cons field type rest, name, nb16, arraylevel, computed, h => by
    have htype := writeData_words style type (.member name field)
      (nb16.plus (javaInt computed)) arraylevel h.1
    have hsum : javaInt (javaInt computed + javaInt type.words) =
        javaInt (computed + type.words) := by
      rw [javaInt_add_left, javaInt_add_right]
    have hrest := writeMembers_words style rest name nb16 arraylevel (computed + type.words) h.2
    unfold writeMembers
    simp only [htype, hsum, hrest, Members.words]
    congr 1
    push_cast
    rw [Int.add_assoc]

end

/-- The typedef of an enumeration is read as an enumeration is. -/
theorem readData_typedef (skeleton : Skeleton) (type : IdlType) (name : Name) (nb16 : Index)
    (arraylevel : Nat) : readData skeleton (.typedef type) name nb16 arraylevel =
      readData skeleton type name nb16 arraylevel := by
  cases type <;> simp only [readData]

/-- A skeleton reads a cell in as many words as it has. -/
theorem readValue_words (skeleton : Skeleton) {p : TypePrimitive} (h : p.packedsize ≤ 32)
    (typein typeout : CType) (name : Name) (nb16 : Index) :
    (readValue skeleton typein typeout p.packedsize p.signed name nb16).2 =
      javaInt (CType.primitive p).words := by
  have h48 : ¬ p.packedsize > 48 := by omega
  have h32 : ¬ p.packedsize > 32 := Nat.not_lt.mpr h
  unfold readValue create32 CType.words
  by_cases h16 : p.packedsize ≤ 16
  · have h16' : ¬ p.packedsize > 16 := Nat.not_lt.mpr h16
    cases skeleton with
    | stubserver => simp [h48, h32, h16, h16', javaInt]
    | mmdsp =>
      by_cases h8 : p.packedsize ≤ 8
      · cases p.signed <;> simp [h8, h16, javaInt]
      · cases p.signed <;> simp [h8, h16, javaInt]
  · have h16' : p.packedsize > 16 := Nat.lt_of_not_le h16
    have h8 : ¬ p.packedsize ≤ 8 := by omega
    cases skeleton with
    | stubserver => simp [h48, h32, h16, h16', javaInt]
    | mmdsp => simp [h8, h16, h, javaInt]

mutual

theorem readData_words (skeleton : Skeleton) : ∀ (type : IdlType) (name : Name) (nb16 : Index)
    (arraylevel : Nat), type.Marshalled →
    (readData skeleton type name nb16 arraylevel).2 = javaInt type.words
  | .primitive p, name, nb16, arraylevel, h => by
    unfold readData
    exact readValue_words skeleton h _ _ name nb16
  | .pointer, name, nb16, arraylevel, h => by cases skeleton <;> rfl
  | .enumeration, name, nb16, arraylevel, h => by cases skeleton <;> rfl
  | .reference type, name, nb16, arraylevel, h => by
    unfold readData
    exact readData_words skeleton type name nb16 arraylevel h
  | .typedef type, name, nb16, arraylevel, h => by
    rw [readData_typedef]
    exact readData_words skeleton type name nb16 arraylevel h
  | .const type, name, nb16, arraylevel, h => by
    unfold readData
    exact readData_words skeleton type name nb16 arraylevel h
  | .named type, name, nb16, arraylevel, h => by
    unfold readData
    exact readData_words skeleton type name nb16 arraylevel h
  | .structure members, name, nb16, arraylevel, h => by
    have hmembers := readMembers_words skeleton members name nb16 arraylevel 0 h
    rw [Int.zero_add] at hmembers
    unfold readData
    exact hmembers
  | .array type sizeInteger, name, nb16, arraylevel, h => by
    have htype := readData_words skeleton type (.element name arraylevel)
      (nb16 ++ [.step arraylevel]) (arraylevel + 1) h
    unfold readData
    simp only [htype]
    exact javaInt_mul_left _ _

theorem readMembers_words (skeleton : Skeleton) : ∀ (members : Members) (name : Name)
    (nb16 : Index) (arraylevel : Nat) (computed : Int), members.Marshalled →
    (readMembers skeleton members name nb16 arraylevel (javaInt computed)).2 =
      javaInt (computed + members.words)
  | .nil, name, nb16, arraylevel, computed, h => by
    simp [readMembers, Members.words]
  | .cons field type rest, name, nb16, arraylevel, computed, h => by
    have htype := readData_words skeleton type (.member name field)
      (nb16.plus (javaInt computed)) arraylevel h.1
    have hsum : javaInt (javaInt computed + javaInt type.words) =
        javaInt (computed + type.words) := by
      rw [javaInt_add_left, javaInt_add_right]
    have hrest := readMembers_words skeleton rest name nb16 arraylevel (computed + type.words) h.2
    unfold readMembers
    simp only [htype, hsum, hrest, Members.words]
    congr 1
    push_cast
    rw [Int.add_assoc]

end

section Cells

def Cell.words (c : Cell) : Nat := c.type.words

/-- The cells lie one after the other in as many words. -/
structure Consecutive (cells : List Cell) (first last : Nat) : Prop where
  inside : ∀ c ∈ cells, first ≤ c.offset ∧ c.offset + c.words ≤ last
  apart : cells.Pairwise fun c c' => c.offset + c.words ≤ c'.offset

variable {cells cells' : List Cell} {first middle last : Nat}

theorem consecutive_nil (n : Nat) : Consecutive [] n n := ⟨(fun _ h => nomatch h), .nil⟩

theorem Consecutive.append (h : Consecutive cells first middle)
    (h' : Consecutive cells' middle last) (hle : first ≤ middle) (hle' : middle ≤ last) :
    Consecutive (cells ++ cells') first last where
  inside := by
    intro c hc
    rcases List.mem_append.mp hc with hc | hc
    · have hinside := h.inside c hc
      omega
    · have hinside := h'.inside c hc
      omega
  apart := by
    refine List.pairwise_append.mpr ⟨h.apart, h'.apart, ?_⟩
    intro c hc c' hc'
    have hinside := h.inside c hc
    have hinside' := h'.inside c' hc'
    omega

theorem Consecutive.under (h : Consecutive cells 0 last) (step : Step) (offset : Nat) :
    Consecutive (cells.map (Cell.under step offset)) offset (offset + last) where
  inside := by
    intro c hc
    obtain ⟨d, hd, rfl⟩ := List.mem_map.mp hc
    have hinside := (h.inside d hd).2
    simp only [Cell.under, Cell.words] at hinside ⊢
    omega
  apart := by
    refine List.pairwise_map.mpr (h.apart.imp ?_)
    intro c c' hcc
    simp only [Cell.under, Cell.words] at hcc ⊢
    omega

theorem consecutive_single (type : CType) :
    Consecutive [⟨[], 0, type⟩] 0 type.words where
  inside := by
    intro c hc
    rw [List.mem_singleton.mp hc]
    simp [Cell.words]
  apart := List.pairwise_singleton ..

theorem layout_array_succ (type : IdlType) (n : Nat) : (IdlType.array type (n + 1)).layout =
    (IdlType.array type n).layout ++
      type.layout.map (Cell.under (.element n) (type.words * n)) := by
  simp only [IdlType.layout, List.range_succ, List.flatMap_append, List.flatMap_singleton]

mutual

theorem layout_consecutive : ∀ type : IdlType, Consecutive type.layout 0 type.words
  | .primitive p => consecutive_single _
  | .pointer => consecutive_single _
  | .enumeration => consecutive_single _
  | .reference type => layout_consecutive type
  | .typedef type => layout_consecutive type
  | .const type => layout_consecutive type
  | .named type => layout_consecutive type
  | .other => consecutive_nil 0
  | .structure members => by
    have h := members_consecutive members 0
    rw [Nat.zero_add] at h
    exact h
  | .array type sizeInteger => by
    have hone := layout_consecutive type
    -- one more element each time
    induction sizeInteger with
    | zero => exact consecutive_nil 0
    | succ n ih =>
      have helement := hone.under (.element n) (type.words * n)
      have hmore : type.words * n ≤ type.words * n + type.words := Nat.le_add_right ..
      have happend := ih.append helement (Nat.zero_le _) hmore
      rw [layout_array_succ]
      exact happend

theorem members_consecutive : ∀ (members : Members) (offset : Nat),
    Consecutive (members.layout offset) offset (offset + members.words)
  | .nil, offset => consecutive_nil offset
  | .cons field type rest, offset => by
    have htype := (layout_consecutive type).under (.member field) offset
    have hrest := members_consecutive rest (offset + type.words)
    rw [Nat.add_assoc] at hrest
    exact htype.append hrest (Nat.le_add_right ..) (Nat.add_le_add_left (Nat.le_add_right ..) _)

end

/-- The cells of the parameters from the `k`-th on. -/
def parametersLayout : List IdlType → Nat → Nat → List Cell
  | [], _, _ => []
  | type :: types, k, offset =>
    type.layout.map (Cell.under (.parameter k) offset) ++
      parametersLayout types (k + 1) (offset + type.words)

def parametersWords (types : List IdlType) : Nat := (types.map IdlType.words).sum

theorem parameters_consecutive (types : List IdlType) (k offset : Nat) :
    Consecutive (parametersLayout types k offset) offset (offset + parametersWords types) := by
  induction types generalizing k offset with
  | nil => exact consecutive_nil offset
  | cons type types ih =>
    have htype := (layout_consecutive type).under (.parameter k) offset
    have hrest := ih (k + 1) (offset + type.words)
    rw [Nat.add_assoc] at hrest
    have hwords : parametersWords (type :: types) = type.words + parametersWords types :=
      List.sum_cons
    rw [hwords]
    exact htype.append hrest (Nat.le_add_right ..) (Nat.add_le_add_left (Nat.le_add_right ..) _)

def Members.names : Members → List String
  | .nil => []
  | .cons field _ rest => field :: rest.names

mutual

/-- The members of a structure have different names. -/
def IdlType.Distinct : IdlType → Prop
  | .reference type => type.Distinct
  | .structure members => members.names.Nodup ∧ members.Distinct
  | .typedef type => type.Distinct
  | .array type _ => type.Distinct
  | .const type => type.Distinct
  | .named type => type.Distinct
  | _ => True

def Members.Distinct : Members → Prop
  | .nil => True
  | .cons _ type rest => type.Distinct ∧ rest.Distinct

end

theorem under_path (cells : List Cell) (step : Step) (offset : Nat) :
    (cells.map (Cell.under step offset)).map Cell.path =
      (cells.map Cell.path).map (List.cons step) := by
  rw [List.map_map, List.map_map]
  rfl

/-- The cells of one part, and those that lie under other steps. -/
theorem nodup_under {step : Step} {offset : Nat} (h : (cells.map Cell.path).Nodup)
    (h' : (cells'.map Cell.path).Nodup)
    (hsteps : ∀ c ∈ cells', ∃ step' rest, c.path = step' :: rest ∧ step' ≠ step) :
    ((cells.map (Cell.under step offset) ++ cells').map Cell.path).Nodup := by
  rw [List.map_append, under_path]
  refine List.Nodup.append (h.map (List.cons_injective)) h' ?_
  intro path hpath hpath'
  obtain ⟨rest, -, rfl⟩ := List.mem_map.mp hpath
  obtain ⟨c, hc, hcpath⟩ := List.mem_map.mp hpath'
  obtain ⟨step', rest', hstep, hne⟩ := hsteps c hc
  rw [hstep, List.cons.injEq] at hcpath
  exact hne hcpath.1

theorem members_steps (members : Members) (offset : Nat) (c : Cell)
    (hc : c ∈ members.layout offset) :
    ∃ field ∈ members.names, ∃ rest, c.path = .member field :: rest := by
  cases members with
  | nil => cases hc
  | cons field type rest =>
    unfold Members.layout at hc
    rcases List.mem_append.mp hc with hc | hc
    · obtain ⟨d, -, rfl⟩ := List.mem_map.mp hc
      exact ⟨field, List.mem_cons_self, d.path, rfl⟩
    · obtain ⟨field', hfield, path, hpath⟩ := members_steps rest _ c hc
      exact ⟨field', List.mem_cons_of_mem _ hfield, path, hpath⟩

theorem array_steps (type : IdlType) (n : Nat) (c : Cell) (hc : c ∈ (IdlType.array type n).layout) :
    ∃ i < n, ∃ rest, c.path = .element (i : Nat) :: rest := by
  unfold IdlType.layout at hc
  obtain ⟨i, hi, hc⟩ := List.mem_flatMap.mp hc
  obtain ⟨d, -, rfl⟩ := List.mem_map.mp hc
  exact ⟨i, List.mem_range.mp hi, d.path, rfl⟩

mutual

/-- No two cells have one way to them. -/
theorem layout_nodup : ∀ type : IdlType, type.Distinct → (type.layout.map Cell.path).Nodup
  | .primitive p, h => List.nodup_singleton _
  | .pointer, h => List.nodup_singleton _
  | .enumeration, h => List.nodup_singleton _
  | .reference type, h => layout_nodup type h
  | .typedef type, h => layout_nodup type h
  | .const type, h => layout_nodup type h
  | .named type, h => layout_nodup type h
  | .other, h => List.nodup_nil
  | .structure members, h => members_nodup members 0 h.1 h.2
  | .array type sizeInteger, h => by
    have hone := layout_nodup type h
    induction sizeInteger with
    | zero => exact List.nodup_nil
    | succ n ih =>
      have hcomm : ((IdlType.array type (n + 1)).layout.map Cell.path).Perm
          ((type.layout.map (Cell.under (.element n) (type.words * n)) ++
            (IdlType.array type n).layout).map Cell.path) := by
        rw [layout_array_succ]
        exact List.perm_append_comm.map _
      refine hcomm.nodup_iff.mpr (nodup_under hone (ih h) ?_)
      intro c hc
      obtain ⟨i, hi, rest, hpath⟩ := array_steps type n c hc
      refine ⟨_, rest, hpath, ?_⟩
      simp only [ne_eq, Step.element.injEq]
      omega

theorem members_nodup : ∀ (members : Members) (offset : Nat), members.names.Nodup →
    members.Distinct → ((members.layout offset).map Cell.path).Nodup
  | .nil, offset, hnames, h => List.nodup_nil
  | .cons field type rest, offset, hnames, h => by
    have hfield : field ∉ rest.names ∧ rest.names.Nodup := List.nodup_cons.mp hnames
    refine nodup_under (layout_nodup type h.1) (members_nodup rest _ hfield.2 h.2) ?_
    intro c hc
    obtain ⟨field', hmem, path, hpath⟩ := members_steps rest _ c hc
    refine ⟨_, path, hpath, ?_⟩
    intro heq
    cases heq
    exact hfield.1 hmem

end

theorem parameters_nodup {types : List IdlType} (h : ∀ type ∈ types, type.Distinct)
    (k offset : Nat) : ((parametersLayout types k offset).map Cell.path).Nodup ∧
      ∀ c ∈ parametersLayout types k offset, ∃ n rest, k ≤ n ∧ c.path = .parameter n :: rest := by
  induction types generalizing k offset with
  | nil => exact ⟨List.nodup_nil, fun _ h => nomatch h⟩
  | cons type types ih =>
    obtain ⟨hnodup, hsteps⟩ := ih (fun t ht => h t (List.mem_cons_of_mem _ ht)) (k + 1)
      (offset + type.words)
    refine ⟨nodup_under (layout_nodup type (h type List.mem_cons_self)) hnodup ?_, ?_⟩
    · intro c hc
      obtain ⟨n, rest, hn, hpath⟩ := hsteps c hc
      refine ⟨_, rest, hpath, ?_⟩
      simp only [ne_eq, Step.parameter.injEq]
      omega
    · intro c hc
      unfold parametersLayout at hc
      rcases List.mem_append.mp hc with hc | hc
      · obtain ⟨d, -, rfl⟩ := List.mem_map.mp hc
        exact ⟨k, d.path, Nat.le_refl k, rfl⟩
      · obtain ⟨n, rest, hn, hpath⟩ := hsteps c hc
        exact ⟨n, rest, Nat.le_of_succ_le hn, hpath⟩

end Cells

section Levels

/-- The loop variables of a name. -/
def Name.levels : Name → List Nat
  | .parameter _ => []
  | .deref name => name.levels
  | .member name _ => name.levels
  | .element name arraylevel => arraylevel :: name.levels

def Index.levels (nb16 : Index) : List Nat :=
  nb16.filterMap fun
    | .literal _ => none
    | .step arraylevel => some arraylevel

def Loaded.nb16 : Loaded → Index
  | .joined _ _ _ nb16 => nb16
  | .plain _ nb16 => nb16
  | .masked _ _ nb16 => nb16
  | .ext16to32 _ _ nb16 => nb16
  | .empty => []

def Code.levels : Code → List Nat
  | .skip => []
  | .store nb16 value => nb16.levels ++ value.name.levels
  | .assign name value => name.levels ++ value.nb16.levels
  | .seq first second => first.levels ++ second.levels
  | .loop arraylevel _ body _ => arraylevel :: body.levels

/-- Every one of the levels is among the declared ones. -/
def Below (levels : List Nat) (bound : Nat) : Prop := ∀ l ∈ levels, l < bound

variable {a b : List Nat} {bound l : Nat} {nb16 : Index}

theorem below_nil : Below [] bound := fun _ h => nomatch h

theorem Below.append (ha : Below a bound) (hb : Below b bound) : Below (a ++ b) bound := by
  intro l hl
  rcases List.mem_append.mp hl with hl | hl
  · exact ha l hl
  · exact hb l hl

theorem Below.cons (hl : l < bound) (ha : Below a bound) : Below (l :: a) bound := by
  intro k hk
  rcases List.mem_cons.mp hk with rfl | hk
  · exact hl
  · exact ha k hk

theorem Below.mono {bound' : Nat} (ha : Below a bound) (hle : bound ≤ bound') : Below a bound' :=
  fun l hl => Nat.lt_of_lt_of_le (ha l hl) hle

theorem Below.plus (h : Below nb16.levels bound) (n : Int) : Below (nb16.plus n).levels bound := by
  intro l hl
  unfold Index.plus Index.levels at hl
  rw [List.filterMap_append, List.mem_append] at hl
  rcases hl with hl | hl
  · exact h l hl
  · cases hl

theorem Below.step (h : Below nb16.levels bound) (hl : l < bound) :
    Below (Index.levels (nb16 ++ [.step l])) bound := by
  unfold Index.levels
  rw [List.filterMap_append]
  exact h.append (below_nil.cons hl)

theorem writeUnsigned_levels {name : Name} (hname : Below name.levels bound)
    (hnb16 : Below nb16.levels bound) : Below (writeUnsigned name nb16).levels bound :=
  (hnb16.append hname).append ((hnb16.plus 1).append hname)

mutual

/-- A stub uses the loop variables that the check has counted. -/
theorem writeData_levels (style : Style) (bound : Nat) : ∀ (type : IdlType) (name : Name)
    (nb16 : Index) (arraylevel : Nat), type.Marshalled → Below name.levels bound →
    Below nb16.levels bound → arraylevel + type.depth ≤ bound →
    Below (writeData style type name nb16 arraylevel).1.levels bound
  | .primitive p, name, nb16, arraylevel, h, hname, hnb16, hdepth => by
    unfold writeData
    rw [writePrimitive_eq h]
    split
    · exact hnb16.append hname
    · exact (hnb16.append hname).append ((hnb16.plus 1).append hname)
  | .pointer, name, nb16, arraylevel, h, hname, hnb16, hdepth => writeUnsigned_levels hname hnb16
  | .enumeration, name, nb16, arraylevel, h, hname, hnb16, hdepth =>
    writeUnsigned_levels hname hnb16
  | .reference type, name, nb16, arraylevel, h, hname, hnb16, hdepth => by
    unfold writeData
    cases style with
    | c => exact writeData_levels .c bound type _ nb16 arraylevel h hname hnb16 hdepth
    | cpp => exact writeData_levels .cpp bound type name nb16 arraylevel h hname hnb16 hdepth
  | .typedef type, name, nb16, arraylevel, h, hname, hnb16, hdepth =>
    writeData_levels style bound type name nb16 arraylevel h hname hnb16 hdepth
  | .const type, name, nb16, arraylevel, h, hname, hnb16, hdepth =>
    writeData_levels style bound type name nb16 arraylevel h hname hnb16 hdepth
  | .named type, name, nb16, arraylevel, h, hname, hnb16, hdepth =>
    writeData_levels style bound type name nb16 arraylevel h hname hnb16 hdepth
  | .structure members, name, nb16, arraylevel, h, hname, hnb16, hdepth =>
    writeMembers_levels style bound members name nb16 arraylevel 0 h hname hnb16 hdepth
  | .array type sizeInteger, name, nb16, arraylevel, h, hname, hnb16, hdepth => by
    have hlevel : arraylevel < bound := by
      unfold IdlType.depth at hdepth
      omega
    have hdepth' : arraylevel + 1 + type.depth ≤ bound := by
      unfold IdlType.depth at hdepth
      omega
    exact (writeData_levels style bound type (.element name arraylevel)
      (nb16 ++ [.step arraylevel]) (arraylevel + 1) h (hname.cons hlevel) (hnb16.step hlevel)
      hdepth').cons hlevel

theorem writeMembers_levels (style : Style) (bound : Nat) : ∀ (members : Members) (name : Name)
    (nb16 : Index) (arraylevel : Nat) (computed : Int), members.Marshalled →
    Below name.levels bound → Below nb16.levels bound → arraylevel + members.depth ≤ bound →
    Below (writeMembers style members name nb16 arraylevel computed).1.levels bound
  | .nil, name, nb16, arraylevel, computed, h, hname, hnb16, hdepth => below_nil
  | .cons field type rest, name, nb16, arraylevel, computed, h, hname, hnb16, hdepth => by
    unfold Members.depth at hdepth
    exact (writeData_levels style bound type (.member name field) _ arraylevel h.1 hname
      (hnb16.plus computed) (by omega)).append
      (writeMembers_levels style bound rest name nb16 arraylevel _ h.2 hname hnb16 (by omega))

end

theorem readValue_levels (skeleton : Skeleton) (typein typeout : CType) (packedsize : Nat)
    (signed : Bool) {name : Name} (hname : Below name.levels bound)
    (hnb16 : Below nb16.levels bound) :
    Below (readValue skeleton typein typeout packedsize signed name nb16).1.levels bound := by
  refine hname.append ?_
  unfold create32
  cases skeleton with
  | stubserver => exact hnb16
  | mmdsp =>
    dsimp only
    split
    · split <;> exact hnb16
    · split
      · split <;> exact hnb16
      · split
        · exact hnb16
        · exact below_nil

mutual

theorem readData_levels (skeleton : Skeleton) (bound : Nat) : ∀ (type : IdlType) (name : Name)
    (nb16 : Index) (arraylevel : Nat), type.Marshalled → Below name.levels bound →
    Below nb16.levels bound → arraylevel + type.depth ≤ bound →
    Below (readData skeleton type name nb16 arraylevel).1.levels bound
  | .primitive p, name, nb16, arraylevel, h, hname, hnb16, hdepth => by
    unfold readData
    exact readValue_levels skeleton _ _ _ _ hname hnb16
  | .pointer, name, nb16, arraylevel, h, hname, hnb16, hdepth => by
    unfold readData
    exact readValue_levels skeleton _ _ _ _ hname hnb16
  | .enumeration, name, nb16, arraylevel, h, hname, hnb16, hdepth => by
    unfold readData
    exact readValue_levels skeleton _ _ _ _ hname hnb16
  | .reference type, name, nb16, arraylevel, h, hname, hnb16, hdepth => by
    unfold readData
    exact readData_levels skeleton bound type name nb16 arraylevel h hname hnb16 hdepth
  | .typedef type, name, nb16, arraylevel, h, hname, hnb16, hdepth => by
    rw [readData_typedef]
    exact readData_levels skeleton bound type name nb16 arraylevel h hname hnb16 hdepth
  | .const type, name, nb16, arraylevel, h, hname, hnb16, hdepth => by
    unfold readData
    exact readData_levels skeleton bound type name nb16 arraylevel h hname hnb16 hdepth
  | .named type, name, nb16, arraylevel, h, hname, hnb16, hdepth => by
    unfold readData
    exact readData_levels skeleton bound type name nb16 arraylevel h hname hnb16 hdepth
  | .structure members, name, nb16, arraylevel, h, hname, hnb16, hdepth => by
    unfold readData
    exact readMembers_levels skeleton bound members name nb16 arraylevel 0 h hname hnb16 hdepth
  | .array type sizeInteger, name, nb16, arraylevel, h, hname, hnb16, hdepth => by
    have hlevel : arraylevel < bound := by
      unfold IdlType.depth at hdepth
      omega
    have hdepth' : arraylevel + 1 + type.depth ≤ bound := by
      unfold IdlType.depth at hdepth
      omega
    unfold readData
    exact (readData_levels skeleton bound type (.element name arraylevel)
      (nb16 ++ [.step arraylevel]) (arraylevel + 1) h (hname.cons hlevel) (hnb16.step hlevel)
      hdepth').cons hlevel

theorem readMembers_levels (skeleton : Skeleton) (bound : Nat) : ∀ (members : Members)
    (name : Name) (nb16 : Index) (arraylevel : Nat) (computed : Int), members.Marshalled →
    Below name.levels bound → Below nb16.levels bound → arraylevel + members.depth ≤ bound →
    Below (readMembers skeleton members name nb16 arraylevel computed).1.levels bound
  | .nil, name, nb16, arraylevel, computed, h, hname, hnb16, hdepth => below_nil
  | .cons field type rest, name, nb16, arraylevel, computed, h, hname, hnb16, hdepth => by
    unfold Members.depth at hdepth
    unfold readMembers
    exact (readData_levels skeleton bound type (.member name field) _ arraylevel h.1 hname
      (hnb16.plus computed) (by omega)).append
      (readMembers_levels skeleton bound rest name nb16 arraylevel _ h.2 hname hnb16 (by omega))

end

end Levels

end Codinalte.Idl
