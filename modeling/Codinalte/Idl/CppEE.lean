import Codinalte.Idl.RoundTrip

/-! The stub and the skeleton of the C++ execution engine: the statements are those of the other
generators, but the skeleton declares the words as `t_uint32` and no loop variables. -/

namespace Codinalte.Idl
open Codinalte.Stores

mutual

/-- Neither a value nor an array in the type. -/
def IdlType.Bare : IdlType → Prop
  | .reference type => type.Bare
  | .structure members => members.Bare
  | .typedef type => type.Bare
  | .const type => type.Bare
  | .named type => type.Bare
  | _ => False

def Members.Bare : Members → Prop
  | .nil => True
  | .cons _ type rest => type.Bare ∧ rest.Bare

end

/-- The indexes into the data. -/
def Code.indexes : Code → List Index
  | .skip => []
  | .store nb16 _ => [nb16]
  | .assign _ value => [value.nb16]
  | .seq first second => first.indexes ++ second.indexes
  | .loop _ _ body _ => body.indexes

namespace CppEE

/-- What the text of a method declares before its statements: the bits of an element of
`_xyuv_data`, and the loop variables. -/
structure Declared where
  element : Nat
  loops : Nat
deriving DecidableEq

/-- `t_uint16 *_xyuv_data`, and `___iN, ___jN` for each `N` below `needi`. -/
def stub (data : MethodData) : Declared := ⟨16, data.needi⟩

/-- `t_uint32 *_xyuv_data`, and nothing else. -/
def skeleton : Declared := ⟨32, 0⟩

/-- The `k`-th element of the words, under a pointer to elements with these bits. -/
def view (element : Nat) (words : Int → Int) (k : Int) : Int :=
  ((List.range (element / 16)).map fun n : Nat =>
    words ((element / 16 : Nat) * k + n) * 65536 ^ n).sum

/-- What the method of the stub writes from the arguments. -/
def push (data : MethodData) (types : List IdlType) (s : State) : Option State :=
  exec .host (writeParameters .cpp types 0 0).1 { s with data := view (stub data).element s.data }

/-- What `run` reads from the data of the event. -/
def run (types : List IdlType) (words : Int → Int) (t : State) : Option State :=
  exec .host (readParameters .stubserver types 0 0).1
    { t with data := view skeleton.element words }

/-- The arguments fit in their types. -/
def Held (types : List IdlType) (values : Location → Int) : Prop :=
  ∀ c ∈ parametersLayout types 0 0, c.type.Holds .host (values c.path)

/-- `run` reads the values that the stub has stored, whatever else the memory holds. -/
def HandsOn (data : MethodData) (types : List IdlType) (values : Location → Int) : Prop :=
  ∀ s t : State, s.values = values → ∃ s' t', push data types s = some s' ∧
    run types s'.data t = some t' ∧
    ∀ c ∈ parametersLayout types 0 0, t'.values c.path = values c.path

/-- No element that `run` reads lies beyond the element of the FIFO. -/
def Inside (maxnb16 : Int) (types : List IdlType) : Prop :=
  ∀ (words : Int → Int) (t t' : State), t.touched = [] → run types words t = some t' →
    ∀ k ∈ t'.touched, 0 ≤ k ∧ (k + 1) * (skeleton.element / 8 : Nat) ≤ maxnb16 * 2

structure Agrees (maxnb16 : Int) (method : Method) (data : MethodData) : Prop where
  width : (readParameters .stubserver method.parameters 0 0).1.indexes ≠ [] →
    (stub data).element = skeleton.element
  written : Below (writeParameters .cpp method.parameters 0 0).1.levels (stub data).loops
  declared : Below (readParameters .stubserver method.parameters 0 0).1.levels skeleton.loops
  values : ∀ values, Held method.parameters values → HandsOn data method.parameters values
  inside : Inside maxnb16 method.parameters

theorem view_stub (words : Int → Int) (data : MethodData) :
    view (stub data).element words = words := by
  funext k
  simp [view, stub]

theorem view_skeleton (words : Int → Int) (k : Int) :
    view skeleton.element words k = words (2 * k) + words (2 * k + 1) * 65536 := by
  simp [view, skeleton, List.range_succ]

section Text
variable {leaf : CType → Name → Index → Code} {refer : Name → Name}

mutual

/-- Where the text has no index and no loop variable, there was nothing to hand on. -/
theorem emit_bare (hleaf : ∀ type name nb16, (leaf type name nb16).indexes ≠ []) :
    ∀ (type : IdlType) (name : Name) (nb16 : Index) (arraylevel : Nat), type.Marshalled →
      (emit leaf refer type name nb16 arraylevel).indexes = [] →
      Below (emit leaf refer type name nb16 arraylevel).levels 0 → type.Bare
  | .primitive _, name, nb16, _, _, hindexes, _ => absurd hindexes (hleaf _ name nb16)
  | .pointer, name, nb16, _, _, hindexes, _ => absurd hindexes (hleaf _ name nb16)
  | .enumeration, name, nb16, _, _, hindexes, _ => absurd hindexes (hleaf _ name nb16)
  | .reference type, name, nb16, arraylevel, h, hindexes, hlevels =>
    emit_bare hleaf type (refer name) nb16 arraylevel h hindexes hlevels
  | .typedef type, name, nb16, arraylevel, h, hindexes, hlevels =>
    emit_bare hleaf type name nb16 arraylevel h hindexes hlevels
  | .const type, name, nb16, arraylevel, h, hindexes, hlevels =>
    emit_bare hleaf type name nb16 arraylevel h hindexes hlevels
  | .named type, name, nb16, arraylevel, h, hindexes, hlevels =>
    emit_bare hleaf type name nb16 arraylevel h hindexes hlevels
  | .structure members, name, nb16, arraylevel, h, hindexes, hlevels =>
    emitMembers_bare hleaf members name nb16 arraylevel 0 h hindexes hlevels
  | .array _ _, _, _, arraylevel, _, _, hlevels =>
    absurd (hlevels arraylevel List.mem_cons_self) (Nat.not_lt_zero _)
  | .other, _, _, _, h, _, _ => absurd h id

theorem emitMembers_bare (hleaf : ∀ type name nb16, (leaf type name nb16).indexes ≠ []) :
    ∀ (members : Members) (name : Name) (nb16 : Index) (arraylevel offset : Nat),
      members.Marshalled →
      (emitMembers leaf refer members name nb16 arraylevel offset).indexes = [] →
      Below (emitMembers leaf refer members name nb16 arraylevel offset).levels 0 → members.Bare
  | .nil, _, _, _, _, _, _, _ => trivial
  | .cons field type rest, name, nb16, arraylevel, offset, h, hindexes, hlevels => by
    obtain ⟨hfirst, hrest⟩ := List.append_eq_nil_iff.mp hindexes
    refine ⟨emit_bare hleaf type _ _ arraylevel h.1 hfirst ?_,
      emitMembers_bare hleaf rest name nb16 arraylevel _ h.2 hrest ?_⟩
    · exact fun l hl => hlevels l (List.mem_append_left _ hl)
    · exact fun l hl => hlevels l (List.mem_append_right _ hl)

end

theorem emitParameters_bare (hleaf : ∀ type name nb16, (leaf type name nb16).indexes ≠ [])
    {types : List IdlType} (h : ∀ type ∈ types, type.Marshalled) (k offset : Nat)
    (hindexes : (emitParameters leaf refer types k offset).indexes = [])
    (hlevels : Below (emitParameters leaf refer types k offset).levels 0) :
    ∀ type ∈ types, type.Bare := by
  induction types generalizing k offset with
  | nil => exact fun _ h => nomatch h
  | cons type types ih =>
    obtain ⟨hfirst, hrest⟩ := List.append_eq_nil_iff.mp hindexes
    have htype := emit_bare hleaf type _ _ 0 (h type List.mem_cons_self) hfirst
      fun l hl => hlevels l (List.mem_append_left _ hl)
    have htypes := ih (fun t ht => h t (List.mem_cons_of_mem _ ht)) (k + 1) (offset + type.words)
      hrest fun l hl => hlevels l (List.mem_append_right _ hl)
    intro t ht
    rcases List.mem_cons.mp ht with rfl | ht
    · exact htype
    · exact htypes t ht

mutual

/-- Nothing is read for a type without a value. -/
theorem bare_indexes : ∀ (type : IdlType) (name : Name) (nb16 : Index) (arraylevel : Nat),
    type.Bare → (emit leaf refer type name nb16 arraylevel).indexes = []
  | .reference type, name, nb16, arraylevel, h => bare_indexes type (refer name) nb16 arraylevel h
  | .typedef type, name, nb16, arraylevel, h => bare_indexes type name nb16 arraylevel h
  | .const type, name, nb16, arraylevel, h => bare_indexes type name nb16 arraylevel h
  | .named type, name, nb16, arraylevel, h => bare_indexes type name nb16 arraylevel h
  | .structure members, name, nb16, arraylevel, h =>
    bare_indexes_members members name nb16 arraylevel 0 h
  | .primitive _, _, _, _, h => absurd h id
  | .pointer, _, _, _, h => absurd h id
  | .enumeration, _, _, _, h => absurd h id
  | .array _ _, _, _, _, h => absurd h id
  | .other, _, _, _, h => absurd h id

theorem bare_indexes_members : ∀ (members : Members) (name : Name) (nb16 : Index)
    (arraylevel offset : Nat), members.Bare →
      (emitMembers leaf refer members name nb16 arraylevel offset).indexes = []
  | .nil, _, _, _, _, _ => rfl
  | .cons _ type rest, _, _, _, _, h => List.append_eq_nil_iff.mpr
    ⟨bare_indexes type _ _ _ h.1, bare_indexes_members rest _ _ _ _ h.2⟩

end

theorem bare_indexes_parameters {types : List IdlType} (h : ∀ type ∈ types, type.Bare)
    {k offset : Nat} : (emitParameters leaf refer types k offset).indexes = [] := by
  induction types generalizing k offset with
  | nil => rfl
  | cons type types ih =>
    have htype : (emit leaf refer type (.parameter k) [.literal (javaInt offset)] 0).indexes = [] :=
      bare_indexes type _ _ 0 (h type List.mem_cons_self)
    exact List.append_eq_nil_iff.mpr ⟨htype, ih fun t ht => h t (List.mem_cons_of_mem _ ht)⟩

mutual

/-- Only an array uses loop variables. -/
theorem emit_flat : ∀ (type : IdlType) (name : Name) (nb16 : Index) (arraylevel : Nat),
    Below (emit leaf refer type name nb16 arraylevel).levels 0 → type.depth = 0
  | .primitive _, _, _, _, _ => rfl
  | .pointer, _, _, _, _ => rfl
  | .enumeration, _, _, _, _ => rfl
  | .other, _, _, _, _ => rfl
  | .reference type, name, nb16, arraylevel, h => emit_flat type (refer name) nb16 arraylevel h
  | .typedef type, name, nb16, arraylevel, h => emit_flat type name nb16 arraylevel h
  | .const type, name, nb16, arraylevel, h => emit_flat type name nb16 arraylevel h
  | .named type, name, nb16, arraylevel, h => emit_flat type name nb16 arraylevel h
  | .structure members, name, nb16, arraylevel, h =>
    emitMembers_flat members name nb16 arraylevel 0 h
  | .array _ _, _, _, arraylevel, h =>
    absurd (h arraylevel List.mem_cons_self) (Nat.not_lt_zero _)

theorem emitMembers_flat : ∀ (members : Members) (name : Name) (nb16 : Index)
    (arraylevel offset : Nat),
    Below (emitMembers leaf refer members name nb16 arraylevel offset).levels 0 →
      members.depth = 0
  | .nil, _, _, _, _, _ => rfl
  | .cons field type rest, name, nb16, arraylevel, offset, h => by
    have htype := emit_flat type _ _ arraylevel fun l hl => h l (List.mem_append_left _ hl)
    have hrest := emitMembers_flat rest name nb16 arraylevel _ fun l hl =>
      h l (List.mem_append_right _ hl)
    have hdepth : (Members.cons field type rest).depth = max type.depth rest.depth := rfl
    rw [hdepth, htype, hrest]
    rfl

end

theorem emitParameters_flat {types : List IdlType} (k offset : Nat)
    (h : Below (emitParameters leaf refer types k offset).levels 0) :
    ∀ type ∈ types, type.depth = 0 := by
  induction types generalizing k offset with
  | nil => exact fun _ h => nomatch h
  | cons type types ih =>
    have htype := emit_flat type _ _ 0 fun l hl => h l (List.mem_append_left _ hl)
    have htypes := ih (k + 1) (offset + type.words) fun l hl => h l (List.mem_append_right _ hl)
    intro t ht
    rcases List.mem_cons.mp ht with rfl | ht
    · exact htype
    · exact htypes t ht

end Text

section Bare
variable {types : List IdlType}

mutual

theorem bare_words : ∀ type : IdlType, type.Bare → type.words = 0 ∧ type.depth = 0 ∧ type.Counted
  | .reference type, h => bare_words type h
  | .typedef type, h => bare_words type h
  | .const type, h => bare_words type h
  | .named type, h => bare_words type h
  | .structure members, h => members_bare_words members h
  | .primitive _, h => absurd h id
  | .pointer, h => absurd h id
  | .enumeration, h => absurd h id
  | .array _ _, h => absurd h id
  | .other, h => absurd h id

theorem members_bare_words : ∀ members : Members, members.Bare →
    members.words = 0 ∧ members.depth = 0 ∧ members.Counted
  | .nil, _ => ⟨rfl, rfl, trivial⟩
  | .cons field type rest, h => by
    obtain ⟨hwords, hdepth, hcounted⟩ := bare_words type h.1
    obtain ⟨hwords', hdepth', hcounted'⟩ := members_bare_words rest h.2
    have hsum : (Members.cons field type rest).words = type.words + rest.words := rfl
    have hmax : (Members.cons field type rest).depth = max type.depth rest.depth := rfl
    rw [hsum, hmax, hwords, hwords', hdepth, hdepth']
    exact ⟨rfl, rfl, hcounted, hcounted'⟩

end

theorem parameters_bare_words (h : ∀ type ∈ types, type.Bare) : parametersWords types = 0 := by
  unfold parametersWords
  rw [List.sum_eq_zero_iff_forall_eq_nat]
  intro n hn
  obtain ⟨type, ht, rfl⟩ := List.mem_map.mp hn
  exact (bare_words type (h type ht)).1

end Bare

section Last

mutual

/-- The words end with a cell. -/
theorem layout_last : ∀ type : IdlType, 0 < type.words →
    ∃ c ∈ type.layout, c.offset + c.words = type.words
  | .primitive p, _ => ⟨⟨[], 0, .primitive p⟩, List.mem_singleton_self _, Nat.zero_add _⟩
  | .pointer, _ => ⟨⟨[], 0, .pointer⟩, List.mem_singleton_self _, Nat.zero_add _⟩
  | .enumeration, _ => ⟨⟨[], 0, .enumeration⟩, List.mem_singleton_self _, Nat.zero_add _⟩
  | .reference type, h => layout_last type h
  | .typedef type, h => layout_last type h
  | .const type, h => layout_last type h
  | .named type, h => layout_last type h
  | .other, h => absurd h (Nat.lt_irrefl 0)
  | .structure members, h => by
    obtain ⟨c, hc, hlast⟩ := members_last members 0 h
    rw [Nat.zero_add] at hlast
    exact ⟨c, hc, hlast⟩
  | .array type sizeInteger, h => by
    cases sizeInteger with
    | zero => exact absurd h (Nat.lt_irrefl 0)
    | succ n =>
      have hwords : (IdlType.array type (n + 1)).words = type.words * n + type.words :=
        Nat.mul_succ ..
      have hpos : 0 < type.words := by
        by_contra hzero
        have hnone : type.words = 0 := by omega
        rw [hwords, hnone, Nat.zero_mul] at h
        exact absurd h (Nat.lt_irrefl 0)
      obtain ⟨c, hc, hlast⟩ := layout_last type hpos
      refine ⟨c.under (.element n) (type.words * n), ?_, ?_⟩
      · rw [layout_array_succ]
        exact List.mem_append_right _ (List.mem_map.mpr ⟨c, hc, rfl⟩)
      · rw [hwords, ← hlast]
        simp only [Cell.under, Cell.words]
        omega

theorem members_last : ∀ (members : Members) (offset : Nat), 0 < members.words →
    ∃ c ∈ members.layout offset, c.offset + c.words = offset + members.words
  | .nil, _, h => absurd h (Nat.lt_irrefl 0)
  | .cons field type rest, offset, h => by
    have hwords : (Members.cons field type rest).words = type.words + rest.words := rfl
    by_cases hrest : 0 < rest.words
    · obtain ⟨c, hc, hlast⟩ := members_last rest (offset + type.words) hrest
      refine ⟨c, List.mem_append_right _ hc, ?_⟩
      rw [hwords, hlast, Nat.add_assoc]
    · obtain ⟨c, hc, hlast⟩ := layout_last type (by omega)
      refine ⟨c.under (.member field) offset,
        List.mem_append_left _ (List.mem_map.mpr ⟨c, hc, rfl⟩), ?_⟩
      simp only [Cell.under, Cell.words] at hlast ⊢
      omega

end

theorem parameters_last (types : List IdlType) (k offset : Nat)
    (h : 0 < parametersWords types) : ∃ c ∈ parametersLayout types k offset,
      c.offset + c.words = offset + parametersWords types := by
  induction types generalizing k offset with
  | nil => exact absurd h (Nat.lt_irrefl 0)
  | cons type types ih =>
    have hwords : parametersWords (type :: types) = type.words + parametersWords types :=
      List.sum_cons
    by_cases hrest : 0 < parametersWords types
    · obtain ⟨c, hc, hlast⟩ := ih (k + 1) (offset + type.words) hrest
      refine ⟨c, List.mem_append_right _ hc, ?_⟩
      rw [hwords, hlast, Nat.add_assoc]
    · obtain ⟨c, hc, hlast⟩ := layout_last type (by omega)
      refine ⟨c.under (.parameter k) offset,
        List.mem_append_left _ (List.mem_map.mpr ⟨c, hc, rfl⟩), ?_⟩
      simp only [Cell.under, Cell.words] at hlast ⊢
      omega

end Last

section Values
variable {type : CType} {x : Int}

/-- The low half of an element is the word that a value of one word was stored in. -/
theorem decode_element (hone : type.words = 1) (hheld : type.Holds .host x) (w w' : Int) :
    type.decode .host (type.low .host x + w * 65536) w' = x := by
  rw [decode_host_one hone]
  obtain ⟨p, rfl, h16⟩ := one_word hone
  have hle : CType.bits .host (.primitive p) ≤ 16 := by
    rw [bits_of_one .host h16]
    split <;> decide
  refine (wrap_congr hle ?_).trans hheld
  have hlow : (CType.primitive p).low .host x = x % 65536 := rfl
  rw [hlow]
  omega

theorem zero_held (type : CType) : type.Holds .host 0 := by
  unfold CType.Holds
  cases type with
  | primitive p =>
    cases p with
    | uint width => cases width <;> decide
    | sint width => cases width <;> decide
    | bool => decide
    | char => decide
    | uword => decide
    | sword => decide
    | physicalAddress => decide
  | enumeration => decide
  | pointer => decide

/-- A one in the last word of a cell does not read as zero. -/
theorem last_word_read (h : type.Marshalled) : type.words = 1 ∧ type.decode .host 1 0 ≠ 0 ∨
    type.words = 2 ∧ type.decode .host 0 1 ≠ 0 := by
  by_cases hone : type.words = 1
  · refine .inl ⟨hone, fun hzero => ?_⟩
    obtain ⟨p, rfl, h16⟩ := one_word hone
    have hle : 8 ≤ CType.bits .host (.primitive p) := by
      rw [bits_of_one .host h16]
      split <;> decide
    rw [decode_host_one hone] at hzero
    have hmod : wrap (CType.primitive p).signed (CType.bits .host (.primitive p)) 1 % 2 ^ 8 =
        1 % 2 ^ 8 := wrap_emod hle
    unfold CType.convert at hzero
    rw [hzero] at hmod
    exact absurd hmod (by decide)
  · have hwords := words_eq type
    have htwo : type.words = 2 := by
      split at hwords
      · exact absurd hwords hone
      · exact hwords
    refine .inr ⟨htwo, fun hzero => ?_⟩
    have hle : 24 ≤ type.bits .host := by
      rcases bits_of_two .host h hone with hbits | hbits
      · exact Nat.le_of_eq hbits.symm
      · rw [hbits]
        decide
    rw [decode_host h (by decide) (by decide)] at hzero
    unfold CType.whole CType.convert at hzero
    rw [if_neg hone] at hzero
    have hmod : wrap type.signed (type.bits .host) 65536 % 2 ^ 24 = 65536 % 2 ^ 24 :=
      wrap_emod hle
    have hread : wrap type.signed (type.bits .host) 65536 = 0 := hzero
    rw [hread] at hmod
    exact absurd hmod (by decide)

end Values

section HandsOn
variable {types : List IdlType} {data : MethodData} {values : Location → Int}

/-- What `run` makes of the words of the stub. -/
theorem push_run (h : ∀ type ∈ types, type.Marshalled ∧ type.Counted)
    (hroom : parametersWords types < 8388608) (data : MethodData) (s t : State) :
    ∃ s' t', push data types s = some s' ∧ run types s'.data t = some t' ∧
      s'.data = store s.data (written .host (parametersLayout types 0 0) s.values) ∧
      t'.values = store t.values (taken .host (parametersLayout types 0 0)
        (view skeleton.element s'.data)) ∧
      ∀ k ∈ t'.touched, k ∈ t.touched ∨ (0 ≤ k ∧ k < parametersWords types) := by
  obtain ⟨s', hpush, hdata, -⟩ := marshal_runs .cpp .host h hroom
    { s with data := view (stub data).element s.data }
  obtain ⟨t', hrun, hvalues, htouched⟩ := unmarshal_runs .host h hroom
    { t with data := view skeleton.element s'.data }
  rw [view_stub] at hdata
  exact ⟨s', t', hpush, hrun, hdata, hvalues, htouched⟩

theorem one_word_handed (h : ∀ type ∈ types, type.Marshalled) (hfits : Fits types)
    (hone : parametersWords types ≤ 1) (hheld : Held types values) : HandsOn data types values := by
  intro s t hs
  obtain ⟨s', t', hpush, hrun, hdata, hvalues, -⟩ := push_run
    (fun type ht => ⟨h type ht, hfits.counted type ht⟩) hfits.words data s t
  refine ⟨s', t', hpush, hrun, ?_⟩
  intro c hc
  have hcells := parameters_consecutive types 0 0
  have hinside := (hcells.inside c hc).2
  have hwords := words_eq c.type
  simp only [Cell.words] at hinside
  have hc1 : c.type.words = 1 := by
    split at hwords
    · exact hwords
    · omega
  have hnodup : ((taken .host (parametersLayout types 0 0)
      (view skeleton.element s'.data)).map Prod.fst).Nodup := by
    unfold taken
    rw [List.map_map]
    exact (parameters_nodup hfits.distinct 0 0).1
  have htaken := store_of_mem (f := t.values) hnodup (List.mem_map.mpr ⟨c, hc, rfl⟩)
  have hstored : s'.data (2 * (c.offset : Int)) = c.type.low .host (values c.path) := by
    have hzero : (2 * (c.offset : Int)) = c.offset := by omega
    rw [hzero, hdata, hs]
    exact store_of_mem (written_nodup hcells)
      (List.mem_flatMap.mpr ⟨c, hc, List.mem_cons_self⟩)
  rw [hvalues, htaken, view_skeleton, hstored]
  exact decode_element hc1 (hheld c hc) _ _

/-- All is zero but for one word. -/
def oneAt (m : Int) : State :=
  ⟨fun _ => 0, fun _ => 0, fun k => if k = m then 1 else 0, fun _ => 0, []⟩

/-- Words of zeros, after a stub has stored nothing but zeros, and a one beyond them. -/
theorem words_of_zeros {k m : Int} (hm : (parametersWords types : Int) ≤ m) :
    store (oneAt m).data
      (written .host (parametersLayout types 0 0) fun _ => 0) k = if k = m then 1 else 0 := by
  by_cases hk : k ∈ (written .host (parametersLayout types 0 0) fun _ => 0).map Prod.fst
  · obtain ⟨p, hp, rfl⟩ := List.mem_map.mp hk
    obtain ⟨c, hc, hmem⟩ := List.mem_flatMap.mp hp
    have hinside := ((parameters_consecutive types 0 0).inside c hc).2
    have hplace := wordsOf_places hmem
    simp only [Cell.words] at hinside
    rw [if_neg (by omega : ¬ p.1 = m)]
    refine store_of_agree (g := fun _ => 0) ?_ hk
    intro q hq
    obtain ⟨d, -, hq⟩ := List.mem_flatMap.mp hq
    have hlow : d.type.low .host 0 = 0 := by
      cases d.type <;> rfl
    have hhigh : d.type.high .host 0 = 0 := by
      cases d.type <;> rfl
    unfold wordsOf at hq
    rw [hlow, hhigh] at hq
    split at hq
    · rcases List.mem_cons.mp hq with rfl | hq
      · rfl
      · rw [List.mem_singleton.mp hq]
    · rw [List.mem_singleton.mp hq]
  · exact store_of_not_mem hk

/-- With more than one word the last value is read from memory that the stub has not stored to. -/
theorem last_value_lost (h : ∀ type ∈ types, type.Marshalled) (hfits : Fits types)
    (hmore : 1 < parametersWords types) : ¬ HandsOn data types fun _ => 0 := by
  intro hhands
  obtain ⟨c, hc, hlast⟩ := parameters_last types 0 0 (by omega)
  obtain ⟨m, hm⟩ : ∃ m : Nat, m + 1 = parametersWords types :=
    ⟨parametersWords types - 1, by omega⟩
  obtain ⟨s', t', hpush, hrun, hdata, hvalues, -⟩ := push_run
    (fun type ht => ⟨h type ht, hfits.counted type ht⟩) hfits.words data
    (oneAt (2 * m)) (oneAt (2 * m))
  obtain ⟨s₁, t₁, hpush', hrun', hrestored⟩ := hhands (oneAt (2 * m)) (oneAt (2 * m)) rfl
  cases hpush.symm.trans hpush'
  cases hrun.symm.trans hrun'
  have hword : ∀ k, s'.data k = if k = 2 * (m : Int) then 1 else 0 := by
    intro k
    rw [hdata]
    exact words_of_zeros (by omega)
  have hview : ∀ k : Int, view skeleton.element s'.data k = if k = m then 1 else 0 := by
    intro k
    rw [view_skeleton, hword, hword, if_neg (by omega : ¬ 2 * k + 1 = 2 * (m : Int))]
    by_cases hk : k = m
    · rw [if_pos (by omega), if_pos hk]
      rfl
    · rw [if_neg (by omega), if_neg hk]
      rfl
  have hnodup : ((taken .host (parametersLayout types 0 0)
      (view skeleton.element s'.data)).map Prod.fst).Nodup := by
    unfold taken
    rw [List.map_map]
    exact (parameters_nodup hfits.distinct 0 0).1
  have hread := hrestored c hc
  rw [hvalues, store_of_mem hnodup (List.mem_map.mpr ⟨c, hc, rfl⟩), hview, hview] at hread
  simp only [Cell.words] at hlast
  rcases last_word_read (parameters_marshalled h 0 0 c hc) with ⟨hone, hne⟩ | ⟨htwo, hne⟩
  · rw [if_pos (by omega), if_neg (by omega)] at hread
    exact hne hread
  · rw [if_neg (by omega), if_pos (by omega)] at hread
    exact hne hread

end HandsOn

section Agreement
variable {method : Method} {data : MethodData} {maxnb16 : Int}

theorem read_index (type : CType) (name : Name) (nb16 : Index) :
    (readLeaf .stubserver type name nb16).indexes ≠ [] := by
  cases type <;> exact List.cons_ne_nil _ _

theorem bare_agrees (hdata : checkMethod method = .ok data)
    (hbare : ∀ type ∈ method.parameters, type.Bare) : Agrees maxnb16 method data := by
  obtain ⟨htypes, -⟩ := checkMethod_ok hdata
  have hmarshalled : ∀ type ∈ method.parameters, type.Marshalled ∧ type.Counted :=
    fun type ht => ⟨(htypes type ht).1, (bare_words type (hbare type ht)).2.2⟩
  have hwords := parameters_bare_words hbare
  have hroom : parametersWords method.parameters < 8388608 := by omega
  have hcells := parameters_consecutive method.parameters 0 0
  rw [hwords] at hcells
  have hnone : ∀ c ∈ parametersLayout method.parameters 0 0, False := by
    intro c hc
    have hinside := (hcells.inside c hc).2
    have hc := words_eq c.type
    simp only [Cell.words] at hinside
    split at hc <;> omega
  constructor
  · intro hindexes
    have hcode := congrArg Prod.fst (readParameters_eq .stubserver
      (fun type ht => (hmarshalled type ht).1) 0 0)
    rw [javaInt_zero] at hcode
    rw [hcode, bare_indexes_parameters hbare] at hindexes
    exact absurd rfl hindexes
  · exact writeParameters_levels .cpp htypes 0 0
  · refine readParameters_levels .stubserver (fun type ht => ⟨(htypes type ht).1, ?_⟩) 0 0
    exact Nat.le_of_eq (bare_words type (hbare type ht)).2.1
  · intro values _ s t _
    obtain ⟨s', t', hpush, hrun, -⟩ := push_run hmarshalled hroom data s t
    exact ⟨s', t', hpush, hrun, fun c hc => (hnone c hc).elim⟩
  · intro words t t' ht hrun k hk
    obtain ⟨t₁, hrun', -, htouched⟩ := unmarshal_runs .host hmarshalled hroom
      { t with data := view skeleton.element words }
    cases hrun'.symm.trans hrun
    rcases htouched k hk with hk | hk
    · have hk' : k ∈ t.touched := hk
      rw [ht] at hk'
      cases hk'
    · rw [hwords] at hk
      omega

theorem agrees_iff (hdata : checkMethod method = .ok data) :
    Agrees maxnb16 method data ↔ ∀ type ∈ method.parameters, type.Bare := by
  constructor
  · intro hagrees
    have hmarshalled : ∀ type ∈ method.parameters, type.Marshalled :=
      fun type ht => ((checkMethod_ok hdata).1 type ht).1
    have hcode := congrArg Prod.fst (readParameters_eq .stubserver hmarshalled 0 0)
    rw [javaInt_zero] at hcode
    have hwidth := hagrees.width
    have hdeclared := hagrees.declared
    rw [hcode] at hwidth hdeclared
    refine emitParameters_bare read_index hmarshalled 0 0 ?_ hdeclared
    by_contra hindexes
    exact absurd (hwidth hindexes) (show ¬ (16 : Nat) = 32 by decide)
  · exact bare_agrees hdata

end Agreement

/-- The parts on their own: only an array needs a loop variable, and what a single word holds is
read as it was stored. -/
theorem stub_and_skeleton_agree_iff {methods : List Method} {base : StubBase}
    (h : setItf methods ⟨[], 0⟩ = .ok base) :
    (List.Forall₂ (Agrees base.maxnb16) methods base.methods ↔
      ∀ method ∈ methods, ∀ type ∈ method.parameters, type.Bare) ∧
    List.Forall₂ (fun method data =>
      (Below (readParameters .stubserver method.parameters 0 0).1.levels skeleton.loops ↔
        ∀ type ∈ method.parameters, type.depth = 0) ∧
      (Fits method.parameters →
        ((∀ values, Held method.parameters values → HandsOn data method.parameters values) ↔
          parametersWords method.parameters ≤ 1))) methods base.methods := by
  obtain ⟨-, datas, hmethods, hall⟩ := setItf_ok h
  rw [hmethods, List.nil_append]
  constructor
  · clear h hmethods
    induction hall with
    | nil => exact iff_of_true .nil (fun _ h => nomatch h)
    | cons hdata _ ih =>
      rw [List.forall₂_cons, List.forall_mem_cons, ih, agrees_iff hdata.1]
  · refine hall.imp ?_
    intro method data hdata
    obtain ⟨htypes, -⟩ := checkMethod_ok hdata.1
    have hmarshalled : ∀ type ∈ method.parameters, type.Marshalled :=
      fun type ht => (htypes type ht).1
    constructor
    · constructor
      · intro hlevels
        have hcode := congrArg Prod.fst (readParameters_eq .stubserver hmarshalled 0 0)
        rw [javaInt_zero] at hcode
        rw [hcode] at hlevels
        exact emitParameters_flat 0 0 hlevels
      · intro hflat
        exact readParameters_levels .stubserver
          (fun type ht => ⟨hmarshalled type ht, Nat.le_of_eq (hflat type ht)⟩) 0 0
    · intro hfits
      constructor
      · intro hhands
        by_contra hmore
        exact last_value_lost hmarshalled hfits (by omega)
          (hhands _ fun c _ => zero_held c.type)
      · intro hone values hheld
        exact one_word_handed hmarshalled hfits hone hheld

theorem stub_and_skeleton_agree_sample :
    List.Forall₂ (Agrees 0) [⟨true, []⟩] [⟨0, 0⟩] := by
  have haccepted : setItf [⟨true, []⟩] ⟨[], 0⟩ = .ok ⟨[⟨0, 0⟩], 0⟩ := rfl
  refine (stub_and_skeleton_agree_iff haccepted).1.mpr ?_
  intro method hmethod
  rw [List.mem_singleton.mp hmethod]
  exact fun _ h => nomatch h

/-- Of the two values 0 and 7 the second is read from the third word. -/
theorem second_value_lost : ∃ types values,
    setItf [⟨true, types⟩] ⟨[], 0⟩ = .ok ⟨[⟨2, 0⟩], 2⟩ ∧ Held types values ∧
      ¬ HandsOn ⟨2, 0⟩ types values ∧ ¬ Agrees 2 ⟨true, types⟩ ⟨2, 0⟩ := by
  have hheld : Held [.primitive (.uint .w16), .primitive (.uint .w16)]
      (fun path => if path = [.parameter 1] then 7 else 0) := by
    unfold Held CType.Holds
    decide
  have hlost : ¬ HandsOn ⟨2, 0⟩ [.primitive (.uint .w16), .primitive (.uint .w16)]
      (fun path => if path = [.parameter 1] then 7 else 0) := by
    intro hhands
    obtain ⟨s', t', hpush, hrun, hread⟩ := hhands
      ⟨fun _ => 0, fun _ => 0, fun _ => 0, fun path => if path = [.parameter 1] then 7 else 0, []⟩
      ⟨fun _ => 0, fun _ => 0, fun _ => 0, fun _ => 0, []⟩ rfl
    cases hpush
    cases hrun
    exact absurd (hread ⟨[.parameter 1], 1, .primitive (.uint .w16)⟩ (by decide)) (by decide)
  exact ⟨_, _, rfl, hheld, hlost, fun hagrees => hlost (hagrees.values _ hheld)⟩

end CppEE

end Codinalte.Idl
