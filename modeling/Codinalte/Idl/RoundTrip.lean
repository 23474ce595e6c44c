import Codinalte.Idl.Marshalling

/-! A call over a distributed interface, from the arguments of the stub to those of the skeleton. -/

namespace Codinalte.Idl
open Codinalte.Stores

section Visits
variable {processor : Processor} {cells : List Cell} {data : Int → Int} {values : Location → Int}

/-- What a stub leaves in the words for the cells. -/
def written (processor : Processor) (cells : List Cell) (values : Location → Int) :
    List (Int × Int) :=
  cells.flatMap fun c => wordsOf processor c.type (values c.path) c.offset

/-- What a skeleton reads from the words of the cells. -/
def taken (processor : Processor) (cells : List Cell) (data : Int → Int) :
    List (Location × Int) :=
  cells.map fun c => (c.path, c.type.decode processor (data c.offset) (data (c.offset + 1)))

theorem visit_writeAct : visit (writeAct processor) [] 0 cells (data, values) =
    (store data (written processor cells values), values) := by
  induction cells generalizing data with
  | nil => rfl
  | cons c cells ih =>
    have hcons : visit (writeAct processor) [] 0 (c :: cells) (data, values) =
        visit (writeAct processor) [] 0 cells
          (writeAct processor c.type ([] ++ c.path) (0 + c.offset) (data, values)) := rfl
    have hwritten : written processor (c :: cells) values =
        wordsOf processor c.type (values c.path) c.offset ++ written processor cells values := rfl
    rw [hcons, hwritten, store_append, Int.zero_add]
    exact ih

theorem visit_readAct : visit (readAct processor) [] 0 cells (data, values) =
    (data, store values (taken processor cells data)) := by
  induction cells generalizing values with
  | nil => rfl
  | cons c cells ih =>
    have hcons : visit (readAct processor) [] 0 (c :: cells) (data, values) =
        visit (readAct processor) [] 0 cells
          (readAct processor c.type ([] ++ c.path) (0 + c.offset) (data, values)) := rfl
    rw [hcons, Int.zero_add]
    exact ih

theorem wordsOf_places {type : CType} {x b : Int} {p : Int × Int}
    (h : p ∈ wordsOf processor type x b) : b ≤ p.1 ∧ p.1 < b + type.words := by
  have hwords : type.words = 1 ∨ type.words = 2 := by
    rw [words_eq]
    split
    · exact .inl rfl
    · exact .inr rfl
  unfold wordsOf at h
  rcases hwords with hone | htwo
  · rw [hone, if_neg (by decide), List.mem_singleton] at h
    rw [h, hone]
    exact ⟨Int.le_refl _, by omega⟩
  · rw [htwo, if_pos rfl, List.mem_cons, List.mem_singleton] at h
    rw [htwo]
    rcases h with rfl | rfl
    · exact ⟨Int.le_refl _, by omega⟩
    · exact ⟨by omega, by omega⟩

/-- No word is written to twice. -/
theorem written_nodup {first last : Nat} (h : Consecutive cells first last) :
    ((written processor cells values).map Prod.fst).Nodup := by
  unfold written
  rw [List.map_flatMap, List.nodup_flatMap]
  constructor
  · intro c _
    unfold wordsOf
    split
    · simp
    · simp
  · refine h.apart.imp ?_
    intro c c' hcc k hk hk'
    obtain ⟨p, hp, rfl⟩ := List.mem_map.mp hk
    obtain ⟨q, hq, hqp⟩ := List.mem_map.mp hk'
    have hbefore := wordsOf_places hp
    have hafter := wordsOf_places hq
    simp only [Cell.words] at hcc
    omega

end Visits

theorem javaInt_zero : javaInt (0 : Nat) = 0 := javaInt_of_lt (by decide) (by decide)

section Checked
variable {types : List IdlType} {before data : MethodData}

theorem checkParameters_ok {offset : Nat} (hoffset : before.methnb16 = javaInt offset)
    (h : checkParameters types before = .ok data) :
    (∀ type ∈ types, type.Marshalled ∧ type.depth ≤ data.needi) ∧ before.needi ≤ data.needi ∧
      data.methnb16 = javaInt ((offset + parametersWords types : Nat) : Int) := by
  induction types generalizing before offset with
  | nil =>
    cases h
    exact ⟨(fun _ h => nomatch h), Nat.le_refl _, hoffset⟩
  | cons type types ih =>
    have hcheck := checkData_eq type before.needi 0 (Nat.zero_le _)
    have hwords : parametersWords (type :: types) = type.words + parametersWords types :=
      List.sum_cons
    unfold checkParameters at h
    cases hr : checkData type before.needi 0 with
    | error e =>
      rw [hr] at h
      cases h
    | ok r =>
      have htype := hcheck.2 r hr
      rw [hcheck.1 htype] at h
      simp only [bind, Except.bind, hoffset, javaInt_sum] at h
      have hsum : ∀ needi, (⟨javaInt ((offset + type.words : Nat) : Int), needi⟩ :
          MethodData).methnb16 = javaInt ((offset + type.words : Nat) : Int) := by
        intro needi
        dsimp only
      obtain ⟨hrest, hle, hmethnb16⟩ := ih (hsum _) h
      dsimp only at hle
      refine ⟨?_, by omega, ?_⟩
      · intro t ht
        rcases List.mem_cons.mp ht with rfl | ht
        · exact ⟨htype, by omega⟩
        · exact hrest t ht
      · rw [hmethnb16, hwords, Nat.add_assoc]

theorem checkMethod_ok {method : Method} (h : checkMethod method = .ok data) :
    (∀ type ∈ method.parameters, type.Marshalled ∧ type.depth ≤ data.needi) ∧
      data.methnb16 = javaInt (parametersWords method.parameters) := by
  unfold checkMethod at h
  split at h
  · have hbefore : (⟨0, 0⟩ : MethodData).methnb16 = javaInt (0 : Nat) := javaInt_zero.symm
    obtain ⟨htypes, -, hwords⟩ := checkParameters_ok hbefore h
    rw [Nat.zero_add] at hwords
    exact ⟨htypes, hwords⟩
  · cases h

/-- The size of an element of the FIFO is that of the largest method. -/
theorem setItf_ok {methods : List Method} {before base : StubBase}
    (h : setItf methods before = .ok base) : before.maxnb16 ≤ base.maxnb16 ∧
      ∃ datas, base.methods = before.methods ++ datas ∧
        List.Forall₂ (fun method data => checkMethod method = .ok data ∧
          data.methnb16 ≤ base.maxnb16) methods datas := by
  induction methods generalizing before with
  | nil =>
    cases h
    exact ⟨Int.le_refl _, [], (List.append_nil _).symm, .nil⟩
  | cons method methods ih =>
    unfold setItf at h
    cases hdata : checkMethod method with
    | error e =>
      rw [hdata] at h
      cases h
    | ok data =>
      rw [hdata] at h
      obtain ⟨hle, datas, hmethods, hall⟩ := ih h
      dsimp only at hle hmethods
      have hmax : before.maxnb16 ≤ base.maxnb16 ∧ data.methnb16 ≤ base.maxnb16 := by
        split at hle
        · exact ⟨by omega, by omega⟩
        · exact ⟨by omega, by omega⟩
      refine ⟨hmax.1, data :: datas, ?_, .cons ⟨hdata, hmax.2⟩ hall⟩
      rw [hmethods, List.append_assoc]
      rfl

theorem writeParameters_levels (style : Style) {bound : Nat}
    (h : ∀ type ∈ types, type.Marshalled ∧ type.depth ≤ bound) (k : Nat) (nb16 : Int) :
    Below (writeParameters style types k nb16).1.levels bound := by
  induction types generalizing k nb16 with
  | nil => exact below_nil
  | cons type types ih =>
    have htype := h type List.mem_cons_self
    have hdepth : 0 + type.depth ≤ bound := by
      rw [Nat.zero_add]
      exact htype.2
    exact (writeData_levels style bound type (.parameter k) [.literal nb16] 0 htype.1 below_nil
      below_nil hdepth).append
      (ih (fun t ht => h t (List.mem_cons_of_mem _ ht)) _ _)

theorem readParameters_levels (skeleton : Skeleton) {bound : Nat}
    (h : ∀ type ∈ types, type.Marshalled ∧ type.depth ≤ bound) (k : Nat) (nb16 : Int) :
    Below (readParameters skeleton types k nb16).1.levels bound := by
  induction types generalizing k nb16 with
  | nil => exact below_nil
  | cons type types ih =>
    have htype := h type List.mem_cons_self
    have hdepth : 0 + type.depth ≤ bound := by
      rw [Nat.zero_add]
      exact htype.2
    exact (readData_levels skeleton bound type (.parameter k) [.literal nb16] 0 htype.1 below_nil
      below_nil hdepth).append
      (ih (fun t ht => h t (List.mem_cons_of_mem _ ht)) _ _)

end Checked

mutual

theorem layout_marshalled : ∀ type : IdlType, type.Marshalled →
    ∀ c ∈ type.layout, c.type.Marshalled
  | .primitive p, h, c, hc => by
    rw [List.mem_singleton.mp hc]
    exact h
  | .pointer, h, c, hc => by
    rw [List.mem_singleton.mp hc]
    exact h
  | .enumeration, h, c, hc => by
    rw [List.mem_singleton.mp hc]
    exact h
  | .reference type, h, c, hc => layout_marshalled type h c hc
  | .typedef type, h, c, hc => layout_marshalled type h c hc
  | .const type, h, c, hc => layout_marshalled type h c hc
  | .named type, h, c, hc => layout_marshalled type h c hc
  | .other, h, c, hc => absurd h id
  | .structure members, h, c, hc => members_marshalled members 0 h c hc
  | .array type sizeInteger, h, c, hc => by
    unfold IdlType.layout at hc
    obtain ⟨i, -, hc⟩ := List.mem_flatMap.mp hc
    obtain ⟨d, hd, rfl⟩ := List.mem_map.mp hc
    exact layout_marshalled type h d hd

theorem members_marshalled : ∀ (members : Members) (offset : Nat), members.Marshalled →
    ∀ c ∈ members.layout offset, c.type.Marshalled
  | .nil, offset, h, c, hc => nomatch hc
  | .cons field type rest, offset, h, c, hc => by
    unfold Members.layout at hc
    rcases List.mem_append.mp hc with hc | hc
    · obtain ⟨d, hd, rfl⟩ := List.mem_map.mp hc
      exact layout_marshalled type h.1 d hd
    · exact members_marshalled rest _ h.2 c hc

end

theorem parameters_marshalled {types : List IdlType} (h : ∀ type ∈ types, type.Marshalled)
    (k offset : Nat) : ∀ c ∈ parametersLayout types k offset, c.type.Marshalled := by
  induction types generalizing k offset with
  | nil => exact fun _ h => nomatch h
  | cons type types ih =>
    intro c hc
    unfold parametersLayout at hc
    rcases List.mem_append.mp hc with hc | hc
    · obtain ⟨d, hd, rfl⟩ := List.mem_map.mp hc
      exact layout_marshalled type (h type List.mem_cons_self) d hd
    · exact ih (fun t ht => h t (List.mem_cons_of_mem _ ht)) _ _ c hc

section Calls
variable {types : List IdlType} {data : MethodData} {sender : Processor} {values : Location → Int}

/-- The stub marshals the arguments. -/
def marshal (style : Style) (sender : Processor) (types : List IdlType) (s : State) :
    Option State :=
  exec sender (writeParameters style types 0 0).1 s

/-- The skeleton reads them. -/
def unmarshal (receiver : Processor) (types : List IdlType) (s : State) : Option State :=
  exec receiver (readParameters receiver.skeleton types 0 0).1 s

/-- Whatever the words, the loop variables and the values on the other side were before, a call
runs, stays among the words of its method, and hands on every value. -/
def RoundTrip (style : Style) (sender : Processor) (types : List IdlType) (data : MethodData)
    (values : Location → Int) : Prop :=
  ∀ s t : State, s.values = values → s.touched = [] → t.touched = [] →
    ∃ s' t', marshal style sender types s = some s' ∧
      unmarshal sender.other types { t with data := s'.data } = some t' ∧
      (∀ k ∈ s'.touched ++ t'.touched, 0 ≤ k ∧ k < data.methnb16) ∧
      ∀ c ∈ parametersLayout types 0 0, t'.values c.path = values c.path

/-- The values are those of their types on both processors. -/
def Representable (types : List IdlType) (values : Location → Int) : Prop :=
  ∀ c ∈ parametersLayout types 0 0,
    c.type.Holds .host (values c.path) ∧ c.type.Holds .mmdsp (values c.path)

/-- No value of an enumeration leaves the MMDSP below zero. -/
def Unsigned (sender : Processor) (types : List IdlType) (values : Location → Int) : Prop :=
  sender = .mmdsp →
    ∀ c ∈ parametersLayout types 0 0, c.type = .enumeration → 0 ≤ values c.path

theorem style_refers (style : Style) : Refers style.refer := by
  cases style with
  | c => exact ⟨fun _ _ => rfl, fun _ => rfl⟩
  | cpp => exact ⟨fun _ _ => rfl, fun _ => rfl⟩

theorem id_refers : Refers id := ⟨fun _ _ => rfl, fun _ => rfl⟩

/-- What a stub leaves in the words. -/
theorem marshal_runs (style : Style) (sender : Processor)
    (h : ∀ type ∈ types, type.Marshalled ∧ type.Counted) (hroom : parametersWords types < 8388608)
    (s : State) : ∃ s', marshal style sender types s = some s' ∧
      s'.data = store s.data (written sender (parametersLayout types 0 0) s.values) ∧
      ∀ k ∈ s'.touched, k ∈ s.touched ∨ (0 ≤ k ∧ k < parametersWords types) := by
  have hcode := writeParameters_eq style (fun type ht => (h type ht).1) 0 0
  rw [javaInt_zero] at hcode
  obtain ⟨s', hrun, hmemory, htouched⟩ := exec_emitParameters (writeLeaf_runs sender)
    (style_refers style) h 0 0 (by omega) s
  rw [visit_writeAct] at hmemory
  refine ⟨s', ?_, congrArg Prod.fst hmemory, ?_⟩
  · unfold marshal
    rw [hcode]
    exact hrun
  · simpa using htouched

/-- What a skeleton reads from the words. -/
theorem unmarshal_runs (receiver : Processor)
    (h : ∀ type ∈ types, type.Marshalled ∧ type.Counted) (hroom : parametersWords types < 8388608)
    (s : State) : ∃ s', unmarshal receiver types s = some s' ∧
      s'.values = store s.values (taken receiver (parametersLayout types 0 0) s.data) ∧
      ∀ k ∈ s'.touched, k ∈ s.touched ∨ (0 ≤ k ∧ k < parametersWords types) := by
  have hcode := readParameters_eq receiver.skeleton (fun type ht => (h type ht).1) 0 0
  rw [javaInt_zero] at hcode
  obtain ⟨s', hrun, hmemory, htouched⟩ := exec_emitParameters (readLeaf_runs receiver)
    id_refers h 0 0 (by omega) s
  rw [visit_readAct] at hmemory
  refine ⟨s', ?_, congrArg Prod.snd hmemory, ?_⟩
  · unfold unmarshal
    rw [hcode]
    exact hrun
  · simpa using htouched

theorem decode_one {type : CType} (h : type.words = 1) (receiver : Processor) (w w' w'' : Int) :
    type.decode receiver w w' = type.decode receiver w w'' := by
  cases receiver with
  | host => simp only [CType.decode, h, if_true]
  | mmdsp => simp only [CType.decode, h, if_true]

/-- Each cell is read from the words that were written for it. -/
theorem decode_stored {cells : List Cell} {first last : Nat} (h : Consecutive cells first last)
    (receiver : Processor) (words : Int → Int) {c : Cell} (hc : c ∈ cells) :
    c.type.decode receiver (store words (written sender cells values) c.offset)
        (store words (written sender cells values) (c.offset + 1)) =
      c.type.decode receiver (c.type.low sender (values c.path))
        (c.type.high sender (values c.path)) := by
  have hnodup : ((written sender cells values).map Prod.fst).Nodup := written_nodup h
  have hlow : store words (written sender cells values) c.offset =
      c.type.low sender (values c.path) :=
    store_of_mem hnodup (List.mem_flatMap.mpr ⟨c, hc, List.mem_cons_self⟩)
  rw [hlow]
  by_cases hone : c.type.words = 1
  · exact decode_one hone receiver _ _ _
  · have htwo : c.type.words = 2 := by
      have hwords := words_eq c.type
      split at hwords
      · exact absurd hwords hone
      · exact hwords
    have hmem : ((c.offset : Int) + 1, c.type.high sender (values c.path)) ∈
        written sender cells values := by
      refine List.mem_flatMap.mpr ⟨c, hc, ?_⟩
      unfold wordsOf
      rw [if_pos htwo]
      exact List.mem_cons_of_mem _ List.mem_cons_self
    rw [store_of_mem hnodup hmem]

/-- The indexes and the loop variables stay within an `int` of the MMDSP, and the members of a
structure have different names. -/
structure Fits (types : List IdlType) : Prop where
  counted : ∀ type ∈ types, type.Counted
  distinct : ∀ type ∈ types, type.Distinct
  words : parametersWords types < 8388608

/-- What the call hands on for a cell. -/
theorem call_value (hmarshalled : ∀ type ∈ types, type.Marshalled) (hfits : Fits types)
    (hvalues : Representable types values) {s s' t t' : State}
    (hs : s'.data = store s.data (written sender (parametersLayout types 0 0) values))
    (ht : t'.values =
      store t.values (taken sender.other (parametersLayout types 0 0) s'.data))
    {c : Cell} (hc : c ∈ parametersLayout types 0 0) :
    t'.values c.path = values c.path ↔
      (sender = .mmdsp → c.type = .enumeration → 0 ≤ values c.path) := by
  have hnodup : ((taken sender.other (parametersLayout types 0 0) s'.data).map Prod.fst).Nodup := by
    unfold taken
    rw [List.map_map]
    exact (parameters_nodup hfits.distinct 0 0).1
  have htaken := store_of_mem (f := t.values) hnodup
    (List.mem_map.mpr ⟨c, hc, rfl⟩)
  rw [ht, htaken, hs, decode_stored (parameters_consecutive types 0 0) _ _ hc]
  exact decode_written (parameters_marshalled hmarshalled 0 0 c hc) (hvalues c hc).1
    (hvalues c hc).2

theorem round_trip_iff (hmarshalled : ∀ type ∈ types, type.Marshalled) (hfits : Fits types)
    (hmethnb16 : data.methnb16 = javaInt (parametersWords types)) (style : Style)
    (hvalues : Representable types values) :
    RoundTrip style sender types data values ↔ Unsigned sender types values := by
  have htypes : ∀ type ∈ types, type.Marshalled ∧ type.Counted :=
    fun type ht => ⟨hmarshalled type ht, hfits.counted type ht⟩
  have hwords := hfits.words
  have hroom : data.methnb16 = parametersWords types :=
    hmethnb16.trans (javaInt_of_lt (by omega) (by omega))
  constructor
  · intro htrip hsender c hc htype
    obtain ⟨s', t', hmarshal, hunmarshal, -, hrestored⟩ :=
      htrip ⟨fun _ => 0, fun _ => 0, fun _ => 0, values, []⟩
        ⟨fun _ => 0, fun _ => 0, fun _ => 0, values, []⟩ rfl rfl rfl
    obtain ⟨s₁, hrun, hs, -⟩ := marshal_runs style sender htypes hwords
      ⟨fun _ => 0, fun _ => 0, fun _ => 0, values, []⟩
    cases hrun.symm.trans hmarshal
    obtain ⟨t₁, hrun', ht, -⟩ := unmarshal_runs sender.other htypes hwords
      ⟨fun _ => 0, fun _ => 0, s'.data, values, []⟩
    cases hrun'.symm.trans hunmarshal
    exact (call_value hmarshalled hfits hvalues hs ht hc).mp (hrestored c hc) hsender htype
  · intro hunsigned s t hvalue hs ht
    subst hvalue
    obtain ⟨s', hrun, hdata, htouched⟩ := marshal_runs style sender htypes hwords s
    obtain ⟨t', hrun', hread, htouched'⟩ := unmarshal_runs sender.other htypes hwords
      { t with data := s'.data }
    refine ⟨s', t', hrun, hrun', ?_, ?_⟩
    · intro k hk
      rw [hroom]
      rcases List.mem_append.mp hk with hk | hk
      · refine (htouched k hk).resolve_left ?_
        rw [hs]
        exact List.not_mem_nil
      · refine (htouched' k hk).resolve_left ?_
        dsimp only
        rw [ht]
        exact List.not_mem_nil
    · intro c hc
      exact (call_value hmarshalled hfits hvalues hdata hread hc).mpr
        fun hsender htype => hunsigned hsender c hc htype

end Calls

/-- A method with a structure of an enumeration and three samples. -/
def sampleTypes : List IdlType :=
  [.structure (.cons "kind" .enumeration
    (.cons "samples" (.array (.primitive (.sint .w16)) 3) .nil))]

theorem sample_accepted : setItf [⟨true, sampleTypes⟩] ⟨[], 0⟩ = .ok ⟨[⟨5, 1⟩], 5⟩ := by
  rfl

theorem sample_fits : Fits sampleTypes := by
  constructor
  · intro type ht
    rw [List.mem_singleton.mp ht]
    exact ⟨trivial, ⟨by decide, trivial⟩, trivial⟩
  · intro type ht
    rw [List.mem_singleton.mp ht]
    exact ⟨by decide, trivial, trivial, trivial⟩
  · decide

def sampleValues (kind : Int) : Location → Int :=
  fun path => if path = [.parameter 0, .member "kind"] then kind else -7

theorem sample_layout : parametersLayout sampleTypes 0 0 =
    ⟨[.parameter 0, .member "kind"], 0, .enumeration⟩ ::
      (List.range 3).map fun i : Nat =>
        ⟨[.parameter 0, .member "samples", .element i], 2 + i, .primitive (.sint .w16)⟩ := by
  decide

theorem sample_representable {kind : Int} (h : -8388608 ≤ kind ∧ kind < 8388608) :
    Representable sampleTypes (sampleValues kind) := by
  intro c hc
  rw [sample_layout, List.mem_cons] at hc
  rcases hc with rfl | hc
  · simp only [CType.Holds, CType.convert, wrap, CType.signed, CType.bits, sampleValues,
      Processor.intBits, if_true]
    omega
  · obtain ⟨i, -, rfl⟩ := List.mem_map.mp hc
    have hvalue : sampleValues kind [.parameter 0, .member "samples", .element i] = -7 :=
      if_neg (by simp)
    have hhost : (CType.primitive (.sint .w16)).Holds .host (-7) := by
      unfold CType.Holds
      decide
    have hmmdsp : (CType.primitive (.sint .w16)).Holds .mmdsp (-7) := by
      unfold CType.Holds
      decide
    rw [hvalue]
    exact ⟨hhost, hmmdsp⟩

end Codinalte.Idl
