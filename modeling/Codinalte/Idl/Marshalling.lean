import Codinalte.Idl.Execution
import Mathlib.Algebra.Order.Ring.Int

/-! What a stub marshals on one processor a skeleton reads back on the other, but for an enumeration
with a negative value on its way from the MMDSP to the host. -/

namespace Codinalte.Idl
open Codinalte.Stores

/-- The skeleton of the processor. -/
def Processor.skeleton : Processor → Skeleton
  | .host => .stubserver
  | .mmdsp => .mmdsp

def Processor.other : Processor → Processor
  | .host => .mmdsp
  | .mmdsp => .host

namespace CType

/-- The word of a cell that lies first, and the one after it. -/
def low (processor : Processor) (type : CType) (x : Int) : Int :=
  match type with
  | .primitive _ => x % 65536
  | _ => x % 2 ^ processor.intBits % 65536

def high (processor : Processor) (type : CType) (x : Int) : Int :=
  match type with
  | .primitive _ => x / 65536 % 65536
  | _ => x % 2 ^ processor.intBits / 65536 % 65536

/-- The type of the words while they are put together. -/
def typein : CType → CType
  | .primitive p => .primitive p
  | _ => .uint16

def joined (type : CType) (words : List Int) : Int :=
  type.convert .host (join (max 32 (type.typein.bits .host))
    (words.map fun word => type.typein.convert .host word))

/-- The value that is read from the two words. -/
def decode (processor : Processor) (type : CType) (w w' : Int) : Int :=
  match processor with
  | .host => type.joined (if type.words = 1 then [w] else [w, w'])
  | .mmdsp =>
    if type.words = 1 then
      match type with
      | .primitive p =>
        let word := wrap true 16 w
        if p.signed then type.convert .mmdsp word
        else type.convert .mmdsp (word % 2 ^ if p.packedsize ≤ 8 then 8 else 16)
      | _ => 0
    else type.convert .mmdsp (ext16to32 (type.typein.convert .mmdsp (wrap true 16 w'))
      (type.typein.convert .mmdsp (wrap true 16 w)))

end CType

section Cell
variable {processor : Processor} {type : CType} {x : Int}

/-- Where the words of a value go. -/
def wordsOf (processor : Processor) (type : CType) (x b : Int) : List (Int × Int) :=
  (b, type.low processor x) :: if type.words = 2 then [(b + 1, type.high processor x)] else []

def writeAct (processor : Processor) (type : CType) (location : Location) (b : Int)
    (memory : Memory) : Memory :=
  (store memory.1 (wordsOf processor type (memory.2 location) b), memory.2)

def readAct (processor : Processor) (type : CType) (location : Location) (b : Int)
    (memory : Memory) : Memory :=
  (memory.1, Function.update memory.2 location
    (type.decode processor (memory.1 b) (memory.1 (b + 1))))

theorem exec_store {s : State} {nb16 : Index} {k : Int} (value : Stored)
    (h : nb16.eval processor s.j = some k) : exec processor (.store nb16 value) s =
      some { s with
        data := Function.update s.data k
          (value.word processor (s.values (value.name.location s.i)))
        touched := s.touched ++ [k] } := by
  simp [exec, h]

theorem exec_assign {s : State} {name : Name} {value : Loaded} {y : Int} {ks : List Int}
    (h : value.eval processor s = some (y, ks)) : exec processor (.assign name value) s =
      some { s with
        values := Function.update s.values (name.location s.i) y, touched := s.touched ++ ks } := by
  simp [exec, h]

/-- The statements of a stub for two words. -/
theorem exec_two {s : State} {name : Name} {nb16 : Index} {arraylevel : Nat} {location : Location}
    {b : Int} {first second : Stored} (hfirst : first.name = name) (hsecond : second.name = name)
    (h : Ready processor s name nb16 arraylevel location b 2) :
    ∃ s', exec processor (.seq (.store nb16 first) (.store (nb16.plus 1) second)) s = some s' ∧
      Ran s s' arraylevel b 2 (store s.data [(b, first.word processor (s.values location)),
        (b + 1, second.word processor (s.values location))], s.values) := by
  have heval : (nb16.plus 1).eval processor s.j = some (b + 1) := h.plus (m := 1) (by decide)
  have hstored := exec_store second (s := { s with
    data := Function.update s.data b (first.word processor (s.values location))
    touched := s.touched ++ [b] }) heval
  dsimp only at hstored
  rw [hsecond, h.location] at hstored
  rw [exec, exec_store _ h.eval, Option.bind_some, hfirst, h.location, hstored]
  refine ⟨_, rfl, rfl, fun _ _ => rfl, fun _ _ => rfl, ?_⟩
  intro k hk
  simp only [List.append_assoc, List.mem_append, List.mem_cons, List.not_mem_nil, or_false] at hk
  rcases hk with hk | rfl | rfl
  · exact .inl hk
  · exact .inr ⟨Int.le_refl _, by omega⟩
  · exact .inr ⟨by omega, by omega⟩

theorem writeLeaf_runs (processor : Processor) :
    LeafRuns processor writeLeaf (writeAct processor) := by
  intro type name nb16 arraylevel s location b hmarshalled h
  cases type with
  | primitive p =>
    have hleaf : writeLeaf (.primitive p) name nb16 = (writePrimitive p name nb16).1 := rfl
    rw [hleaf, writePrimitive_eq hmarshalled]
    unfold writeAct wordsOf
    by_cases h16 : p.packedsize ≤ 16
    · rw [if_pos h16, exec_store _ h.eval]
      have hwords : (CType.primitive p).words = 1 := if_pos h16
      refine ⟨_, rfl, ?_, fun _ _ => rfl, fun _ _ => rfl, ?_⟩
      · simp only [hwords, Stored.name, Stored.word, h.location, CType.low]
        rfl
      · intro k hk
        rw [hwords]
        rcases List.mem_append.mp hk with hk | hk
        · exact .inl hk
        · rw [List.mem_singleton.mp hk]
          exact .inr ⟨Int.le_refl _, by omega⟩
    · have hwords : (CType.primitive p).words = 2 := if_neg h16
      rw [hwords] at h ⊢
      rw [if_neg h16]
      exact exec_two rfl rfl h
  | enumeration => exact exec_two rfl rfl h
  | pointer => exact exec_two rfl rfl h

/-- The bits of the type, and whether they are taken for signed, as `readData` hands them on. -/
def CType.packedsize : CType → Nat
  | .primitive p => p.packedsize
  | _ => 32

def CType.signedIn : CType → Bool
  | .primitive p => p.signed
  | _ => false

theorem readLeaf_eq (skeleton : Skeleton) (type : CType) (name : Name) (nb16 : Index) :
    readLeaf skeleton type name nb16 = .assign name
      (create32 skeleton type.typein type type.packedsize type.signedIn nb16).1 := by
  cases type <;> rfl

theorem words_eq (type : CType) : type.words = if type.packedsize ≤ 16 then 1 else 2 := by
  cases type <;> rfl

theorem create32_stubserver {type : CType} (h : type.Marshalled) (nb16 : Index) :
    (create32 .stubserver type.typein type type.packedsize type.signedIn nb16).1 =
      .joined type.typein type type.words nb16 := by
  have h32 : ¬ type.packedsize > 32 := by
    cases type with
    | primitive p => exact Nat.not_lt.mpr h
    | enumeration => exact Nat.lt_irrefl _
    | pointer => exact Nat.lt_irrefl _
  have h48 : ¬ type.packedsize > 48 := by omega
  rw [words_eq]
  unfold create32
  by_cases h16 : type.packedsize ≤ 16
  · have h16' : ¬ type.packedsize > 16 := Nat.not_lt.mpr h16
    simp only [if_neg h32, if_neg h48, if_neg h16', if_pos h16]
  · have h16' : type.packedsize > 16 := Nat.lt_of_not_le h16
    simp only [if_neg h32, if_neg h48, if_pos h16', if_neg h16]

/-- The host puts the words together. -/
theorem eval_stubserver {s : State} {name : Name} {nb16 : Index} {arraylevel : Nat}
    {location : Location} {b : Int}
    (h : Ready .host s name nb16 arraylevel location b type.words) (hmarshalled : type.Marshalled) :
    ∃ ks, (create32 .stubserver type.typein type type.packedsize type.signedIn nb16).1.eval .host s =
        some (type.decode .host (s.data b) (s.data (b + 1)), ks) ∧
      ∀ k ∈ ks, b ≤ k ∧ k < b + type.words := by
  rw [create32_stubserver hmarshalled]
  have hwords := words_eq type
  by_cases h16 : type.packedsize ≤ 16
  · rw [if_pos h16] at hwords
    refine ⟨[b], ?_, ?_⟩
    · simp [Loaded.eval, Index.joined, CType.decode, CType.joined, hwords, h.eval, load,
        Processor.intBits]
    · intro k hk
      rw [List.mem_singleton.mp hk]
      omega
  · rw [if_neg h16] at hwords
    have heval : (nb16.plus 1).eval .host s.j = some (b + 1) := h.plus (m := 1) (by omega)
    refine ⟨[b, b + 1], ?_, ?_⟩
    · simp [Loaded.eval, Index.joined, CType.decode, CType.joined, hwords, h.eval, heval, load,
        Processor.intBits]
    · intro k hk
      simp only [List.mem_cons, List.not_mem_nil, or_false] at hk
      omega

/-- The MMDSP masks what is unsigned, since it loads a word sign extended. -/
theorem eval_mmdsp {s : State} {name : Name} {nb16 : Index} {arraylevel : Nat}
    {location : Location} {b : Int}
    (h : Ready .mmdsp s name nb16 arraylevel location b type.words)
    (hmarshalled : type.Marshalled) :
    ∃ ks, (create32 .mmdsp type.typein type type.packedsize type.signedIn nb16).1.eval .mmdsp s =
        some (type.decode .mmdsp (s.data b) (s.data (b + 1)), ks) ∧
      ∀ k ∈ ks, b ≤ k ∧ k < b + type.words := by
  have hwords := words_eq type
  have hone : ∀ k ∈ [b], b ≤ k ∧ k < b + type.words := by
    intro k hk
    rw [List.mem_singleton.mp hk]
    rw [hwords]
    split <;> omega
  cases type with
  | primitive p =>
    unfold CType.packedsize at hwords ⊢
    by_cases h16 : p.packedsize ≤ 16
    · rw [if_pos h16] at hwords
      refine ⟨[b], ?_, hone⟩
      by_cases h8 : p.packedsize ≤ 8
      · cases hsigned : p.signed <;>
          simp [create32, CType.signedIn, Loaded.eval, CType.decode, hwords, h8, hsigned, h.eval, load]
      · cases hsigned : p.signed <;>
          simp [create32, CType.signedIn, Loaded.eval, CType.decode, hwords, h8, h16, hsigned, h.eval,
            load]
    · have h8 : ¬ p.packedsize ≤ 8 := by omega
      have h32 : p.packedsize ≤ 32 := hmarshalled
      rw [if_neg h16] at hwords
      have heval : (nb16.plus 1).eval .mmdsp s.j = some (b + 1) := h.plus (m := 1) (by omega)
      refine ⟨[b + 1, b], ?_, ?_⟩
      · simp [create32, Loaded.eval, CType.decode, hwords, h8, h16, h32, h.eval,
          heval, load]
      · intro k hk
        simp only [List.mem_cons, List.not_mem_nil, or_false] at hk
        omega
  | enumeration =>
    have heval : (nb16.plus 1).eval .mmdsp s.j = some (b + 1) := h.plus (m := 1) (by decide)
    refine ⟨[b + 1, b], ?_, ?_⟩
    · simp [create32, CType.packedsize, Loaded.eval, CType.decode, CType.words, h.eval, heval, load]
    · intro k hk
      simp only [List.mem_cons, List.not_mem_nil, or_false, CType.words] at hk ⊢
      omega
  | pointer =>
    have heval : (nb16.plus 1).eval .mmdsp s.j = some (b + 1) := h.plus (m := 1) (by decide)
    refine ⟨[b + 1, b], ?_, ?_⟩
    · simp [create32, CType.packedsize, Loaded.eval, CType.decode, CType.words, h.eval, heval, load]
    · intro k hk
      simp only [List.mem_cons, List.not_mem_nil, or_false, CType.words] at hk ⊢
      omega

theorem readLeaf_runs (processor : Processor) :
    LeafRuns processor (readLeaf processor.skeleton) (readAct processor) := by
  intro type name nb16 arraylevel s location b hmarshalled h
  have hvalue : ∃ ks, (create32 processor.skeleton type.typein type type.packedsize type.signedIn
      nb16).1.eval processor s = some (type.decode processor (s.data b) (s.data (b + 1)), ks) ∧
      ∀ k ∈ ks, b ≤ k ∧ k < b + type.words := by
    cases processor with
    | host => exact eval_stubserver h hmarshalled
    | mmdsp => exact eval_mmdsp h hmarshalled
  obtain ⟨ks, heval, hks⟩ := hvalue
  rw [readLeaf_eq, exec_assign heval, h.location]
  refine ⟨_, rfl, rfl, fun _ _ => rfl, fun _ _ => rfl, ?_⟩
  intro k hk
  rcases List.mem_append.mp hk with hk | hk
  · exact .inl hk
  · exact .inr (hks k hk)

end Cell

section Words

theorem join_one (bits : Nat) (a : Int) : join bits [a] = (a % 2 ^ bits).toNat := by
  simp [join]

theorem join_two {a b : Int} (ha : 0 ≤ a) (ha' : a < 65536) (hb : 0 ≤ b) (hb' : b < 65536) :
    (join 32 [a, b] : Int) = a + b * 65536 := by
  have hlow : (a % 2 ^ 32).toNat = a.toNat := by omega
  have hhigh : (b % 2 ^ 32).toNat = b.toNat := by omega
  have hlt : a.toNat < 2 ^ 16 := by omega
  have hfit : b.toNat <<< 16 % 2 ^ 32 = b.toNat <<< 16 := by
    rw [Nat.shiftLeft_eq]
    omega
  have hor : join 32 [a, b] = a.toNat ||| b.toNat <<< 16 := by
    have hrest : join 32 [a, b] =
        (a % 2 ^ 32).toNat ||| join 32 [b] <<< 16 % 2 ^ 32 := rfl
    rw [hrest, join_one, hlow, hhigh, hfit]
  rw [hor, Nat.or_comm, ← Nat.shiftLeft_add_eq_or_of_lt hlt, Nat.shiftLeft_eq]
  omega

variable {signed signed' : Bool} {bits bits' n : Nat} {x y : Int}

theorem wrap_emod (h : n ≤ bits) : wrap signed bits x % 2 ^ n = x % 2 ^ n := by
  have hdvd : (2 : Int) ^ n ∣ 2 ^ bits := pow_dvd_pow 2 h
  unfold wrap
  cases signed with
  | false => exact Int.emod_emod_of_dvd x hdvd
  | true =>
    rw [if_pos rfl, Int.sub_emod, Int.emod_emod_of_dvd _ hdvd, ← Int.sub_emod,
      Int.add_sub_cancel]

theorem wrap_congr (h : bits ≤ n) (hxy : x % 2 ^ n = y % 2 ^ n) :
    wrap signed bits x = wrap signed bits y := by
  have hdvd : (2 : Int) ^ bits ∣ 2 ^ n := pow_dvd_pow 2 h
  have hmod : x % 2 ^ bits = y % 2 ^ bits := by
    rw [← Int.emod_emod_of_dvd x hdvd, hxy, Int.emod_emod_of_dvd y hdvd]
  unfold wrap
  rw [Int.add_emod, hmod, ← Int.add_emod]

theorem wrap_emod_self (h : bits ≤ n) : wrap signed bits (x % 2 ^ n) = wrap signed bits x :=
  wrap_congr h (Int.emod_emod_of_dvd x (Int.dvd_refl _))

theorem wrap_wrap (h : bits ≤ bits') :
    wrap signed bits (wrap signed' bits' x) = wrap signed bits x :=
  wrap_congr h (wrap_emod (Nat.le_refl _))

/-- The types of one word have 8 bits or 16 on both processors. -/
theorem bits_of_one (processor : Processor) {p : TypePrimitive} (h : p.packedsize ≤ 16) :
    CType.bits processor (.primitive p) = if p.packedsize ≤ 8 then 8 else 16 := by
  revert h
  cases p with
  | uint width => cases processor <;> cases width <;> decide
  | sint width => cases processor <;> cases width <;> decide
  | bool => exact fun _ => rfl
  | char => exact fun _ => rfl
  | uword => cases processor <;> decide
  | sword => cases processor <;> decide
  | physicalAddress => cases processor <;> decide

/-- Those of two words have 24 or 32. -/
theorem bits_of_two (processor : Processor) {type : CType} (h : type.Marshalled)
    (hwords : type.words ≠ 1) : type.bits processor = 24 ∨ type.bits processor = 32 := by
  cases type with
  | primitive p =>
    have h32 : p.packedsize ≤ 32 := h
    have h16 : ¬ p.packedsize ≤ 16 := fun hle => hwords (if_pos hle)
    clear h hwords
    revert h32 h16
    cases p with
    | uint width => cases processor <;> cases width <;> decide
    | sint width => cases processor <;> cases width <;> decide
    | bool => cases processor <;> decide
    | char => cases processor <;> decide
    | uword => cases processor <;> decide
    | sword => cases processor <;> decide
    | physicalAddress => cases processor <;> decide
  | enumeration => cases processor <;> decide
  | pointer => cases processor <;> decide

theorem one_word {type : CType} (h : type.words = 1) :
    ∃ p : TypePrimitive, type = .primitive p ∧ p.packedsize ≤ 16 := by
  cases type with
  | enumeration => exact absurd h (by decide)
  | pointer => exact absurd h (by decide)
  | primitive p =>
    refine ⟨p, rfl, ?_⟩
    by_contra hlt
    exact absurd ((if_neg hlt).symm.trans h) (by decide)

/-- The type of the words has room for one. -/
theorem typein_bits (processor : Processor) {type : CType} (h : type.Marshalled)
    (hwords : type.words ≠ 1) : type.typein.signed = false ∧ type.typein.bits processor = 16 ∨
      type.typein.bits processor = 24 ∨ type.typein.bits processor = 32 := by
  cases type with
  | primitive p => exact .inr (bits_of_two processor h hwords)
  | enumeration => exact .inl ⟨rfl, rfl⟩
  | pointer => exact .inl ⟨rfl, rfl⟩

theorem wrap_word {w : Int} (hw : 0 ≤ w ∧ w < 65536)
    (h : signed = false ∧ bits = 16 ∨ bits = 24 ∨ bits = 32) : wrap signed bits w = w := by
  unfold wrap
  rcases h with ⟨rfl, rfl⟩ | rfl | rfl
  · exact Int.emod_eq_of_lt hw.1 hw.2
  · cases signed with
    | false => exact Int.emod_eq_of_lt hw.1 (by omega)
    | true => simp only [if_true]; omega
  · cases signed with
    | false => exact Int.emod_eq_of_lt hw.1 (by omega)
    | true => simp only [if_true]; omega

/-- What both words hold together. -/
def CType.whole (type : CType) (w w' : Int) : Int := if type.words = 1 then w else w + w' * 65536

variable {type : CType} {w w' : Int}

/-- One word is read as it is, whatever there is in the next one. -/
theorem decode_host_one (hone : type.words = 1) :
    type.decode .host w w' = type.convert .host w := by
  unfold CType.decode CType.joined
  obtain ⟨p, rfl, h16⟩ := one_word hone
  have hle : CType.bits .host (.primitive p) ≤ 32 := by
    rw [bits_of_one .host h16]
    split <;> decide
  have hmax : max 32 (CType.bits .host (.primitive p)) = 32 := Nat.max_eq_left hle
  have hpos : 0 ≤ (CType.primitive p).convert .host w % 2 ^ 32 := Int.emod_nonneg _ (by decide)
  simp only [if_pos hone, List.map_cons, List.map_nil, CType.typein, hmax, join_one]
  rw [Int.toNat_of_nonneg hpos]
  unfold CType.convert
  rw [wrap_emod_self hle, wrap_wrap (Nat.le_refl _)]

theorem decode_host (h : type.Marshalled) (hw : 0 ≤ w ∧ w < 65536) (hw' : 0 ≤ w' ∧ w' < 65536) :
    type.decode .host w w' = type.convert .host (type.whole w w') := by
  by_cases hone : type.words = 1
  · unfold CType.whole
    rw [decode_host_one hone, if_pos hone]
  · unfold CType.decode CType.joined CType.whole
    have htypein := typein_bits .host h hone
    have hmax : max 32 (type.typein.bits .host) = 32 := by omega
    have hlow : type.typein.convert .host w = w := wrap_word hw htypein
    have hhigh : type.typein.convert .host w' = w' := wrap_word hw' htypein
    simp only [if_neg hone, List.map_cons, List.map_nil, hmax, hlow, hhigh]
    rw [join_two hw.1 hw.2 hw'.1 hw'.2]

theorem decode_mmdsp (h : type.Marshalled) (hw : 0 ≤ w ∧ w < 65536) (hw' : 0 ≤ w' ∧ w' < 65536) :
    type.decode .mmdsp w w' = type.convert .mmdsp (type.whole w w') := by
  unfold CType.decode CType.whole
  by_cases hone : type.words = 1
  · obtain ⟨p, rfl, h16⟩ := one_word hone
    have hbits := bits_of_one .mmdsp h16
    simp only [if_pos hone]
    unfold CType.convert
    by_cases hsigned : p.signed
    · have hle : CType.bits .mmdsp (.primitive p) ≤ 16 := by
        rw [hbits]
        split <;> decide
      rw [if_pos hsigned, wrap_wrap hle]
    · rw [if_neg hsigned, hbits]
      by_cases h8 : p.packedsize ≤ 8
      · rw [if_pos h8, wrap_emod_self (Nat.le_refl _), wrap_wrap (by decide)]
      · rw [if_neg h8, wrap_emod_self (Nat.le_refl _), wrap_wrap (Nat.le_refl _)]
  · simp only [if_neg hone]
    have hroom : 16 ≤ type.typein.bits .mmdsp := by
      have htypein := typein_bits .mmdsp h hone
      omega
    have hword : ∀ y : Int, 0 ≤ y ∧ y < 65536 →
        type.typein.convert .mmdsp (wrap true 16 y) % 65536 = y := by
      intro y hy
      have hmod : type.typein.convert .mmdsp (wrap true 16 y) % 2 ^ 16 = y % 2 ^ 16 :=
        (wrap_emod hroom).trans (wrap_emod (Nat.le_refl _))
      have hself : y % 2 ^ 16 = y := Int.emod_eq_of_lt hy.1 hy.2
      exact hmod.trans hself
    unfold ext16to32
    rw [hword w' hw', hword w hw, Int.add_comm]

theorem decode_eq (processor : Processor) (h : type.Marshalled) (hw : 0 ≤ w ∧ w < 65536)
    (hw' : 0 ≤ w' ∧ w' < 65536) :
    type.decode processor w w' = type.convert processor (type.whole w w') := by
  cases processor with
  | host => exact decode_host h hw hw'
  | mmdsp => exact decode_mmdsp h hw hw'

theorem low_range (processor : Processor) (type : CType) (x : Int) :
    0 ≤ type.low processor x ∧ type.low processor x < 65536 := by
  cases type <;> exact ⟨Int.emod_nonneg _ (by decide), Int.emod_lt_of_pos _ (by decide)⟩

theorem high_range (processor : Processor) (type : CType) (x : Int) :
    0 ≤ type.high processor x ∧ type.high processor x < 65536 := by
  cases type <;> exact ⟨Int.emod_nonneg _ (by decide), Int.emod_lt_of_pos _ (by decide)⟩

/-- Both words hold the value modulo the bits that were written. -/
theorem whole_written (sender : Processor) (type : CType) (x : Int) :
    type.whole (type.low sender x) (type.high sender x) =
      if type.words = 1 then x % 2 ^ 16 else
        match type with
        | .primitive _ => x % 2 ^ 32
        | _ => x % 2 ^ sender.intBits := by
  unfold CType.whole
  cases type with
  | primitive p =>
    simp only [CType.low, CType.high]
    split
    · rfl
    · omega
  | enumeration =>
    cases sender <;> simp only [CType.low, CType.high, CType.words, Processor.intBits] <;> omega
  | pointer =>
    cases sender <;> simp only [CType.low, CType.high, CType.words, Processor.intBits] <;> omega

/-- The words of a value are read back as the value on the other processor, unless it is a negative
value of an enumeration that leaves the MMDSP. -/
theorem decode_written {sender : Processor} {x : Int} (h : type.Marshalled)
    (hhost : type.Holds .host x) (hmmdsp : type.Holds .mmdsp x) :
    type.decode sender.other (type.low sender x) (type.high sender x) = x ↔
      (sender = .mmdsp → type = .enumeration → 0 ≤ x) := by
  have hother : type.Holds sender.other x := by
    cases sender with
    | host => exact hmmdsp
    | mmdsp => exact hhost
  rw [decode_eq sender.other h (low_range sender type x) (high_range sender type x), whole_written]
  unfold CType.Holds CType.convert at hother hmmdsp
  unfold CType.convert
  cases type with
  | primitive p =>
    refine iff_of_true ?_ (fun _ htype => by cases htype)
    by_cases hone : (CType.primitive p).words = 1
    · obtain ⟨q, hq, h16⟩ := one_word hone
      cases hq
      have hle : CType.bits sender.other (.primitive p) ≤ 16 := by
        rw [bits_of_one sender.other h16]
        split <;> decide
      rw [if_pos hone, wrap_emod_self hle, hother]
    · have hle : CType.bits sender.other (.primitive p) ≤ 32 := by
        have hbits := bits_of_two sender.other h hone
        omega
      rw [if_neg hone, wrap_emod_self hle, hother]
  | pointer =>
    refine iff_of_true ?_ (fun _ htype => by cases htype)
    cases sender with
    | host => exact (wrap_emod_self (by decide)).trans hother
    | mmdsp =>
      have hself : x % 2 ^ 24 = x := hmmdsp
      simp only [CType.words, Processor.intBits, hself]
      exact hother
  | enumeration =>
    cases sender with
    | host =>
      exact iff_of_true ((wrap_emod_self (by decide)).trans hother) fun h => by cases h
    | mmdsp =>
      -- the 24 bits of an `unsigned int` leave the sign behind
      simp only [wrap, CType.signed, CType.bits, CType.words, Processor.other, Processor.intBits,
        if_true, true_implies] at hmmdsp ⊢
      omega

end Words

end Codinalte.Idl
