import Mathlib.Algebra.BigOperators.Group.Finset.Basic
import Mathlib.Algebra.Order.BigOperators.Group.Finset
import Mathlib.Algebra.Ring.Nat
import Codinalte.Lib.BigEndian

/-! The memory that a component needs, as it is read from the section headers of its ELF file. -/

namespace Codinalte.CmProxy.ComponentInfo
open BigEndian

inductive MemoryPurpose where
  | code
  | data
deriving DecidableEq

inductive MemoryType where
  | esram
  | sdram
  | xram
  | yram
deriving DecidableEq

inductive MemoryProperty where
  | memSharable
  | memPrivate
deriving DecidableEq

inductive InstanceProperty where
  | multiInstance
  | singleton
deriving DecidableEq

structure ElfMemoryInfo where
  property : MemoryProperty
  purpose : MemoryPurpose
  convertedMemType : MemoryType
  fileEntSize : UInt8
  memEntSize : UInt8
deriving DecidableEq

def mmdspMemories : List ElfMemoryInfo :=
  [⟨.memSharable, .code, .sdram, 8, 8⟩, ⟨.memSharable, .data, .xram, 3, 3⟩,
    ⟨.memSharable, .data, .yram, 3, 3⟩, ⟨.memSharable, .data, .sdram, 3, 4⟩,
    ⟨.memSharable, .data, .sdram, 3, 2⟩, ⟨.memSharable, .data, .esram, 3, 4⟩,
    ⟨.memSharable, .data, .esram, 3, 2⟩, ⟨.memSharable, .code, .esram, 8, 8⟩,
    ⟨.memPrivate, .data, .xram, 3, 3⟩, ⟨.memPrivate, .data, .yram, 3, 3⟩,
    ⟨.memPrivate, .data, .sdram, 3, 4⟩, ⟨.memPrivate, .data, .sdram, 3, 2⟩,
    ⟨.memPrivate, .data, .esram, 3, 4⟩, ⟨.memPrivate, .data, .esram, 3, 2⟩]

structure MemoryMapping where
  multiInstance : Nat
  singleton : Nat
deriving DecidableEq

def MemoryMapping.memoryIndex (mapping : MemoryMapping) : InstanceProperty → Nat
  | .multiInstance => mapping.multiInstance
  | .singleton => mapping.singleton

def mappingmem0 : List MemoryMapping := [⟨0, 0⟩, ⟨0, 0⟩, ⟨0, 0⟩]
def mappingmem10 : MemoryMapping := ⟨7, 7⟩
def mappingmem1 : List MemoryMapping := [⟨0xff, 0xff⟩, ⟨1, 1⟩, ⟨8, 1⟩, ⟨1, 1⟩, ⟨8, 1⟩, ⟨8, 1⟩]
def mappingmem2 : List MemoryMapping := [⟨0xff, 0xff⟩, ⟨2, 2⟩, ⟨9, 2⟩, ⟨2, 2⟩, ⟨9, 2⟩]
def mappingmem5 : List MemoryMapping := [⟨0xff, 0xff⟩, ⟨3, 3⟩, ⟨10, 3⟩, ⟨3, 3⟩, ⟨10, 3⟩]
def mappingmem6 : List MemoryMapping := [⟨0xff, 0xff⟩, ⟨4, 4⟩, ⟨11, 4⟩, ⟨4, 4⟩, ⟨11, 4⟩]
def mappingmem8 : List MemoryMapping := [⟨0xff, 0xff⟩, ⟨5, 5⟩, ⟨12, 5⟩, ⟨5, 5⟩, ⟨12, 5⟩]
def mappingmem9 : List MemoryMapping := [⟨0xff, 0xff⟩, ⟨6, 6⟩, ⟨13, 6⟩, ⟨6, 6⟩, ⟨13, 6⟩]

def hashMappings : List (List MemoryMapping) :=
  [mappingmem0, mappingmem1, mappingmem2, [], [], mappingmem5, mappingmem6, [], mappingmem8,
    mappingmem9]

/-- `&mmdspMemories[mapping.memoryIndex[property]]`; `none` is an index outside the tables. -/
def memoryAt (mapping : Option MemoryMapping) (property : InstanceProperty) :
    Option (Option ElfMemoryInfo) := do
  let mapping ← mapping
  let mem ← mmdspMemories[mapping.memoryIndex property]?
  return some mem

/-- `mapping[sm]` of `hashMappings[m]` when it has so many. -/
def mappingAt (m sm : Nat) (property : InstanceProperty) : Option (Option ElfMemoryInfo) := do
  let mapping ← hashMappings[m]?
  if sm < mapping.length then memoryAt mapping[sm]? property
  else return none

def isDigit (c : UInt8) : Bool := '0'.toUInt8 ≤ c && c ≤ '9'.toUInt8

/-- The name is read character by character: `none` is a read outside the file, or of a table. -/
def getMappingByName (sectionName : Nat → Option UInt8) (property : InstanceProperty) :
    Option (Option ElfMemoryInfo) := do
  if (← sectionName 0) ≠ 'm'.toUInt8 then return none
  if (← sectionName 1) ≠ 'e'.toUInt8 then return none
  if (← sectionName 2) ≠ 'm'.toUInt8 then return none
  let c4 ← sectionName 4
  if c4 = '.'.toUInt8 then
    let c5 ← sectionName 5
    let c3 ← sectionName 3
    if isDigit c5 then
      if isDigit c3 then mappingAt (c3.toNat - 48) (c5.toNat - 48) property
      else return none
    else if c3 = '1'.toUInt8 ∧ c5 = 's'.toUInt8 then memoryAt mappingmem1[5]? property
    else return none
  else
    let c3 ← sectionName 3
    if c3 = '1'.toUInt8 ∧ c4 = '0'.toUInt8 then memoryAt (some mappingmem10) property
    else return none

/-- `pInfo`: the entries of the two arrays by purpose and type. -/
structure MemoryInfo where
  firstInstantiate : MemoryPurpose → MemoryType → UInt32
  subsequentInstantiate : MemoryPurpose → MemoryType → UInt32

def MemoryInfo.zero : MemoryInfo := ⟨fun _ _ => 0, fun _ _ => 0⟩

def addAt (statEntry : MemoryPurpose → MemoryType → UInt32) (mem : ElfMemoryInfo) (size : UInt32) :
    MemoryPurpose → MemoryType → UInt32 := fun purpose type =>
  if purpose = mem.purpose ∧ type = mem.convertedMemType then statEntry purpose type + size
  else statEntry purpose type

def calculateMemoryUsage (sh_size : UInt32) (mem : ElfMemoryInfo) (pInfo : MemoryInfo) :
    MemoryInfo :=
  let size := sh_size / mem.fileEntSize.toUInt32 * mem.memEntSize.toUInt32
  match mem.property with
  | .memSharable => { pInfo with firstInstantiate := addAt pInfo.firstInstantiate mem size }
  | .memPrivate =>
    { pInfo with subsequentInstantiate := addAt pInfo.subsequentInstantiate mem size }

inductive CmError where
  | ok
  | invalidElfFile
deriving DecidableEq

/-- `closed` counts the calls of `cm_closeComponent` with the file. -/
structure Session where
  pInfo : MemoryInfo
  closed : Nat

def closeComponent (s : Session) : Session := { s with closed := s.closed + 1 }

/-- The bytes at `EI_MAG0` to `EI_MAG3` and `EI_CLASS`. -/
def ident : List UInt8 := [0x7f, 'E'.toUInt8, 'L'.toUInt8, 'F'.toUInt8, 2]

/-- The first difference ends the comparison. -/
def identFrom (elfdata : Block) (k : Nat) : List UInt8 → Option Bool
  | [] => some true
  | magic :: rest => do
    if (← elfdata.byte? k) ≠ magic then return false
    identFrom elfdata (k + 1) rest

/-- The section header at the offset `header`; `strings` is the offset of the string table. -/
def readSection (elfdata : Block) (strings header : Nat) (pInfo : MemoryInfo) :
    Option MemoryInfo := do
  let _sh_type ← elfdata.load? (header + 4) 4
  let _sh_info ← elfdata.load? (header + 44) 4
  let _sh_link ← elfdata.load? (header + 40) 4
  let sh_size ← elfdata.load? (header + 32) 8
  let _data ← elfdata.load? (header + 24) 8
  let sh_name ← elfdata.load? header 4
  if sh_size.toUInt32 = 0 then return pInfo
  let name := strings + sh_name
  let mem ← getMappingByName (fun k => elfdata.byte? (name + k)) .multiInstance
  return mem.elim pInfo fun mem => calculateMemoryUsage sh_size.toUInt32 mem pInfo

/-- The file is open, and its content at `elfdata`. `none` is a read outside the file, or outside
`mmdspMemories` or the tables of the mappings. -/
def getComponentMemoryInfo (elfdata : Block) (pInfo : MemoryInfo) : Option (CmError × Session) := do
  let session : Session := ⟨pInfo, 0⟩
  if !(← identFrom elfdata 0 ident) then
    return (.invalidElfFile, closeComponent session)
  if (← elfdata.load? 18 2) ≠ 0xa0 then
    return (.invalidElfFile, closeComponent session)
  let nb ← elfdata.load? 60 2
  let sections ← elfdata.load? 40 8
  let shstrndx ← elfdata.load? 62 2
  let strings ← elfdata.load? (sections + 64 * shstrndx + 24) 8
  let pInfo ← (List.range nb).foldlM
    (fun pInfo i => readSection elfdata strings (sections + 64 * i) pInfo) MemoryInfo.zero
  return (.ok, closeComponent { session with pInfo })

/-- The memory of a name, which is none also where the tables name no memory. -/
def mappedMemory (name : Nat → UInt8) : Option ElfMemoryInfo :=
  (getMappingByName (fun k => some (name k)) .multiInstance).join

def MemoryInfo.entry (pInfo : MemoryInfo) : MemoryProperty → MemoryPurpose → MemoryType → UInt32
  | .memSharable => pInfo.firstInstantiate
  | .memPrivate => pInfo.subsequentInstantiate

def sectionCount (e : Block) : Nat := e.load 60 2

def headerOffset (e : Block) (i : Nat) : Nat := e.load 40 8 + 64 * i

def stringTable (e : Block) : Nat := e.load (headerOffset e (e.load 62 2) + 24) 8

def sectionSize (e : Block) (i : Nat) : Nat := e.load (headerOffset e i + 32) 8

def nameOffset (e : Block) (i : Nat) : Nat := stringTable e + e.load (headerOffset e i) 4

def sectionName (e : Block) (i k : Nat) : UInt8 := e.byte (nameOffset e i + k)

/-- What a section of that size adds to an entry when its memory is the given one. -/
def share (mem : Option ElfMemoryInfo) (size : Nat) (property : MemoryProperty)
    (purpose : MemoryPurpose) (type : MemoryType) : Nat :=
  match mem with
  | none => 0
  | some mem =>
    if mem.property = property ∧ mem.purpose = purpose ∧ mem.convertedMemType = type then
      size / mem.fileEntSize.toNat * mem.memEntSize.toNat
    else 0

def usage (e : Block) (property : MemoryProperty) (purpose : MemoryPurpose) (type : MemoryType) :
    Nat :=
  ∑ i ∈ Finset.range (sectionCount e),
    share (mappedMemory (sectionName e i)) (sectionSize e i) property purpose type

/-- The call stays inside the file and the tables, closes the file once, and either refuses the
file or reports the exact sums. -/
def ReportsMemory (e : Block) : Prop :=
  ∀ pInfo, ∃ error after, getComponentMemoryInfo e pInfo = some (error, after) ∧
    after.closed = 1 ∧
    (error = .invalidElfFile ∧ after.pInfo = pInfo ∨
      error = .ok ∧ ∀ property purpose type,
        (after.pInfo.entry property purpose type).toNat = usage e property purpose type)

/-- The file is long enough to show that it is not for this processor. -/
def Foreign (e : Block) : Prop :=
  ¬ ident <+: e.bytes ∧ ¬ e.bytes <+: ident ∨
    ident <+: e.bytes ∧ 20 ≤ e.bytes.length ∧ e.load 18 2 ≠ 0xa0

/-- The number of characters that the decoding of a name looks at. -/
def looked (name : Nat → UInt8) : Nat :=
  if name 0 ≠ 'm'.toUInt8 then 1
  else if name 1 ≠ 'e'.toUInt8 then 2
  else if name 2 ≠ 'm'.toUInt8 then 3
  else if name 4 ≠ '.'.toUInt8 then 5
  else 6

/-- The names `mem1.0`, `mem2.0` and so on, where the tables have no memory. -/
def Hole (name : Nat → UInt8) : Prop :=
  name 0 = 'm'.toUInt8 ∧ name 1 = 'e'.toUInt8 ∧ name 2 = 'm'.toUInt8 ∧ name 4 = '.'.toUInt8 ∧
    name 5 = '0'.toUInt8 ∧ name 3 ∈ "125689".toList.map Char.toUInt8

/-- A section header lies in the file, and so does the name of a section whose size is not zero as a
word; the name is not one of the holes. -/
structure SectionSound (e : Block) (i : Nat) : Prop where
  header : Inside e (headerOffset e i) 48
  name : sectionSize e i % 4294967296 ≠ 0 →
    Inside e (nameOffset e i) (looked (sectionName e i)) ∧ ¬ Hole (sectionName e i)

structure Readable (e : Block) : Prop where
  ident : ident <+: e.bytes
  machine : e.load 18 2 = 0xa0
  header : 64 ≤ e.bytes.length
  strings : Inside e (headerOffset e (e.load 62 2) + 24) 8
  sections : ∀ i < sectionCount e, SectionSound e i

/-- No section in a memory is longer than a word counts, nor are the sums. -/
structure Sound (e : Block) : Prop extends Readable e where
  sizes : ∀ i < sectionCount e, mappedMemory (sectionName e i) ≠ none →
    sectionSize e i < 4294967296
  sums : ∀ property purpose type, usage e property purpose type < 4294967296

section Names
variable {e : Block} {name : Nat → UInt8} {off : Nat}

theorem is_digit (c : UInt8) : isDigit c = true ↔ 48 ≤ c.toNat ∧ c.toNat ≤ 57 := by
  unfold isDigit
  rw [Bool.and_eq_true, decide_eq_true_iff, decide_eq_true_iff, UInt8.le_iff_toNat_le,
    UInt8.le_iff_toNat_le]
  rfl

theorem mapping_at_eq_none : ∀ m < 10, ∀ sm < 10, mappingAt m sm .multiInstance = none ↔
    sm = 0 ∧ m ∈ [1, 2, 5, 6, 8, 9] := by decide +kernel

theorem hole_digit {c : UInt8} (h : isDigit c = true) :
    c.toNat - 48 ∈ [1, 2, 5, 6, 8, 9] ↔ c ∈ "125689".toList.map Char.toUInt8 := by
  obtain ⟨hle, hge⟩ := (is_digit c).mp h
  have hmem : c ∈ "125689".toList.map Char.toUInt8 ↔
      c = 49 ∨ c = 50 ∨ c = 53 ∨ c = 54 ∨ c = 56 ∨ c = 57 := by
    simp
    rfl
  rw [hmem]
  simp only [← UInt8.toNat_inj, List.mem_cons, List.not_mem_nil, or_false, UInt8.reduceToNat]
  omega

theorem hole_isDigit : ∀ c ∈ "125689".toList.map Char.toUInt8, isDigit c = true :=
  List.all_eq_true.mp (by decide)

/-- The decoding of a name that is there looks up the tables at a hole only. -/
theorem get_mapping_eq_none :
    getMappingByName (fun k => some (name k)) .multiInstance = none ↔ Hole name := by
  unfold getMappingByName Hole
  simp only [Option.bind_eq_bind, Option.bind_some, Option.pure_def]
  split_ifs with h0 h1 h2 h4 h5 h3 hstack h10
  · exact iff_of_false id fun h => h0 h.1
  · exact iff_of_false id fun h => h1 h.2.1
  · exact iff_of_false id fun h => h2 h.2.2.1
  · have hdigit3 := (is_digit _).mp h3
    have hdigit5 := (is_digit _).mp h5
    rw [mapping_at_eq_none _ (by omega) _ (by omega), hole_digit h3]
    have hzero : (name 5).toNat - 48 = 0 ↔ name 5 = '0'.toUInt8 := by
      rw [← UInt8.toNat_inj]
      change _ ↔ (name 5).toNat = 48
      omega
    rw [hzero]
    exact ⟨fun h => ⟨not_not.mp h0, not_not.mp h1, not_not.mp h2, h4, h.1, h.2⟩,
      fun h => ⟨h.2.2.2.2.1, h.2.2.2.2.2⟩⟩
  · exact iff_of_false id fun h => h3 (hole_isDigit _ h.2.2.2.2.2)
  · exact iff_of_false (by decide) fun h => h5 (h.2.2.2.2.1 ▸ by decide)
  · exact iff_of_false id fun h => h5 (h.2.2.2.2.1 ▸ by decide)
  · exact iff_of_false (by decide) fun h => h4 h.2.2.2.1
  · exact iff_of_false id fun h => h4 h.2.2.2.1

theorem byte?_inside {n k : Nat} (h : Inside e off n) (hk : k < n) :
    e.byte? (off + k) = some (e.byte (off + k)) :=
  byte?_eq_some.mpr ⟨h.part hk, rfl⟩

/-- In the file, the characters read one by one are those of the name. -/
theorem get_mapping_inside (h : Inside e off (looked fun k => e.byte (off + k))) :
    getMappingByName (fun k => e.byte? (off + k)) .multiInstance =
      getMappingByName (fun k => some (e.byte (off + k))) .multiInstance := by
  unfold getMappingByName
  simp only [Option.bind_eq_bind, Option.bind_some, Option.pure_def]
  unfold looked at h
  split_ifs at h with h0 h1 h2 h4
  · rw [byte?_inside h (k := 0) (by decide), Option.bind_some, if_pos h0, if_pos h0]
  · rw [byte?_inside h (k := 0) (by decide), byte?_inside h (k := 1) (by decide)]
    simp only [Option.bind_some, if_pos h1]
  · rw [byte?_inside h (k := 0) (by decide), byte?_inside h (k := 1) (by decide),
      byte?_inside h (k := 2) (by decide)]
    simp only [Option.bind_some, if_pos h2]
  · rw [byte?_inside h (k := 0) (by decide), byte?_inside h (k := 1) (by decide),
      byte?_inside h (k := 2) (by decide), byte?_inside h (k := 4) (by decide),
      byte?_inside h (k := 3) (by decide)]
    simp only [Option.bind_some, if_neg h4]
  · rw [byte?_inside h (k := 0) (by decide), byte?_inside h (k := 1) (by decide),
      byte?_inside h (k := 2) (by decide), byte?_inside h (k := 4) (by decide),
      byte?_inside h (k := 3) (by decide), byte?_inside h (k := 5) (by decide)]
    rfl

/-- A decoding that ends has read characters of the file only. -/
theorem inside_of_get_mapping {out : Option ElfMemoryInfo}
    (h : getMappingByName (fun k => e.byte? (off + k)) .multiInstance = some out) :
    Inside e off (looked fun k => e.byte (off + k)) := by
  unfold getMappingByName at h
  simp only [Option.bind_eq_bind] at h
  obtain ⟨c0, hc0, h⟩ := Option.bind_eq_some_iff.mp h
  obtain ⟨hfirst, rfl⟩ := byte?_eq_some.mp hc0
  unfold looked
  by_cases h0 : e.byte (off + 0) ≠ 'm'.toUInt8
  · rw [if_pos h0]
    exact hfirst
  rw [if_neg h0] at h ⊢
  obtain ⟨c1, hc1, h⟩ := Option.bind_eq_some_iff.mp h
  obtain ⟨hinside, rfl⟩ := byte?_eq_some.mp hc1
  by_cases h1 : e.byte (off + 1) ≠ 'e'.toUInt8
  · rw [if_pos h1]
    exact hfirst.join hinside (by decide)
  rw [if_neg h1] at h ⊢
  obtain ⟨c2, hc2, h⟩ := Option.bind_eq_some_iff.mp h
  obtain ⟨hinside, rfl⟩ := byte?_eq_some.mp hc2
  by_cases h2 : e.byte (off + 2) ≠ 'm'.toUInt8
  · rw [if_pos h2]
    exact hfirst.join hinside (by decide)
  rw [if_neg h2] at h ⊢
  obtain ⟨c4, hc4, h⟩ := Option.bind_eq_some_iff.mp h
  obtain ⟨hinside, rfl⟩ := byte?_eq_some.mp hc4
  by_cases h4 : e.byte (off + 4) ≠ '.'.toUInt8
  · rw [if_pos h4]
    exact hfirst.join hinside (by decide)
  rw [if_pos (not_not.mp h4)] at h
  rw [if_neg h4]
  obtain ⟨c5, hc5, -⟩ := Option.bind_eq_some_iff.mp h
  exact hfirst.join (byte?_eq_some.mp hc5).1 (by decide)

theorem get_mapping_eq_some {out : Option ElfMemoryInfo} :
    getMappingByName (fun k => e.byte? (off + k)) .multiInstance = some out ↔
      (Inside e off (looked fun k => e.byte (off + k)) ∧ ¬ Hole fun k => e.byte (off + k)) ∧
        mappedMemory (fun k => e.byte (off + k)) = out := by
  unfold mappedMemory
  rw [← get_mapping_eq_none]
  constructor
  · intro h
    have hinside := inside_of_get_mapping h
    rw [get_mapping_inside hinside] at h
    rw [h]
    exact ⟨⟨hinside, Option.some_ne_none _⟩, rfl⟩
  · rintro ⟨⟨hinside, hsome⟩, rfl⟩
    rw [get_mapping_inside hinside]
    obtain ⟨out, hout⟩ := Option.ne_none_iff_exists'.mp hsome
    rw [hout]
    rfl

end Names

section Sections
variable {e : Block} {i : Nat} {pInfo out : MemoryInfo}

/-- What a section makes of the entries when it is read from the file. -/
def addSection (e : Block) (pInfo : MemoryInfo) (i : Nat) : MemoryInfo :=
  if (sectionSize e i).toUInt32 = 0 then pInfo
  else (mappedMemory (sectionName e i)).elim pInfo fun mem =>
    calculateMemoryUsage (sectionSize e i).toUInt32 mem pInfo

theorem word_eq_zero (n : Nat) : n.toUInt32 = 0 ↔ n % 4294967296 = 0 := by
  rw [← UInt32.toNat_inj]
  exact Iff.of_eq (congrArg (· = 0) (UInt32.toNat_ofNat' ..))

theorem load?_inside {off n k m : Nat} (h : Inside e off n) (hk : k + m ≤ n) (hpos : 0 < m)
    (hm : m ≤ 2147483648) : e.load? (off + k) m = some (e.load (off + k) m) :=
  (load?_eq_some hpos hm).mpr ⟨h.part hk, rfl⟩

theorem read_section_eq_some :
    readSection e (stringTable e) (headerOffset e i) pInfo = some out ↔
      SectionSound e i ∧ addSection e pInfo i = out := by
  unfold readSection
  simp only [Option.bind_eq_bind]
  constructor
  · intro h
    obtain ⟨_, -, h⟩ := Option.bind_eq_some_iff.mp h
    obtain ⟨_, hinfo, h⟩ := Option.bind_eq_some_iff.mp h
    obtain ⟨_, -, h⟩ := Option.bind_eq_some_iff.mp h
    obtain ⟨sh_size, hsize, h⟩ := Option.bind_eq_some_iff.mp h
    obtain ⟨_, -, h⟩ := Option.bind_eq_some_iff.mp h
    obtain ⟨sh_name, hname, h⟩ := Option.bind_eq_some_iff.mp h
    obtain ⟨-, rfl⟩ := (load?_eq_some (by decide) (by decide)).mp hsize
    obtain ⟨hlast, -⟩ := (load?_eq_some (by decide) (by decide)).mp hinfo
    obtain ⟨hfirst, rfl⟩ := (load?_eq_some (by decide) (by decide)).mp hname
    have hheader : Inside e (headerOffset e i) 48 :=
      (hfirst.front (by decide)).join hlast (by decide)
    unfold addSection
    by_cases hzero : (sectionSize e i).toUInt32 = 0
    · rw [if_pos hzero]
      rw [sectionSize] at hzero
      rw [if_pos hzero] at h
      exact ⟨⟨hheader, fun hne => absurd ((word_eq_zero _).mp hzero) hne⟩, Option.some_inj.mp h⟩
    · rw [if_neg hzero]
      rw [sectionSize] at hzero
      rw [if_neg hzero] at h
      obtain ⟨mem, hmem, h⟩ := Option.bind_eq_some_iff.mp h
      obtain ⟨hname, rfl⟩ := get_mapping_eq_some.mp hmem
      exact ⟨⟨hheader, fun _ => hname⟩, Option.some_inj.mp h⟩
  · rintro ⟨⟨hheader, hname⟩, rfl⟩
    rw [load?_inside hheader (m := 4) (by decide) (by decide) (by decide)]
    rw [load?_inside hheader (m := 4) (by decide) (by decide) (by decide)]
    rw [load?_inside hheader (m := 4) (by decide) (by decide) (by decide)]
    rw [load?_inside hheader (m := 8) (by decide) (by decide) (by decide)]
    rw [load?_inside hheader (m := 8) (by decide) (by decide) (by decide)]
    rw [(load?_eq_some (by decide) (by decide)).mpr
      ⟨hheader.front (m := 4) (by decide), rfl⟩]
    simp only [Option.bind_some]
    unfold addSection
    by_cases hzero : (sectionSize e i).toUInt32 = 0
    · rw [if_pos hzero]
      exact if_pos hzero
    · have hne : sectionSize e i % 4294967296 ≠ 0 := fun h => hzero ((word_eq_zero _).mpr h)
      rw [if_neg hzero]
      rw [sectionSize] at hzero
      have hmem := get_mapping_eq_some.mpr ⟨hname hne, rfl⟩
      rw [nameOffset] at hmem
      rw [if_neg hzero, hmem]
      rfl

theorem fold_sections_eq_some {l : List Nat} :
    l.foldlM (fun pInfo i => readSection e (stringTable e) (headerOffset e i) pInfo) pInfo =
      some out ↔ (∀ i ∈ l, SectionSound e i) ∧ l.foldl (addSection e) pInfo = out := by
  induction l generalizing pInfo with
  | nil =>
    rw [List.foldlM_nil, List.foldl_nil, Option.pure_def, Option.some_inj]
    exact (and_iff_right fun i hi => by cases hi).symm
  | cons i l ih =>
    rw [List.foldlM_cons, List.foldl_cons, List.forall_mem_cons, Option.bind_eq_bind,
      Option.bind_eq_some_iff]
    simp only [read_section_eq_some, ih]
    constructor
    · rintro ⟨_, ⟨hi, rfl⟩, hl, hout⟩
      exact ⟨⟨hi, hl⟩, hout⟩
    · rintro ⟨⟨hi, hl⟩, hout⟩
      exact ⟨_, ⟨hi, rfl⟩, hl, hout⟩

end Sections

section Sums
variable {e : Block} {i : Nat} {pInfo : MemoryInfo}
variable (property : MemoryProperty) (purpose : MemoryPurpose) (type : MemoryType)

theorem share_some (mem : ElfMemoryInfo) (size : Nat) :
    share (some mem) size property purpose type =
      if mem.property = property then
        if mem.purpose = purpose ∧ mem.convertedMemType = type then
          size / mem.fileEntSize.toNat * mem.memEntSize.toNat else 0
      else 0 :=
  ite_and ..

theorem share_zero (mem : Option ElfMemoryInfo) : share mem 0 property purpose type = 0 := by
  cases mem with
  | none => rfl
  | some mem => rw [share_some, Nat.zero_div, Nat.zero_mul, ite_self, ite_self]

theorem add_at_entry (statEntry : MemoryPurpose → MemoryType → UInt32) (mem : ElfMemoryInfo)
    (size : UInt32) : (addAt statEntry mem size purpose type).toNat =
      ((statEntry purpose type).toNat +
        if mem.purpose = purpose ∧ mem.convertedMemType = type then size.toNat else 0) %
          4294967296 := by
  unfold addAt
  by_cases h : mem.purpose = purpose ∧ mem.convertedMemType = type
  · rw [if_pos h, if_pos ⟨h.1.symm, h.2.symm⟩]
    exact UInt32.toNat_add ..
  · rw [if_neg h, if_neg fun h' => h ⟨h'.1.symm, h'.2.symm⟩]
    exact (Nat.mod_eq_of_lt (UInt32.toNat_lt _)).symm

theorem calculate_entry (sh_size : UInt32) (mem : ElfMemoryInfo) :
    ((calculateMemoryUsage sh_size mem pInfo).entry property purpose type).toNat =
      ((pInfo.entry property purpose type).toNat +
        share (some mem) sh_size.toNat property purpose type) % 4294967296 := by
  have hsize : (sh_size / mem.fileEntSize.toUInt32 * mem.memEntSize.toUInt32).toNat =
      sh_size.toNat / mem.fileEntSize.toNat * mem.memEntSize.toNat % 4294967296 := by
    rw [UInt32.toNat_mul, UInt32.toNat_div, UInt8.toNat_toUInt32, UInt8.toNat_toUInt32]
  have hsame : ∀ statEntry : MemoryPurpose → MemoryType → UInt32,
      (addAt statEntry mem (sh_size / mem.fileEntSize.toUInt32 * mem.memEntSize.toUInt32)
        purpose type).toNat = ((statEntry purpose type).toNat +
          if mem.purpose = purpose ∧ mem.convertedMemType = type then
            sh_size.toNat / mem.fileEntSize.toNat * mem.memEntSize.toNat else 0) %
              4294967296 := by
    intro statEntry
    rw [add_at_entry, hsize]
    split_ifs
    · rw [Nat.add_mod_mod]
    · rfl
  have hother : (pInfo.entry property purpose type).toNat =
      ((pInfo.entry property purpose type).toNat + 0) % 4294967296 :=
    (Nat.mod_eq_of_lt (UInt32.toNat_lt _)).symm
  unfold calculateMemoryUsage
  rw [share_some]
  cases hmem : mem.property with
  | memSharable =>
    cases property with
    | memSharable =>
      rw [if_pos rfl]
      exact hsame _
    | memPrivate =>
      rw [if_neg fun h => by cases h]
      exact hother
  | memPrivate =>
    cases property with
    | memSharable =>
      rw [if_neg fun h => by cases h]
      exact hother
    | memPrivate =>
      rw [if_pos rfl]
      exact hsame _

theorem add_section_entry :
    ((addSection e pInfo i).entry property purpose type).toNat =
      ((pInfo.entry property purpose type).toNat + share (mappedMemory (sectionName e i))
        (sectionSize e i % 4294967296) property purpose type) % 4294967296 := by
  have hsize : (sectionSize e i).toUInt32.toNat = sectionSize e i % 4294967296 :=
    UInt32.toNat_ofNat' ..
  have hother : (pInfo.entry property purpose type).toNat =
      ((pInfo.entry property purpose type).toNat + 0) % 4294967296 :=
    (Nat.mod_eq_of_lt (UInt32.toNat_lt _)).symm
  unfold addSection
  cases mappedMemory (sectionName e i) with
  | none =>
    rw [Option.elim_none, ite_self]
    exact hother
  | some mem =>
    rw [← hsize, Option.elim_some]
    split_ifs with hzero
    · rw [hzero, UInt32.toNat_zero, share_zero]
      exact hother
    · exact calculate_entry property purpose type _ mem

/-- The entries hold the sums of the sizes as words, reduced to a word. -/
theorem fold_entry (n : Nat) :
    (((List.range n).foldl (addSection e) .zero).entry property purpose type).toNat =
      (∑ i ∈ Finset.range n, share (mappedMemory (sectionName e i))
        (sectionSize e i % 4294967296) property purpose type) % 4294967296 := by
  induction n with
  | zero =>
    cases property <;> rfl
  | succ n ih =>
    rw [List.range_succ, List.foldl_append, List.foldl_cons, List.foldl_nil, add_section_entry,
      ih, Finset.sum_range_succ, Nat.mod_add_mod]

end Sums

section Call
variable {e : Block}

theorem byte?_eq_head? {k : Nat} (hk : k < 4294967296) :
    e.byte? k = (e.bytes.drop k).head? := by
  unfold Block.byte?
  rw [Nat.mod_eq_of_lt hk, List.head?_drop]

/-- The comparison ends where the two differ or where the expected bytes end; a file that ends
before is read outside. -/
theorem ident_from_spec {l : List UInt8} {k : Nat} (hk : k + l.length ≤ 4294967296) :
    (identFrom e k l = some true ↔ l <+: e.bytes.drop k) ∧
      (identFrom e k l = some false ↔ ¬ l <+: e.bytes.drop k ∧ ¬ e.bytes.drop k <+: l) := by
  induction l generalizing k with
  | nil => exact ⟨iff_of_true rfl List.nil_prefix,
      iff_of_false (fun h => by cases h) fun h => h.1 List.nil_prefix⟩
  | cons magic l ih =>
    rw [List.length_cons] at hk
    obtain ⟨ihtrue, ihfalse⟩ := ih (k := k + 1) (by omega)
    unfold identFrom
    rw [byte?_eq_head? (by omega)]
    rw [← List.tail_drop] at ihtrue ihfalse
    cases hdrop : e.bytes.drop k with
    | nil =>
      refine ⟨iff_of_false (fun h => by cases h) fun h => ?_,
        iff_of_false (fun h => by cases h) fun h => h.2 List.nil_prefix⟩
      cases List.prefix_nil.mp h
    | cons b rest =>
      rw [hdrop, List.tail_cons] at ihtrue ihfalse
      simp only [List.head?_cons, Option.bind_eq_bind, Option.bind_some, List.cons_prefix_cons]
      by_cases hb : b = magic
      · subst hb
        simp only [ne_eq, not_true_eq_false, if_false, true_and]
        exact ⟨ihtrue, ihfalse⟩
      · rw [if_pos hb]
        exact ⟨iff_of_false (fun h => by cases h) fun h => hb h.1.symm,
          iff_of_true rfl ⟨fun h => hb h.1.symm, fun h => hb h.1⟩⟩

/-- The entries after the sections are read. -/
def report (e : Block) : MemoryInfo := (List.range (sectionCount e)).foldl (addSection e) .zero

theorem inside_header {k m : Nat} (hk : k + m ≤ 4294967296) (hm : 0 < m) :
    Inside e k m ↔ k + m ≤ e.bytes.length := by
  unfold Inside
  rw [Nat.mod_eq_of_lt (by omega)]

theorem load?_header {k m : Nat} (h : k + m ≤ e.bytes.length) (hm : 0 < m) :
    e.load? k m = some (e.load k m) := by
  have hsize := e.size_le
  exact (load?_eq_some hm (by omega)).mpr ⟨(inside_header (by omega) hm).mpr h, rfl⟩

theorem get_info_foreign (h : Foreign e) (pInfo : MemoryInfo) :
    getComponentMemoryInfo e pInfo = some (.invalidElfFile, ⟨pInfo, 1⟩) := by
  obtain ⟨htrue, hfalse⟩ := ident_from_spec (e := e) (l := ident) (k := 0) (by decide)
  unfold getComponentMemoryInfo
  rcases h with hdiffer | ⟨hident, hlong, hmachine⟩
  · rw [hfalse.mpr hdiffer]
    rfl
  · rw [htrue.mpr hident, Option.bind_eq_bind, Option.bind_some,
      load?_header (show 18 + 2 ≤ _ from hlong) (by decide)]
    exact if_pos hmachine

theorem get_info_readable (h : Readable e) (pInfo : MemoryInfo) :
    getComponentMemoryInfo e pInfo = some (.ok, ⟨report e, 1⟩) := by
  obtain ⟨htrue, -⟩ := ident_from_spec (e := e) (l := ident) (k := 0) (by decide)
  have hlong := h.header
  have hfold : (List.range (sectionCount e)).foldlM
      (fun pInfo i => readSection e (stringTable e) (headerOffset e i) pInfo) .zero =
        some (report e) :=
    fold_sections_eq_some.mpr ⟨fun i hi => h.sections i (List.mem_range.mp hi), rfl⟩
  unfold getComponentMemoryInfo
  rw [htrue.mpr h.ident, load?_header (k := 18) (m := 2) (by omega) (by decide),
    load?_header (k := 60) (m := 2) (by omega) (by decide),
    load?_header (k := 40) (m := 8) (by omega) (by decide),
    load?_header (k := 62) (m := 2) (by omega) (by decide)]
  simp only [Option.bind_eq_bind, Option.bind_some]
  rw [if_neg (by decide), if_neg (not_not.mpr h.machine)]
  have hstrings : e.load? (headerOffset e (e.load 62 2) + 24) 8 = some (stringTable e) :=
    (load?_eq_some (by decide) (by decide)).mpr ⟨h.strings, rfl⟩
  rw [headerOffset] at hstrings
  rw [hstrings, Option.bind_some]
  exact Option.bind_eq_some_iff.mpr ⟨_, hfold, rfl⟩

/-- A call that ends has found the file to be one of the two. -/
theorem foreign_or_readable {pInfo : MemoryInfo} {out : CmError × Session}
    (h : getComponentMemoryInfo e pInfo = some out) : Foreign e ∨ Readable e := by
  obtain ⟨htrue, hfalse⟩ := ident_from_spec (e := e) (l := ident) (k := 0) (by decide)
  unfold getComponentMemoryInfo at h
  simp only [Option.bind_eq_bind] at h
  obtain ⟨same, hsame, h⟩ := Option.bind_eq_some_iff.mp h
  cases same with
  | false => exact .inl (.inl (hfalse.mp hsame))
  | true =>
    rw [if_neg (by decide)] at h
    obtain ⟨_, hmachine, h⟩ := Option.bind_eq_some_iff.mp h
    obtain ⟨hlong, rfl⟩ := (load?_eq_some (by decide) (by decide)).mp hmachine
    by_cases hne : e.load 18 2 = 0xa0
    · rw [if_neg (not_not.mpr hne)] at h
      obtain ⟨_, hnb, h⟩ := Option.bind_eq_some_iff.mp h
      obtain ⟨_, hshoff, h⟩ := Option.bind_eq_some_iff.mp h
      obtain ⟨_, hidx, h⟩ := Option.bind_eq_some_iff.mp h
      obtain ⟨_, htable, h⟩ := Option.bind_eq_some_iff.mp h
      obtain ⟨_, hfold, -⟩ := Option.bind_eq_some_iff.mp h
      obtain ⟨-, rfl⟩ := (load?_eq_some (by decide) (by decide)).mp hnb
      obtain ⟨-, rfl⟩ := (load?_eq_some (by decide) (by decide)).mp hshoff
      obtain ⟨hheader, rfl⟩ := (load?_eq_some (by decide) (by decide)).mp hidx
      obtain ⟨hstrings, rfl⟩ := (load?_eq_some (by decide) (by decide)).mp htable
      obtain ⟨hsections, -⟩ := fold_sections_eq_some.mp hfold
      exact .inr ⟨htrue.mp hsame, hne, (inside_header (by decide) (by decide)).mp hheader,
        hstrings, fun i hi => hsections i (List.mem_range.mpr hi)⟩
    · exact .inl (.inr ⟨htrue.mp hsame, (inside_header (by decide) (by decide)).mp hlong, hne⟩)

end Call

section Exact
variable {name : Nat → UInt8} {size : Nat} {mem : ElfMemoryInfo}
variable (property : MemoryProperty) (purpose : MemoryPurpose) (type : MemoryType)

theorem memory_at_mem {mapping : Option MemoryMapping} {property : InstanceProperty}
    (h : memoryAt mapping property = some (some mem)) : mem ∈ mmdspMemories := by
  obtain ⟨mapping, -, h⟩ := Option.bind_eq_some_iff.mp h
  obtain ⟨found, hfound, h⟩ := Option.bind_eq_some_iff.mp h
  cases h
  exact List.mem_of_getElem? hfound

theorem mapping_at_mem {m sm : Nat} {property : InstanceProperty}
    (h : mappingAt m sm property = some (some mem)) : mem ∈ mmdspMemories := by
  obtain ⟨mapping, -, h⟩ := Option.bind_eq_some_iff.mp h
  split_ifs at h
  · exact memory_at_mem h
  · cases h

theorem mapped_memory_mem (h : mappedMemory name = some mem) : mem ∈ mmdspMemories := by
  have hget := Option.join_eq_some_iff.mp h
  unfold getMappingByName at hget
  simp only [Option.bind_eq_bind, Option.bind_some, Option.pure_def] at hget
  split_ifs at hget with h0 h1 h2 h4 h5 h3 hstack h10
  · cases hget
  · cases hget
  · cases hget
  · exact mapping_at_mem hget
  · cases hget
  · exact memory_at_mem hget
  · cases hget
  · exact memory_at_mem hget
  · cases hget

theorem entry_sizes : ∀ mem ∈ mmdspMemories, 0 < mem.fileEntSize.toNat ∧
    mem.fileEntSize.toNat ≤ 8 ∧ 0 < mem.memEntSize.toNat := by decide

theorem share_le (m : Option ElfMemoryInfo) {size' : Nat} (h : size' ≤ size) :
    share m size' property purpose type ≤ share m size property purpose type := by
  cases m with
  | none => exact Nat.le_refl _
  | some mem =>
    rw [share_some, share_some]
    split_ifs
    · exact Nat.mul_le_mul_right _ (Nat.div_le_div_right h)
    · exact Nat.le_refl _
    · exact Nat.le_refl _

/-- In its own entry a section is counted exactly only when its size is a word. -/
theorem size_of_share_eq (hmem : mem ∈ mmdspMemories)
    (h : share (some mem) (size % 4294967296) mem.property mem.purpose mem.convertedMemType =
      share (some mem) size mem.property mem.purpose mem.convertedMemType) :
    size < 4294967296 := by
  obtain ⟨hpos, hle, hmul⟩ := entry_sizes mem hmem
  rw [share_some, share_some, if_pos rfl, if_pos ⟨rfl, rfl⟩, if_pos rfl, if_pos ⟨rfl, rfl⟩] at h
  have hdiv := Nat.eq_of_mul_eq_mul_right hmul h
  by_contra hlong
  have hless : size % 4294967296 + mem.fileEntSize.toNat ≤ size := by omega
  have hquot := Nat.div_le_div_right (c := mem.fileEntSize.toNat) hless
  rw [Nat.add_div_right _ hpos] at hquot
  omega

end Exact

/-- The call is as promised exactly for the files that are refused early and those that keep to
the file, to the tables and to the words. -/
theorem reports_memory_iff (e : Block) : ReportsMemory e ↔ Foreign e ∨ Sound e := by
  have hle : ∀ property purpose type, ∀ i ∈ Finset.range (sectionCount e),
      share (mappedMemory (sectionName e i)) (sectionSize e i % 4294967296) property purpose type ≤
        share (mappedMemory (sectionName e i)) (sectionSize e i) property purpose type :=
    fun property purpose type i _ => share_le property purpose type _ (Nat.mod_le _ _)
  constructor
  · intro h
    obtain ⟨error, after, hrun, -, hentries⟩ := h .zero
    refine (foreign_or_readable hrun).imp_right fun hreadable => ?_
    rw [get_info_readable hreadable] at hrun
    cases hrun
    have hsum : ∀ property purpose type, (∑ i ∈ Finset.range (sectionCount e),
        share (mappedMemory (sectionName e i)) (sectionSize e i % 4294967296) property purpose
          type) % 4294967296 = usage e property purpose type := by
      intro property purpose type
      rcases hentries with ⟨hinvalid, -⟩ | ⟨-, hentries⟩
      · cases hinvalid
      · rw [← hentries property purpose type]
        exact (fold_entry property purpose type _).symm
    have hpointwise : ∀ property purpose type, ∀ i ∈ Finset.range (sectionCount e),
        share (mappedMemory (sectionName e i)) (sectionSize e i % 4294967296) property purpose
          type = share (mappedMemory (sectionName e i)) (sectionSize e i) property purpose
            type := by
      intro property purpose type
      refine (Finset.sum_eq_sum_iff_of_le (hle property purpose type)).mp ?_
      refine Nat.le_antisymm (Finset.sum_le_sum (hle property purpose type)) ?_
      exact Nat.le_trans (Nat.le_of_eq (hsum property purpose type).symm) (Nat.mod_le _ _)
    refine ⟨hreadable, fun i hi hmapped => ?_, fun property purpose type => ?_⟩
    · obtain ⟨mem, hmem⟩ := Option.ne_none_iff_exists'.mp hmapped
      have hshare := hpointwise mem.property mem.purpose mem.convertedMemType i
        (Finset.mem_range.mpr hi)
      rw [hmem] at hshare
      exact size_of_share_eq (mapped_memory_mem hmem) hshare
    · rw [← hsum]
      exact Nat.mod_lt _ (by decide)
  · rintro (hforeign | hsound) pInfo
    · exact ⟨_, _, get_info_foreign hforeign pInfo, rfl, .inl ⟨rfl, rfl⟩⟩
    · refine ⟨_, _, get_info_readable hsound.toReadable pInfo, rfl, .inr ⟨rfl, ?_⟩⟩
      intro property purpose type
      have hshares : ∀ i ∈ Finset.range (sectionCount e),
          share (mappedMemory (sectionName e i)) (sectionSize e i % 4294967296) property purpose
            type = share (mappedMemory (sectionName e i)) (sectionSize e i) property purpose
              type := by
        intro i hi
        have hsize := hsound.sizes i (Finset.mem_range.mp hi)
        cases hmem : mappedMemory (sectionName e i) with
        | none => rfl
        | some mem =>
          rw [hmem] at hsize
          rw [Nat.mod_eq_of_lt (hsize (Option.some_ne_none _))]
      refine (fold_entry property purpose type _).trans ?_
      rw [Finset.sum_congr rfl hshares]
      exact Nat.mod_eq_of_lt (hsound.sums property purpose type)

/-- A file with one section header and one section, the table of the names, whose name is
`mem1.0`. -/
def holeFile : Block where
  bytes := ident ++ List.replicate 13 0 ++ [0, 0xa0] ++ List.replicate 20 0 ++
    [0, 0, 0, 0, 0, 0, 0, 64] ++ List.replicate 12 0 ++ [0, 1, 0, 0] ++
    ([0, 0, 0, 0] ++ List.replicate 20 0 ++ [0, 0, 0, 0, 0, 0, 0, 128] ++
      [0, 0, 0, 0, 0, 0, 0, 7] ++ List.replicate 24 0) ++
    "mem1.0\x00".toList.map Char.toUInt8
  size_le := by decide +kernel

theorem hole_file_not_reported : ¬ ReportsMemory holeFile := by
  intro h
  obtain ⟨error, after, hrun, -⟩ := h .zero
  have hnone : (getComponentMemoryInfo holeFile .zero).isNone = true := by decide +kernel
  rw [hrun] at hnone
  cases hnone

end Codinalte.CmProxy.ComponentInfo
