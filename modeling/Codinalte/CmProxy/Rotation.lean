import Mathlib.Algebra.Group.Nat.Defs
import Mathlib.Data.List.Sort
import Mathlib.Data.List.TakeWhile
import Mathlib.Order.Lattice
import Codinalte.Lib.RunningLeast

/-! The rotation of the coredump directories: before a new one is made, the oldest of those that are
there are removed. -/

namespace Codinalte.CmProxy.Rotation
open RunningLeast

abbrev Name := List Char

def maxFileCount : UInt8 := 10
def timestampOffset : Nat := 30
def dumpPrefix : Name := ['m', 'm', 'd', 's', 'p', '-']

/-- `time_t` has 32 bits. -/
def longMax : Int := 2147483647

/-- The contents of a directory. A link is removed as a file is. -/
inductive Content where
  | empty
  | file (name : Name) (rest : Content)
  | directory (name : Name) (content rest : Content)
deriving DecidableEq

/-- Which calls go through, for each path; `lstat` is that and the `malloc` before it. -/
structure Sys where
  chdir : Bool
  opendir : List Name → Bool
  lstat : List Name → Bool
  unlink : List Name → Bool
  rmdir : List Name → Bool

/-- The loop over an opened directory has run; the directory itself is removed if it was left with
status 0. -/
def closeDirectory (sys : Sys) (path : List Name) (content : Content) (entries : Int × Content) :
    Int × Option Content :=
  if !sys.chdir || !sys.opendir path then (-1, some content)
  else if entries.1 = 0 then
    if sys.rmdir path ∧ entries.2 = .empty then (0, none) else (-1, some entries.2)
  else (entries.1, some entries.2)

/-- The loop of `remove_directory`, with what is left of the directory. -/
def removeEntries (sys : Sys) (path : List Name) : Content → Int × Content
  | .empty => (0, .empty)
  | .file name rest =>
    if sys.lstat (name :: path) then
      if sys.unlink (name :: path) then removeEntries sys path rest else (-1, .file name rest)
    else
      let (status, rest) := removeEntries sys path rest
      (status, .file name rest)
  | .directory name content rest =>
    if sys.lstat (name :: path) then
      match closeDirectory sys (name :: path) content
        (removeEntries sys (name :: path) content) with
      | (_, none) => removeEntries sys path rest
      | (status, some content) => (status, .directory name content rest)
    else
      let (status, rest) := removeEntries sys path rest
      (status, .directory name content rest)

/-- `remove_directory` with a name in the dump path, where these directories are. -/
def removeDirectory (sys : Sys) (directories : List (Name × Content)) (path : Name) :
    Int × List (Name × Content) :=
  match directories.find? fun d => d.1 = path with
  | none => (-1, directories)
  | some (_, content) =>
    match closeDirectory sys [path] content (removeEntries sys [path] content) with
    | (status, none) => (status, directories.filter fun d => d.1 ≠ path)
    | (status, some content) =>
      (status, directories.map fun d => if d.1 = path then (path, content) else d)

def strcmp : Name → Name → Int
  | [], [] => 0
  | [], _ :: _ => -1
  | _ :: _, [] => 1
  | a :: s, b :: t => if a = b then strcmp s t else (a.toNat : Int) - b.toNat

def isspace (c : Char) : Bool := c = ' ' || (9 ≤ c.toNat && c.toNat ≤ 13)

def atoi (text : Name) : Int :=
  let text := text.dropWhile isspace
  let value (digits : Name) : Int := Nat.ofDigitChars 10 (digits.takeWhile Char.isDigit) 0
  if text.head? = some '-' then -value text.tail
  else if text.head? = some '+' then value text.tail
  else value text

inductive Core where
  | sva
  | sia
deriving DecidableEq

def Core.text : Core → Name
  | .sva => ['S', 'V', 'A']
  | .sia => ['S', 'I', 'A']

/-- `struct tm` as `localtime` fills it; a year of a `time_t` of 32 bits has four digits. -/
structure Tm where
  year : Nat
  mon : Nat
  mday : Nat
  hour : Nat
  min : Nat
  sec : Nat
  four : 1000 ≤ year ∧ year ≤ 9999
  range : mon ≤ 12 ∧ mday ≤ 31 ∧ hour ≤ 23 ∧ min ≤ 59 ∧ sec ≤ 60
deriving DecidableEq

/-- `"%d"` -/
def decimal (n : Int) : Name :=
  if n < 0 then '-' :: Nat.toDigits 10 n.natAbs else Nat.toDigits 10 n.toNat

/-- `"%.2d"` -/
def twoDigits (n : Nat) : Name :=
  if n < 10 then '0' :: Nat.toDigits 10 n else Nat.toDigits 10 n

/-- A dump directory, of a core and with the time at which it was made. -/
structure Dump where
  core : Core
  time : Tm
  timestamp : Int
  content : Content
  int : -2147483648 ≤ timestamp ∧ timestamp ≤ 2147483647
deriving DecidableEq

/-- `"%s%s_%d-%.2d-%.2d_%.2d-%.2d-%.2d_%d"` -/
def Dump.name (d : Dump) : Name :=
  dumpPrefix ++ d.core.text ++ '_' :: Nat.toDigits 10 d.time.year ++ '-' :: twoDigits d.time.mon ++
    '-' :: twoDigits d.time.mday ++ '_' :: twoDigits d.time.hour ++ '-' :: twoDigits d.time.min ++
    '-' :: twoDigits d.time.sec ++ '_' :: decimal d.timestamp

/-- An entry of the dump path. -/
inductive Dirent where
  | dump (d : Dump)
  | other (name : Name) (h : ¬dumpPrefix <+: name)

def Dirent.d_name : Dirent → Name
  | .dump d => d.name
  | .other name _ => name

def Dirent.dump? : Dirent → Option Dump
  | .dump d => some d
  | .other _ _ => none

/-- The dump path, in the order in which it is read. -/
structure DumpPath where
  entries : List Dirent
  distinct : ((entries.filterMap Dirent.dump?).map Dump.timestamp).Nodup

def DumpPath.dumps (x : DumpPath) : List Dump := x.entries.filterMap Dirent.dump?

def sort (a b : Dirent) : Int := strcmp a.d_name b.d_name

def scandir (x : DumpPath) : List Dirent := x.entries.insertionSort fun a b => sort a b ≤ 0

/-- The variables of the rotation, the directories that are there, and the calls of
`remove_directory` with their results. -/
structure State where
  dir_name : Name
  dir_timestamp : Int
  file_count : UInt8
  directories : List (Name × Content)
  removed : List Name
  results : List Int

/-- The oldest directory is held. -/
def State.hold (s : State) (d_name : Name) : State :=
  let filetimestamp := atoi (d_name.drop timestampOffset)
  if filetimestamp < s.dir_timestamp then
    { s with dir_name := d_name, dir_timestamp := filetimestamp }
  else s

def State.remove (sys : Nat → Sys) (s : State) : State :=
  let (status, directories) := removeDirectory (sys s.removed.length) s.directories s.dir_name
  { s with directories, removed := s.removed ++ [s.dir_name], results := s.results ++ [status] }

/-- One pass of the loop; `sys` says which calls go through in each removal. -/
def step (sys : Nat → Sys) (s : State) (d_name : Name) : State :=
  if dumpPrefix.isPrefixOf d_name then
    let s := s.hold d_name
    let s := { s with file_count := s.file_count + 1 }
    if maxFileCount < s.file_count then s.remove sys else s
  else s

/-- `dir_name` has no value at first. -/
def start (x : DumpPath) (dir_name : Name) : State :=
  ⟨dir_name, longMax, 0, x.dumps.map fun d => (d.name, d.content), [], []⟩

def rotation (sys : Nat → Sys) (x : DumpPath) (dir_name : Name) : State :=
  (((scandir x).reverse).map Dirent.d_name).foldl (step sys) (start x dir_name)

/-- The dump directories that remain. -/
def State.remaining (s : State) (x : DumpPath) : List Dump :=
  x.dumps.filter fun d => d.name ∈ s.directories.map Prod.fst

/-- The oldest directories are passed, each once, and when all removals succeed the newest ones
remain. -/
def Rotates (x : DumpPath) : Prop :=
  ∀ sys dir_name, ∃ oldest,
    (rotation sys x dir_name).removed = oldest.map Dump.name ∧
    Lowest Dump.timestamp x.dumps oldest (x.dumps.length - maxFileCount.toNat) ∧
    ((∀ status ∈ (rotation sys x dir_name).results, status = 0) →
      ((rotation sys x dir_name).remaining x).length =
        min x.dumps.length maxFileCount.toNat ∧
      ∀ d ∈ (rotation sys x dir_name).remaining x, ∀ d' ∈ x.dumps,
        d' ∉ (rotation sys x dir_name).remaining x → d'.timestamp < d.timestamp)

/-- The dump directories as the loop comes to them: the last name first. -/
def DumpPath.listed (x : DumpPath) : List Dump := (scandir x).reverse.filterMap Dirent.dump?

/-- There are no more than `MAX_FILE_COUNT`; or no more than the counter can hold, and each that
has more than `MAX_FILE_COUNT` before it is older than all of these. -/
def OldestLast (x : DumpPath) : Prop :=
  x.dumps.length ≤ maxFileCount.toNat ∨ x.dumps.length ≤ 255 ∧
    ∀ before d after, x.listed = before ++ d :: after → maxFileCount.toNat < before.length →
      ∀ d' ∈ before, d.timestamp < d'.timestamp

section Names
variable {n k : Nat} {d d' : Dump}

theorem length_to_digits (hlow : 10 ^ (k + 1) ≤ n) (hhigh : n < 10 ^ (k + 2)) :
    (Nat.toDigits 10 n).length = k + 2 := by
  have hle := (Nat.length_toDigits_le_iff (by decide) (Nat.succ_pos (k + 1))).mpr hhigh
  have hnot : ¬(Nat.toDigits 10 n).length ≤ k + 1 := fun h =>
    Nat.not_lt.mpr hlow ((Nat.length_toDigits_le_iff (by decide) (Nat.succ_pos k)).mp h)
  omega

theorem length_two_digits (h : n < 100) : (twoDigits n).length = 2 := by
  unfold twoDigits
  split_ifs with hlt
  · rw [Nat.toDigits_of_lt_base hlt]
    rfl
  · exact length_to_digits (k := 0) (not_lt.mp hlt) h

theorem is_digit_of_mem {c : Char} (h : c ∈ Nat.toDigits 10 n) : c.isDigit = true :=
  Nat.isDigit_of_mem_toDigits (by decide) (by decide) h

theorem value_to_digits :
    Nat.ofDigitChars 10 ((Nat.toDigits 10 n).takeWhile Char.isDigit) 0 = n := by
  rw [List.takeWhile_eq_self_iff.mpr fun c hc => is_digit_of_mem hc]
  exact Nat.ofDigitChars_ten_toDigits

theorem isspace_of_digit {c : Char} (h : c.isDigit = true) : isspace c = false := by
  unfold Char.isDigit at h
  rw [Bool.and_eq_true, decide_eq_true_iff, decide_eq_true_iff] at h
  have hlow : 48 ≤ c.toNat := UInt32.le_iff_toNat_le.mp h.1
  unfold isspace
  rw [Bool.or_eq_false_iff, Bool.and_eq_false_iff, decide_eq_false_iff_not,
    decide_eq_false_iff_not, decide_eq_false_iff_not]
  refine ⟨?_, .inr (by omega)⟩
  rintro rfl
  revert hlow
  decide

/-- A number starts with no space and no sign. -/
theorem head_to_digits : ∃ c rest, Nat.toDigits 10 n = c :: rest ∧ isspace c = false ∧
    c ≠ '-' ∧ c ≠ '+' := by
  cases hdigits : Nat.toDigits 10 n with
  | nil => exact absurd hdigits Nat.toDigits_ne_nil
  | cons c rest =>
    have hc : c.isDigit = true := is_digit_of_mem (hdigits ▸ List.mem_cons_self)
    refine ⟨c, rest, rfl, isspace_of_digit hc, ?_, ?_⟩
    · rintro rfl
      cases hc
    · rintro rfl
      cases hc

theorem atoi_to_digits : atoi (Nat.toDigits 10 n) = n := by
  obtain ⟨c, rest, hdigits, hspace, hminus, hplus⟩ := head_to_digits (n := n)
  have hvalue := value_to_digits (n := n)
  rw [hdigits] at hvalue ⊢
  unfold atoi
  rw [List.dropWhile_cons_of_neg (by rw [hspace]; exact Bool.false_ne_true)]
  exact ((if_neg fun h => hminus (Option.some_inj.mp h)).trans
    (if_neg fun h => hplus (Option.some_inj.mp h))).trans (congrArg Nat.cast hvalue)

theorem atoi_decimal (t : Int) : atoi (decimal t) = t := by
  unfold decimal
  split_ifs with h
  · have hatoi : atoi ('-' :: Nat.toDigits 10 t.natAbs) = -(t.natAbs : Int) :=
      congrArg (fun v : Nat => -(v : Int)) value_to_digits
    rw [hatoi]
    omega
  · rw [atoi_to_digits]
    omega

theorem drop_name (d : Dump) : d.name.drop timestampOffset = decimal d.timestamp := by
  have hyear := length_to_digits (k := 2) d.time.four.1 (Nat.lt_succ_of_le d.time.four.2)
  have hrange := d.time.range
  have hcore : d.core.text.length = 3 := by
    cases d.core with
    | sva => rfl
    | sia => rfl
  have hmon := length_two_digits (show d.time.mon < 100 by omega)
  have hmday := length_two_digits (show d.time.mday < 100 by omega)
  have hhour := length_two_digits (show d.time.hour < 100 by omega)
  have hmin := length_two_digits (show d.time.min < 100 by omega)
  have hsec := length_two_digits (show d.time.sec < 100 by omega)
  unfold Dump.name
  rw [List.append_cons _ '_' (decimal _)]
  refine List.drop_left' ?_
  simp only [List.length_append, List.length_cons, List.length_nil, hyear, hcore, hmon, hmday,
    hhour, hmin, hsec]
  rfl

theorem atoi_name (d : Dump) : atoi (d.name.drop timestampOffset) = d.timestamp := by
  rw [drop_name, atoi_decimal]

theorem timestamp_eq (h : d.name = d'.name) : d.timestamp = d'.timestamp := by
  rw [← atoi_name, h, atoi_name]

theorem prefix_name (d : Dump) : dumpPrefix.isPrefixOf d.name = true := by
  rw [List.isPrefixOf_iff_prefix]
  unfold Dump.name
  simp only [List.append_assoc, List.cons_append]
  exact List.prefix_append _ _

end Names

section Directories
variable {sys : Sys} {directories : List (Name × Content)} {path name : Name}

theorem close_directory_status {path : List Name} {content : Content} {entries : Int × Content} :
    (closeDirectory sys path content entries).1 = 0 ↔
      (closeDirectory sys path content entries).2 = none := by
  unfold closeDirectory
  split_ifs with hopen hstatus hempty
  · exact iff_of_false (by decide : (-1 : Int) ≠ 0) (fun h => by cases h)
  · exact iff_of_true rfl rfl
  · exact iff_of_false (by decide : (-1 : Int) ≠ 0) (fun h => by cases h)
  · exact iff_of_false hstatus (fun h => by cases h)

/-- A removal that succeeds takes away the directory of that name and no other one. -/
theorem mem_remove_directory (h : (removeDirectory sys directories path).1 = 0) :
    name ∈ (removeDirectory sys directories path).2.map Prod.fst ↔
      name ∈ directories.map Prod.fst ∧ name ≠ path := by
  unfold removeDirectory at h ⊢
  cases hfind : directories.find? fun d => d.1 = path with
  | none =>
    rw [hfind] at h
    cases h
  | some d =>
    obtain ⟨name', content⟩ := d
    rw [hfind] at h
    dsimp only at h ⊢
    have hstatus : (closeDirectory sys [path] content (removeEntries sys [path] content)).1 = 0 ↔
        (closeDirectory sys [path] content (removeEntries sys [path] content)).2 = none :=
      close_directory_status
    rcases hclose : closeDirectory sys [path] content (removeEntries sys [path] content) with
      ⟨status, left⟩
    rw [hclose] at h hstatus
    cases left with
    | some content' => cases hstatus.mp h
    | none =>
      constructor
      · intro hname
        obtain ⟨d, hd, rfl⟩ := List.mem_map.mp hname
        have hd' := List.mem_filter.mp hd
        exact ⟨List.mem_map_of_mem hd'.1, of_decide_eq_true hd'.2⟩
      · rintro ⟨hname, hne⟩
        obtain ⟨d, hd, rfl⟩ := List.mem_map.mp hname
        exact List.mem_map_of_mem (List.mem_filter.mpr ⟨hd, decide_eq_true hne⟩)

end Directories

section Loop
variable {sys : Nat → Sys} {s : State} {d m : Dump} {name : Name} {names : List Name}

/-- When all removals succeed, the directories are those at first without the removed ones. -/
def Taken (first : List Name) (s : State) : Prop :=
  (∀ status ∈ s.results, status = 0) →
    ∀ name, name ∈ s.directories.map Prod.fst ↔ name ∈ first ∧ name ∉ s.removed

theorem taken_remove {first : List Name} (h : Taken first s) : Taken first (s.remove sys) := by
  intro hresults name
  have hlast : (removeDirectory (sys s.removed.length) s.directories s.dir_name).1 = 0 :=
    hresults _ (List.mem_append_right _ List.mem_cons_self)
  have hbefore := h (fun status hs => hresults status (List.mem_append_left _ hs)) name
  refine (mem_remove_directory hlast).trans ?_
  change _ ↔ name ∈ first ∧ name ∉ s.removed ++ [s.dir_name]
  rw [hbefore, List.mem_append, List.mem_singleton, not_or, and_assoc]

theorem taken_hold {first : List Name} (h : Taken first s) : Taken first (s.hold name) := by
  unfold State.hold
  dsimp only
  split_ifs
  · exact h
  · exact h

theorem taken_step {first : List Name} (h : Taken first s) : Taken first (step sys s name) := by
  unfold step
  dsimp only
  split_ifs
  · have hcounted : Taken first { s.hold name with file_count := (s.hold name).file_count + 1 } :=
      taken_hold h
    exact taken_remove hcounted
  · exact taken_hold h
  · exact h

theorem taken_run {first : List Name} (h : Taken first s) :
    Taken first (names.foldl (step sys) s) := by
  induction names generalizing s with
  | nil => exact h
  | cons name names ih => exact ih (taken_step h)

/-- The oldest dump so far is held; one of the last instant that `time_t` has is not. -/
def Holds (s : State) (m : Dump) : Prop :=
  s.dir_timestamp = m.timestamp ∧ (m.timestamp ≠ longMax → s.dir_name = m.name)

theorem Holds.hold (h : Holds s m) : Holds (s.hold d.name) (least Dump.timestamp m d) := by
  unfold State.hold least
  rw [atoi_name, h.1]
  dsimp only
  split_ifs
  · exact ⟨rfl, fun _ => rfl⟩
  · exact h

theorem holds_first (h : s.dir_timestamp = longMax) : Holds (s.hold d.name) d := by
  unfold State.hold
  rw [atoi_name, h]
  have hint := d.int.2
  dsimp only
  split_ifs with hlt
  · exact ⟨rfl, fun _ => rfl⟩
  · have heq : d.timestamp = longMax := le_antisymm hint (not_lt.mp hlt)
    exact ⟨h.trans heq.symm, fun hne => absurd heq hne⟩

theorem file_count_hold : (s.hold name).file_count = s.file_count := by
  unfold State.hold
  dsimp only
  split_ifs
  · rfl
  · rfl

theorem removed_hold : (s.hold name).removed = s.removed := by
  unfold State.hold
  dsimp only
  split_ifs
  · rfl
  · rfl

theorem holds_step (sys : Nat → Sys) (h : Holds (s.hold d.name) m) :
    Holds (step sys s d.name) m := by
  unfold step
  dsimp only
  split_ifs with hprefix
  · exact h
  · exact h
  · exact absurd (prefix_name d) hprefix

/-- A dump is counted, and the one that is held is removed when they are too many. -/
theorem step_dump (sys : Nat → Sys) (s : State) (d : Dump) :
    (step sys s d.name).file_count = s.file_count + 1 ∧
      (step sys s d.name).removed = if maxFileCount < s.file_count + 1 then
        s.removed ++ [(s.hold d.name).dir_name] else s.removed := by
  unfold step
  rw [if_pos (prefix_name d)]
  dsimp only
  rw [file_count_hold]
  split_ifs
  · exact ⟨rfl, congrArg (· ++ _) removed_hold⟩
  · exact ⟨rfl, removed_hold⟩

theorem step_other (h : ¬dumpPrefix <+: name) : step sys s name = s := by
  unfold step
  rw [← List.isPrefixOf_iff_prefix] at h
  exact if_neg h

theorem length_removed_step :
    (step sys s name).removed.length ≤ s.removed.length + 1 := by
  unfold step
  dsimp only
  split_ifs
  · change ((s.hold name).removed ++ [_]).length ≤ _
    rw [removed_hold, List.length_append]
    exact le_rfl
  · change (s.hold name).removed.length ≤ _
    rw [removed_hold]
    exact Nat.le_succ _
  · exact Nat.le_succ _

theorem length_removed_run :
    (names.foldl (step sys) s).removed.length ≤ s.removed.length + names.length := by
  induction names generalizing s with
  | nil => exact le_rfl
  | cons name names ih =>
    have hrest : (names.foldl (step sys) (step sys s name)).removed.length ≤
        (step sys s name).removed.length + names.length := ih
    have hstep : (step sys s name).removed.length ≤ s.removed.length + 1 := length_removed_step
    rw [List.foldl_cons, List.length_cons]
    omega

theorem to_nat_count {c : UInt8} (h : c.toNat < 255) : (c + 1).toNat = c.toNat + 1 := by
  rw [UInt8.toNat_add]
  exact Nat.mod_eq_of_lt (Nat.succ_lt_succ h)

/-- Up to `MAX_FILE_COUNT` nothing is removed. -/
theorem few_run (sys : Nat → Sys) (ds : List Dump) (h : Holds s m)
    (hcount : s.file_count.toNat + ds.length ≤ maxFileCount.toNat) :
    Holds ((ds.map Dump.name).foldl (step sys) s) (leastOf Dump.timestamp m ds) ∧
      ((ds.map Dump.name).foldl (step sys) s).file_count.toNat =
        s.file_count.toNat + ds.length ∧
      ((ds.map Dump.name).foldl (step sys) s).removed = s.removed := by
  induction ds generalizing s m with
  | nil => exact ⟨h, rfl, rfl⟩
  | cons d ds ih =>
    have hmax : maxFileCount.toNat = 10 := rfl
    rw [List.length_cons] at hcount ⊢
    have hholds : Holds (step sys s d.name) (least Dump.timestamp m d) := holds_step sys h.hold
    obtain ⟨hcounted, hremoved⟩ := step_dump sys s d
    have hnat : (step sys s d.name).file_count.toNat = s.file_count.toNat + 1 := by
      rw [hcounted]
      exact to_nat_count (by omega)
    have hfew : ¬maxFileCount < s.file_count + 1 := by
      rw [UInt8.lt_iff_toNat_lt, ← hcounted, hnat]
      omega
    rw [if_neg hfew] at hremoved
    obtain ⟨hholds', hcounted', hremoved'⟩ := ih hholds (by omega)
    exact ⟨hholds', hcounted'.trans (by omega), hremoved'.trans hremoved⟩

/-- From then on the oldest so far is removed with each dump. -/
theorem many_run (sys : Nat → Sys) (ds : List Dump) (h : Holds s m) (hint : m.timestamp < longMax)
    (hmany : maxFileCount.toNat ≤ s.file_count.toNat)
    (hcount : s.file_count.toNat + ds.length ≤ 255) :
    ((ds.map Dump.name).foldl (step sys) s).file_count.toNat =
        s.file_count.toNat + ds.length ∧
      ((ds.map Dump.name).foldl (step sys) s).removed =
        s.removed ++ (leasts Dump.timestamp m ds).map Dump.name := by
  induction ds generalizing s m with
  | nil => exact ⟨rfl, (List.append_nil _).symm⟩
  | cons d ds ih =>
    rw [List.length_cons] at hcount ⊢
    have hholds : Holds (step sys s d.name) (least Dump.timestamp m d) := holds_step sys h.hold
    obtain ⟨hcounted, hremoved⟩ := step_dump sys s d
    have hnat : (step sys s d.name).file_count.toNat = s.file_count.toNat + 1 := by
      rw [hcounted]
      exact to_nat_count (by omega)
    have htoo : maxFileCount < s.file_count + 1 := by
      rw [UInt8.lt_iff_toNat_lt, ← hcounted, hnat]
      omega
    have hint' : (least Dump.timestamp m d).timestamp < longMax :=
      key_least_le_left.trans_lt hint
    rw [if_pos htoo, h.hold.2 hint'.ne] at hremoved
    obtain ⟨hcounted', hremoved'⟩ := ih hholds hint' (by omega) (by omega)
    refine ⟨hcounted'.trans (by omega), hremoved'.trans ?_⟩
    rw [hremoved, List.append_assoc]
    rfl

end Loop

section Listing
variable {x : DumpPath} {sys : Nat → Sys} {s : State}

theorem run_entries {entries : List Dirent} :
    (entries.map Dirent.d_name).foldl (step sys) s =
      ((entries.filterMap Dirent.dump?).map Dump.name).foldl (step sys) s := by
  induction entries generalizing s with
  | nil => rfl
  | cons e entries ih =>
    cases e with
    | dump d => exact ih
    | other name h =>
      rw [List.map_cons, List.foldl_cons, show (Dirent.other name h).d_name = name from rfl,
        step_other h]
      exact ih

theorem rotation_eq (dir_name : Name) :
    rotation sys x dir_name = (x.listed.map Dump.name).foldl (step sys) (start x dir_name) :=
  run_entries

theorem listed_perm : x.listed.Perm x.dumps :=
  ((List.reverse_perm _).trans (List.perm_insertionSort _ _)).filterMap _

theorem dump_eq {d d' : Dump} (hd : d ∈ x.dumps) (hd' : d' ∈ x.dumps) (h : d.name = d'.name) :
    d = d' :=
  List.inj_on_of_nodup_map x.distinct hd hd' (timestamp_eq h)

theorem timestamps_nodup : (x.listed.map Dump.timestamp).Nodup :=
  (listed_perm.map _).nodup_iff.mpr x.distinct

theorem nodup_names {oldest : List Dump} {n : Nat}
    (h : Lowest Dump.timestamp x.dumps oldest n) : (oldest.map Dump.name).Nodup :=
  h.nodup.map_on fun d hd d' hd' => dump_eq (h.subset d hd) (h.subset d' hd')

/-- When the oldest are removed and all removals succeed, the newest remain. -/
theorem remaining_eq {dir_name : Name} {oldest : List Dump}
    (hremoved : (rotation sys x dir_name).removed = oldest.map Dump.name)
    (hsubset : ∀ d ∈ oldest, d ∈ x.dumps)
    (hresults : ∀ status ∈ (rotation sys x dir_name).results, status = 0) :
    (rotation sys x dir_name).remaining x = x.dumps.filter (· ∉ oldest) := by
  have hstart : Taken (x.dumps.map Dump.name) (start x dir_name) := by
    intro _ name
    have hnames : (start x dir_name).directories.map Prod.fst = x.dumps.map Dump.name :=
      List.map_map
    rw [hnames]
    exact (and_iff_left (List.not_mem_nil)).symm
  have htaken : Taken (x.dumps.map Dump.name) (rotation sys x dir_name) := taken_run hstart
  refine List.filter_congr fun d hd => decide_eq_decide.mpr ?_
  rw [htaken hresults d.name, and_iff_right (List.mem_map_of_mem hd)]
  refine not_congr ?_
  rw [hremoved]
  constructor
  · intro hname
    obtain ⟨d', hd', heq⟩ := List.mem_map.mp hname
    rw [← dump_eq (hsubset d' hd') hd heq]
    exact hd'
  · exact List.mem_map_of_mem

/-- The part of the claim about what remains follows. -/
theorem rotates_iff : Rotates x ↔ ∀ (sys : Nat → Sys) dir_name, ∃ oldest,
    (rotation sys x dir_name).removed = oldest.map Dump.name ∧
      Lowest Dump.timestamp x.dumps oldest (x.dumps.length - maxFileCount.toNat) := by
  refine forall_congr' fun sys => forall_congr' fun dir_name => exists_congr fun oldest =>
    and_congr_right fun hremoved => and_iff_left_of_imp fun hlowest hresults => ?_
  have hleft := hlowest.left (List.Nodup.of_map _ x.distinct)
  rw [remaining_eq hremoved hlowest.subset hresults]
  exact ⟨hleft.1.trans (by omega), hleft.2⟩

/-- The first dumps, as many as may stay. -/
theorem run_first (sys : Nat → Sys) (x : DumpPath) (dir_name : Name) (d : Dump) (ds : List Dump)
    (hcount : ds.length + 1 ≤ maxFileCount.toNat) :
    Holds (((d :: ds).map Dump.name).foldl (step sys) (start x dir_name))
        (leastOf Dump.timestamp d ds) ∧
      (((d :: ds).map Dump.name).foldl (step sys) (start x dir_name)).file_count.toNat =
        ds.length + 1 ∧
      (((d :: ds).map Dump.name).foldl (step sys) (start x dir_name)).removed = [] := by
  have hstart : Holds ((start x dir_name).hold d.name) d := holds_first rfl
  have hholds := holds_step sys hstart
  obtain ⟨hcounted, hremoved⟩ := step_dump sys (start x dir_name) d
  have hfew : ¬maxFileCount < (start x dir_name).file_count + 1 :=
    (by decide : ¬maxFileCount < (0 : UInt8) + 1)
  have hone : (step sys (start x dir_name) d.name).file_count.toNat = 1 := by
    rw [hcounted]
    exact (by decide : ((0 : UInt8) + 1).toNat = 1)
  rw [if_neg hfew] at hremoved
  obtain ⟨hholds', hcounted', hremoved'⟩ := few_run sys ds hholds (by omega)
  rw [hone] at hcounted'
  rw [List.map_cons, List.foldl_cons]
  exact ⟨hholds', hcounted'.trans (Nat.add_comm _ _), hremoved'.trans hremoved⟩

theorem removed_few (dir_name : Name) (hcount : x.dumps.length ≤ maxFileCount.toNat) :
    (rotation sys x dir_name).removed = [] := by
  rw [← listed_perm.length_eq] at hcount
  rw [rotation_eq]
  cases hlisted : x.listed with
  | nil => rfl
  | cons d ds =>
    rw [hlisted] at hcount
    exact (run_first sys x dir_name d ds hcount).2.2

/-- From the first one too many on, the oldest so far is removed each time. -/
theorem removed_many {d d' : Dump} {ds rest later : List Dump} (sys : Nat → Sys) (dir_name : Name)
    (hlisted : x.listed = (d :: ds ++ d' :: rest) ++ later)
    (hfirst : ds.length + 1 = maxFileCount.toNat)
    (hcount : (d :: ds ++ d' :: rest).length ≤ 255) :
    (((d :: ds ++ d' :: rest).map Dump.name).foldl (step sys) (start x dir_name)).file_count.toNat =
        (d :: ds ++ d' :: rest).length ∧
      (((d :: ds ++ d' :: rest).map Dump.name).foldl (step sys) (start x dir_name)).removed =
        (leastOf Dump.timestamp d (ds ++ [d']) ::
          leasts Dump.timestamp (leastOf Dump.timestamp d (ds ++ [d'])) rest).map Dump.name := by
  have hmax : maxFileCount.toNat = 10 := rfl
  obtain ⟨hholds, hcounted, hremoved⟩ := run_first sys x dir_name d ds (by omega)
  have hint : (leastOf Dump.timestamp d ds).timestamp < longMax := by
    cases ds with
    | nil =>
      rw [hmax] at hfirst
      cases hfirst
    | cons e ds =>
      have hle := (leastOf Dump.timestamp d (e :: ds)).int.2
      refine lt_of_le_of_ne hle fun heq => ?_
      have hd : longMax ≤ d.timestamp := heq.ge.trans (least_of_le d List.mem_cons_self)
      have he : longMax ≤ e.timestamp :=
        heq.ge.trans (least_of_le e (List.mem_cons_of_mem _ List.mem_cons_self))
      have hnodup := timestamps_nodup (x := x)
      rw [hlisted] at hnodup
      refine (List.nodup_cons.mp hnodup).1 ?_
      rw [(le_antisymm d.int.2 hd).trans (le_antisymm e.int.2 he).symm]
      exact List.mem_cons_self
  rw [List.length_append, List.length_cons, List.length_cons] at hcount
  obtain ⟨hcounted', hremoved'⟩ := many_run sys (d' :: rest) hholds hint (by omega)
    (by rw [List.length_cons]; omega)
  rw [List.map_append, List.foldl_append]
  refine ⟨hcounted'.trans ?_, hremoved'.trans ?_⟩
  · rw [hcounted, List.length_append, List.length_cons, List.length_cons]
  · rw [hremoved, List.nil_append]
    unfold leastOf
    rw [List.foldl_append]
    rfl

theorem exists_first {l : List Dump} (h : maxFileCount.toNat < l.length) :
    ∃ d ds d' rest, l = d :: ds ++ d' :: rest ∧ ds.length + 1 = maxFileCount.toNat := by
  have hmax : maxFileCount.toNat = 10 := rfl
  cases l with
  | nil => cases h
  | cons d l =>
    have hlength : 9 < l.length := Nat.lt_of_succ_lt_succ h
    refine ⟨d, l.take 9, l[9], l.drop 10, ?_, ?_⟩
    · rw [List.cons_append, ← List.drop_eq_getElem_cons hlength, List.take_append_drop]
    · rw [List.length_take]
      omega

/-- More than the counter can hold: the directory at which it is 0 again is not removed. -/
theorem length_removed (sys : Nat → Sys) (dir_name : Name) (hcount : 255 < x.dumps.length) :
    (rotation sys x dir_name).removed.length + maxFileCount.toNat < x.dumps.length := by
  have hmax : maxFileCount.toNat = 10 := rfl
  rw [← listed_perm.length_eq] at hcount ⊢
  have htake : (x.listed.take 255).length = 255 := List.length_take_of_le hcount.le
  obtain ⟨d, ds, d', rest, hfirst, hds⟩ :=
    exists_first (l := x.listed.take 255) (by rw [htake]; decide)
  have hlisted : x.listed = (d :: ds ++ d' :: rest) ++ x.listed[255] :: x.listed.drop 256 := by
    rw [← hfirst, ← List.drop_eq_getElem_cons hcount, List.take_append_drop]
  rw [hfirst] at htake
  obtain ⟨hcounted, hremoved⟩ := removed_many sys dir_name hlisted hds htake.le
  have hrest : rest.length = 244 := by
    rw [List.length_append, List.length_cons, List.length_cons] at htake
    omega
  rw [rotation_eq, hlisted, List.map_append, List.foldl_append, List.map_cons, List.foldl_cons]
  generalize ((d :: ds ++ d' :: rest).map Dump.name).foldl (step sys) (start x dir_name) = s
    at hcounted hremoved ⊢
  have hwrap : ¬maxFileCount < s.file_count + 1 := by
    have h1 : (1 : UInt8).toNat = 1 := rfl
    rw [UInt8.lt_iff_toNat_lt, UInt8.toNat_add, hcounted, htake, h1, hmax]
    decide
  have hstep := (step_dump sys s x.listed[255]).2
  rw [if_neg hwrap, hremoved] at hstep
  have hrun : (((x.listed.drop 256).map Dump.name).foldl (step sys)
      (step sys s x.listed[255].name)).removed.length ≤
        (step sys s x.listed[255].name).removed.length +
          ((x.listed.drop 256).map Dump.name).length := length_removed_run
  rw [hstep, List.length_map, List.length_map, List.length_cons, length_leasts] at hrun
  rw [List.length_append, htake, List.length_cons]
  omega

/-- The oldest dump directories are removed, and no other ones, exactly when the order of the names
lets the loop see them last. -/
theorem rotates_iff_oldest_last (x : DumpPath) : Rotates x ↔ OldestLast x := by
  have hmax : maxFileCount.toNat = 10 := rfl
  have sys : Nat → Sys :=
    fun _ => ⟨true, fun _ => true, fun _ => true, fun _ => true, fun _ => true⟩
  unfold OldestLast
  by_cases hfew : x.dumps.length ≤ maxFileCount.toNat
  · refine iff_of_true (rotates_iff.mpr fun sys dir_name => ⟨[], removed_few dir_name hfew, ?_⟩)
      (.inl hfew)
    exact ⟨List.nodup_nil, fun a ha => absurd ha List.not_mem_nil,
      (Nat.sub_eq_zero_of_le hfew).symm, fun a ha => absurd ha List.not_mem_nil⟩
  rw [or_iff_right hfew]
  by_cases hcount : x.dumps.length ≤ 255
  · rw [and_iff_right hcount]
    have hlength : maxFileCount.toNat < x.listed.length := by
      rw [listed_perm.length_eq]
      omega
    obtain ⟨d, ds, d', rest, hlisted, hds⟩ := exists_first hlength
    have hsplit : x.listed = d :: (ds ++ [d']) ++ rest := by
      rw [hlisted, List.cons_append, List.cons_append, List.append_assoc]
      rfl
    have hremoved : ∀ (sys : Nat → Sys) dir_name, (rotation sys x dir_name).removed =
        (leastOf Dump.timestamp d (ds ++ [d']) ::
          leasts Dump.timestamp (leastOf Dump.timestamp d (ds ++ [d'])) rest).map Dump.name := by
      intro sys dir_name
      rw [rotation_eq, hlisted]
      have hlisted' : x.listed = (d :: ds ++ d' :: rest) ++ [] :=
        hlisted.trans (List.append_nil _).symm
      refine (removed_many sys dir_name hlisted' hds ?_).2
      rw [← hlisted, listed_perm.length_eq]
      exact hcount
    have hlast : (∀ before d after, x.listed = before ++ d :: after →
        maxFileCount.toNat < before.length → ∀ d' ∈ before, d.timestamp < d'.timestamp) ↔
          (leastOf Dump.timestamp d (ds ++ [d']) :: rest).Pairwise
            fun a b => b.timestamp < a.timestamp := by
      rw [hsplit, ← hds, ← show (ds ++ [d']).length = ds.length + 1 from List.length_append]
      exact pairwise_least_of_iff.symm
    rw [hlast]
    constructor
    · intro hrotates
      obtain ⟨oldest, hremoved', hlowest⟩ := rotates_iff.mp hrotates sys []
      rw [← nodup_leasts_iff]
      refine List.Nodup.of_map Dump.name ?_
      rw [← hremoved sys [], hremoved']
      exact nodup_names hlowest
    · intro hpairwise
      rw [leasts_eq hpairwise] at hremoved
      refine rotates_iff.mpr fun sys dir_name => ⟨_, hremoved sys dir_name, ?_⟩
      have hnodup : ((d :: (ds ++ [d'])).map Dump.timestamp).Nodup := by
        have hnodup := timestamps_nodup (x := x)
        rw [hsplit, List.map_append] at hnodup
        exact hnodup.of_append_left
      have hlowest := lowest_of_pairwise hnodup hpairwise
      rw [← hsplit] at hlowest
      have hsum : rest.length + 1 = x.dumps.length - maxFileCount.toNat := by
        rw [← listed_perm.length_eq, hlisted, List.length_append, List.length_cons,
          List.length_cons, hds]
        omega
      rw [← hsum]
      exact hlowest.perm listed_perm
  · refine iff_of_false (fun hrotates => ?_) fun h => hcount h.1
    obtain ⟨oldest, hremoved, hlowest⟩ := rotates_iff.mp hrotates sys []
    have hlength := length_removed sys [] (not_le.mp hcount)
    rw [hremoved, List.length_map, hlowest.length] at hlength
    omega

/-- Made in a second of the first minute of 1970. -/
def firstMinute (core : Core) (sec : Fin 60) : Dump :=
  ⟨core, ⟨1970, 1, 1, 0, 0, sec, by decide, by omega⟩, sec, .empty, by omega⟩

/-- Eleven dumps of SVA, and then one of SIA. -/
def bothCores : DumpPath :=
  ⟨(([1, 2, 3, 4, 5, 6, 7, 8, 9, 10, 11] : List (Fin 60)).map fun sec =>
    .dump (firstMinute .sva sec)) ++ [.dump (firstMinute .sia 12)], by decide⟩

/-- The oldest dump is passed twice, and the second oldest stays. -/
theorem both_cores_not_rotated : ¬Rotates bothCores := by
  intro hrotates
  obtain ⟨oldest, hremoved, hlowest⟩ := rotates_iff.mp hrotates
    (fun _ => ⟨true, fun _ => true, fun _ => true, fun _ => true, fun _ => true⟩) []
  have htwice : (rotation (fun _ => ⟨true, fun _ => true, fun _ => true, fun _ => true,
      fun _ => true⟩) bothCores []).removed =
        [(firstMinute .sva 1).name, (firstMinute .sva 1).name] := by decide +kernel
  have hnodup : (oldest.map Dump.name).Nodup := nodup_names hlowest
  rw [← hremoved, htwice] at hnodup
  exact (List.nodup_cons.mp hnodup).1 List.mem_cons_self

end Listing

end Codinalte.CmProxy.Rotation
