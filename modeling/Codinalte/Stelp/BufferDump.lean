import Mathlib.Data.List.Basic
import Mathlib.Data.Option.Basic
import Codinalte.Stelp.CircularBuffer

/-! The text of the data of a buffer header: the bytes in hexadecimal, all of them or the first and
the last ones with a separator between. -/

namespace Codinalte.Stelp.BufferDump
open CircularBuffer (store)

/-- `OMX_BUFFERHEADERTYPE`, with the allocated data. -/
structure Header where
  pBuffer : List UInt8
  nOffset : UInt32
  nFilledLen : UInt32
  within : nOffset.toNat + nFilledLen.toNat ≤ pBuffer.length

/-- The valid bytes. -/
def Header.valid (h : Header) : List UInt8 :=
  (h.pBuffer.drop h.nOffset.toNat).take h.nFilledLen.toNat

/-- `none` is a byte that is not valid. -/
def Header.read (h : Header) (current : Int) : Option UInt8 :=
  if h.nOffset.toNat ≤ current ∧ current < h.nOffset.toNat + h.nFilledLen.toNat then
    h.pBuffer[current.toNat]?
  else none

def hexDigit (d : Nat) : UInt8 := if d < 10 then (48 + d).toUInt8 else (87 + d).toUInt8

/-- `"%02x "` -/
def byteFormat (b : UInt8) : List UInt8 := [hexDigit (b.toNat / 16), hexDigit (b.toNat % 16), 32]

/-- `"\n [...]\n"` -/
def separatorFormat : List UInt8 := [10, 32, 91, 46, 46, 46, 93, 10]

def sprintf (buffer : List UInt8) (str : Nat) (text : List UInt8) : Option (List UInt8) :=
  store buffer str (text ++ [0])

/-- `*(str-1) = c` -/
def putBefore (buffer : List UInt8) (str : Nat) (c : UInt8) : Option (List UInt8) :=
  if str = 0 then none else store buffer (str - 1) [c]

/-- `buffer` has as many bytes as `*size` says. -/
structure Cursor where
  buffer : List UInt8
  str : Nat
  current : Int
  nb_bytes_for_line : Nat

def dumpByte (h : Header) (nb_bytes_per_lines : Nat) (c : Cursor) : Option Cursor := do
  let b ← h.read c.current
  let buffer ← sprintf c.buffer c.str (byteFormat b)
  let str := c.str + 3
  if c.nb_bytes_for_line + 1 = nb_bytes_per_lines then
    let buffer ← putBefore buffer str 10
    return ⟨buffer, str, c.current + 1, 0⟩
  else return ⟨buffer, str, c.current + 1, c.nb_bytes_for_line + 1⟩

def dumpBytes (h : Header) (nb_bytes_per_lines : Nat) : Nat → Cursor → Option Cursor
  | 0, c => some c
  | n + 1, c => do
    let c ← dumpByte h nb_bytes_per_lines c
    dumpBytes h nb_bytes_per_lines n c

/-- `nb_bytes_to_dump` as the function raises it first. -/
def bytesToDump (nb_bytes_to_dump nb_end_bytes : UInt32) : UInt32 :=
  if nb_bytes_to_dump < 2 * nb_end_bytes then 2 * nb_end_bytes else nb_bytes_to_dump

def neededBufferSize (nb_bytes_to_dump : UInt32) : UInt32 := nb_bytes_to_dump * 3 + 8

/-- `*buffer` is kept when it is large enough; else it is allocated, with any content. -/
def stringBuffer (old : List UInt8) (fresh : Nat → UInt8) (needed : UInt32) : List UInt8 :=
  if old.length < needed.toNat then (List.range needed.toNat).map fresh else old

/-- How many bytes the first loop prints, and whether the end is printed. -/
def firstBytes (nFilledLen nb_bytes_to_dump nb_end_bytes : UInt32) : UInt32 × Bool :=
  if nFilledLen ≤ nb_bytes_to_dump then (nFilledLen - 1, false)
  else if nFilledLen ≤ nb_bytes_to_dump + nb_end_bytes then (nFilledLen, false)
  else (nb_bytes_to_dump - nb_end_bytes, true)

/-- The separator and the last bytes. No line is counted here. -/
def dumpEnd (h : Header) (nb_end_bytes : UInt32) (c : Cursor) : Option Cursor := do
  let buffer ← putBefore c.buffer c.str 32
  let buffer ← sprintf buffer c.str separatorFormat
  let current : Int := h.nFilledLen.toNat - nb_end_bytes.toNat
  dumpBytes h 0 nb_end_bytes.toNat ⟨buffer, c.str + separatorFormat.length, current, 0⟩

/-- The string buffer that is returned; `none` is a write outside it, or a read of a byte that is
not valid. -/
def strBufferData (h : Header) (old : List UInt8) (fresh : Nat → UInt8)
    (nb_bytes_to_dump nb_end_bytes nb_bytes_per_lines : UInt32) : Option (List UInt8) := do
  let nb_bytes_to_dump := bytesToDump nb_bytes_to_dump nb_end_bytes
  let buffer := stringBuffer old fresh (neededBufferSize nb_bytes_to_dump)
  if h.nFilledLen = 0 then store buffer 0 [0]
  else
    let (n, dump_end) := firstBytes h.nFilledLen nb_bytes_to_dump nb_end_bytes
    let c ← dumpBytes h nb_bytes_per_lines.toNat n.toNat ⟨buffer, 0, h.nOffset.toNat, 0⟩
    if dump_end then
      let c ← dumpEnd h nb_end_bytes c
      return c.buffer
    else return c.buffer

/-- The string in a buffer. -/
def cString (buffer : List UInt8) : List UInt8 := buffer.takeWhile (· ≠ 0)

/-- The bytes in hexadecimal, each with a space or a line break behind it. -/
def Shows : List UInt8 → List UInt8 → Prop
  | text, [] => text = []
  | text, b :: bytes => ∃ blank rest, (blank = 32 ∨ blank = 10) ∧
      text = [hexDigit (b.toNat / 16), hexDigit (b.toNat % 16), blank] ++ rest ∧ Shows rest bytes

/-- All valid bytes when they fit; otherwise the first ones, the separator and the last ones. -/
def Displays (h : Header) (nb_bytes_to_dump nb_end_bytes : UInt32) (text : List UInt8) : Prop :=
  let nb := (bytesToDump nb_bytes_to_dump nb_end_bytes).toNat
  if h.nFilledLen.toNat ≤ nb then Shows text h.valid
  else ∃ first last, text = first ++ (separatorFormat ++ last) ∧
    Shows first (h.valid.take (nb - nb_end_bytes.toNat)) ∧
    Shows last (h.valid.drop (h.nFilledLen.toNat - nb_end_bytes.toNat))

/-- For every content of a string buffer of that size, and of a new one. -/
def Correct (h : Header) (size nb_bytes_to_dump nb_end_bytes nb_bytes_per_lines : UInt32) : Prop :=
  ∀ old fresh, old.length = size.toNat →
    ∃ buffer, strBufferData h old fresh nb_bytes_to_dump nb_end_bytes nb_bytes_per_lines =
      some buffer ∧ Displays h nb_bytes_to_dump nb_end_bytes (cString buffer)

/-- Nothing is valid, and there is a byte for the end of the string; or the bytes are more than both
counts together, the counts are not both zero, the string buffer has one byte more than the function
asks for, and the bytes before `nFilledLen` are those at the end of the valid ones. -/
def Prints (h : Header) (size nb_bytes_to_dump nb_end_bytes : UInt32) : Prop :=
  let nb := max nb_bytes_to_dump.toNat (2 * nb_end_bytes.toNat)
  (h.nFilledLen = 0 ∧
    (size ≠ 0 ∨ neededBufferSize (bytesToDump nb_bytes_to_dump nb_end_bytes) ≠ 0)) ∨
  (nb + nb_end_bytes.toNat < h.nFilledLen.toNat ∧ 0 < nb ∧ 3 * nb + 9 ≤ size.toNat ∧
    (nb_end_bytes = 0 ∨
      h.nOffset.toNat + nb_end_bytes.toNat ≤ h.nFilledLen.toNat ∧
        (h.pBuffer.drop (h.nFilledLen.toNat - nb_end_bytes.toNat)).take nb_end_bytes.toNat =
          h.valid.drop (h.nFilledLen.toNat - nb_end_bytes.toNat)))

section Texts
variable {a b : UInt8} {text first last : List UInt8} {bytes bytes' : List UInt8} {L k : Nat}

theorem hex_digit_injective : ∀ d < 16, ∀ e < 16, hexDigit d = hexDigit e → d = e := by
  decide +kernel

theorem hex_digit_ne : ∀ d < 16, hexDigit d ≠ 0 ∧ hexDigit d ≠ 91 := by decide

theorem hex_injective (hhigh : hexDigit (a.toNat / 16) = hexDigit (b.toNat / 16))
    (hlow : hexDigit (a.toNat % 16) = hexDigit (b.toNat % 16)) : a = b := by
  have ha := a.toNat_lt
  have hb := b.toNat_lt
  have hdiv := hex_digit_injective _ (by omega) _ (by omega) hhigh
  have hmod := hex_digit_injective _ (by omega) _ (by omega) hlow
  exact UInt8.toNat_inj.mp (by omega)

theorem Shows.length (h : Shows text bytes) : text.length = 3 * bytes.length := by
  induction bytes generalizing text with
  | nil =>
    rw [show text = [] from h]
    rfl
  | cons b bytes ih =>
    obtain ⟨blank, rest, -, rfl, hrest⟩ := h
    rw [List.length_append, ih hrest]
    change 3 + 3 * bytes.length = 3 * (bytes.length + 1)
    omega

theorem Shows.injective (h : Shows text bytes) (h' : Shows text bytes') : bytes = bytes' := by
  induction bytes generalizing text bytes' with
  | nil =>
    cases bytes' with
    | nil => rfl
    | cons b bytes' =>
      obtain ⟨blank, rest, -, rfl, -⟩ := h'
      cases h
  | cons b bytes ih =>
    obtain ⟨blank, rest, -, rfl, hrest⟩ := h
    cases bytes' with
    | nil => cases h'
    | cons b' bytes' =>
      obtain ⟨blank', rest', -, heq, hrest'⟩ := h'
      simp only [List.cons_append, List.nil_append, List.cons.injEq] at heq
      obtain ⟨hhigh, hlow, -, rfl⟩ := heq
      rw [hex_injective hhigh hlow, ih hrest hrest']

/-- No zero ends the text, and no bracket of the separator is in it. -/
theorem Shows.ne (h : Shows text bytes) : ∀ c ∈ text, c ≠ 0 ∧ c ≠ 91 := by
  induction bytes generalizing text with
  | nil =>
    rw [show text = [] from h]
    exact fun c hc => by cases hc
  | cons b bytes ih =>
    obtain ⟨blank, rest, hblank, rfl, hrest⟩ := h
    have hb := b.toNat_lt
    intro c hc
    rcases List.mem_append.mp hc with hc | hc
    · simp only [List.mem_cons, List.not_mem_nil, or_false] at hc
      rcases hc with rfl | rfl | rfl
      · exact hex_digit_ne _ (by omega)
      · exact hex_digit_ne _ (by omega)
      · rcases hblank with rfl | rfl <;> decide
    · exact ih hrest c hc

/-- What the first loop prints, with the number of the bytes of the line so far. -/
def shown (L : Nat) : Nat → List UInt8 → List UInt8
  | _, [] => []
  | k, b :: bytes =>
    [hexDigit (b.toNat / 16), hexDigit (b.toNat % 16), if k + 1 = L then 10 else 32] ++
      shown L (if k + 1 = L then 0 else k + 1) bytes

theorem shows_shown : Shows (shown L k bytes) bytes := by
  induction bytes generalizing k with
  | nil => rfl
  | cons b bytes ih =>
    refine ⟨if k + 1 = L then 10 else 32, _, ?_, rfl, ih⟩
    split_ifs
    · exact .inr rfl
    · exact .inl rfl

/-- A text with a space in place of its last blank. -/
theorem Shows.space (h : Shows text bytes) (hne : bytes ≠ []) :
    ∃ pre blank, text = pre ++ [blank] ∧ Shows (pre ++ [32]) bytes := by
  induction bytes generalizing text with
  | nil => exact absurd rfl hne
  | cons b bytes ih =>
    obtain ⟨blank, rest, hblank, rfl, hrest⟩ := h
    cases bytes with
    | nil =>
      rw [show rest = [] from hrest]
      exact ⟨[hexDigit (b.toNat / 16), hexDigit (b.toNat % 16)], blank, rfl, 32, [], .inl rfl, rfl,
        rfl⟩
    | cons b' bytes =>
      obtain ⟨pre, last, rfl, hspace⟩ := ih hrest (List.cons_ne_nil _ _)
      exact ⟨[hexDigit (b.toNat / 16), hexDigit (b.toNat % 16), blank] ++ pre, last, rfl, blank,
        pre ++ [32], hblank, rfl, hspace⟩

theorem c_string_append (h : ∀ c ∈ text, c ≠ 0) (rest : List UInt8) :
    cString (text ++ 0 :: rest) = text := by
  unfold cString
  rw [List.takeWhile_append_of_pos fun c hc => decide_eq_true (h c hc)]
  exact List.append_nil text

end Texts

section Loop
variable {h : Header} {pre tail text : List UInt8} {c' : Cursor} {L n k : Nat} {cur : Int}

theorem store_append : store (pre ++ tail) pre.length text =
    if text.length ≤ tail.length then some (pre ++ (text ++ tail.drop text.length)) else none := by
  unfold store
  rw [List.length_append, List.take_left, List.drop_length_add_append, List.append_assoc]
  split_ifs
  · rfl
  · omega
  · omega
  · rfl

/-- Some bytes are those that are read from a place on. -/
def Reads (h : Header) : Int → List UInt8 → Prop
  | _, [] => True
  | cur, b :: bytes => h.read cur = some b ∧ Reads h (cur + 1) bytes

theorem put_before_append (pre tail : List UInt8) (x c : UInt8) :
    putBefore (pre ++ x :: tail) (pre.length + 1) c = some (pre ++ c :: tail) := by
  unfold putBefore
  rw [if_neg (Nat.succ_ne_zero _), Nat.add_sub_cancel, store_append]
  exact if_pos (Nat.succ_le_succ (Nat.zero_le _))

theorem dump_byte_eq_some : dumpByte h L ⟨pre ++ tail, pre.length, cur, k⟩ = some c' ↔
    ∃ b, h.read cur = some b ∧ 4 ≤ tail.length ∧
      c' = ⟨pre ++ [hexDigit (b.toNat / 16), hexDigit (b.toNat % 16),
        if k + 1 = L then 10 else 32] ++ 0 :: tail.drop 4, pre.length + 3, cur + 1,
          if k + 1 = L then 0 else k + 1⟩ := by
  unfold dumpByte sprintf
  rw [Option.bind_eq_bind, Option.bind_eq_some_iff]
  refine exists_congr fun b => and_congr_right fun _ => ?_
  rw [store_append]
  change (Option.bind (if 4 ≤ tail.length then _ else none) _ = _) ↔ _
  by_cases hroom : 4 ≤ tail.length
  · rw [if_pos hroom, Option.bind_some, and_iff_right hroom]
    have hbuffer : pre ++ (byteFormat b ++ [0] ++ tail.drop (byteFormat b ++ [0]).length) =
        pre ++ [hexDigit (b.toNat / 16), hexDigit (b.toNat % 16)] ++
          32 :: 0 :: tail.drop 4 := by
      rw [List.append_assoc pre]
      rfl
    have hput : putBefore (pre ++ [hexDigit (b.toNat / 16), hexDigit (b.toNat % 16)] ++
        32 :: 0 :: tail.drop 4) (pre.length + 2 + 1) 10 =
          some (pre ++ ([hexDigit (b.toNat / 16), hexDigit (b.toNat % 16)] ++
            10 :: 0 :: tail.drop 4)) := by
      have hput := put_before_append
        (pre ++ [hexDigit (b.toNat / 16), hexDigit (b.toNat % 16)]) (0 :: tail.drop 4) 32 10
      rw [List.length_append, List.append_assoc pre _ (10 :: _)] at hput
      exact hput
    rw [hbuffer]
    by_cases hline : k + 1 = L
    · rw [if_pos hline, if_pos hline, if_pos hline]
      change (Option.bind (putBefore _ (pre.length + 2 + 1) 10) _ = _) ↔ _
      rw [hput, Option.bind_some, List.append_assoc pre]
      exact ⟨fun h => (Option.some_inj.mp h).symm, fun h => congrArg some h.symm⟩
    · rw [if_neg hline, if_neg hline, if_neg hline, List.append_assoc pre, List.append_assoc pre]
      exact ⟨fun h => (Option.some_inj.mp h).symm, fun h => congrArg some h.symm⟩
  · rw [if_neg hroom]
    exact iff_of_false (fun h => by cases h) fun h => hroom h.1

theorem Reads.unique {bytes bytes' : List UInt8} (h₁ : Reads h cur bytes) (h₂ : Reads h cur bytes')
    (hlength : bytes.length = bytes'.length) : bytes = bytes' := by
  induction bytes generalizing bytes' cur with
  | nil => exact (List.length_eq_zero_iff.mp hlength.symm).symm
  | cons b bytes ih =>
    cases bytes' with
    | nil => cases hlength
    | cons b' bytes' =>
      have hb : b = b' := Option.some_inj.mp (h₁.1.symm.trans h₂.1)
      rw [hb, ih h₁.2 h₂.2 (Nat.succ.inj hlength)]

theorem read_bounds {b : UInt8} (hread : h.read cur = some b) :
    (h.nOffset.toNat : Int) ≤ cur ∧ cur < h.nOffset.toNat + h.nFilledLen.toNat := by
  unfold Header.read at hread
  split_ifs at hread with hbounds
  exact hbounds

theorem Reads.bounds {bytes : List UInt8} (hreads : Reads h cur bytes) (hne : bytes ≠ []) :
    (h.nOffset.toNat : Int) ≤ cur ∧
      cur + bytes.length ≤ h.nOffset.toNat + h.nFilledLen.toNat := by
  induction bytes generalizing cur with
  | nil => exact absurd rfl hne
  | cons b bytes ih =>
    have hfirst := read_bounds hreads.1
    rw [List.length_cons]
    cases bytes with
    | nil => exact ⟨hfirst.1, by rw [List.length_nil]; omega⟩
    | cons b' bytes =>
      have hrest := ih hreads.2 (List.cons_ne_nil _ _)
      exact ⟨hfirst.1, by omega⟩

theorem reads_take {p : Nat} (hlow : h.nOffset.toNat ≤ p)
    (hhigh : p + n ≤ h.nOffset.toNat + h.nFilledLen.toNat) :
    Reads h p ((h.pBuffer.drop p).take n) := by
  induction n generalizing p with
  | zero => exact trivial
  | succ n ih =>
    have hp : p < h.pBuffer.length := by
      have hwithin := h.within
      omega
    have hrest : Reads h (p + 1 : Nat) ((h.pBuffer.drop (p + 1)).take n) :=
      ih (Nat.le_succ_of_le hlow) (by omega)
    rw [List.drop_eq_getElem_cons hp, List.take_succ_cons]
    refine ⟨?_, hrest⟩
    unfold Header.read
    rw [if_pos ⟨by omega, by omega⟩, Int.toNat_natCast]
    exact List.getElem?_eq_getElem hp

theorem length_valid : h.valid.length = h.nFilledLen.toNat := by
  have hwithin := h.within
  unfold Header.valid
  rw [List.length_take, List.length_drop]
  omega

/-- The first bytes that a loop reads are the first valid ones. -/
theorem reads_valid (hn : n ≤ h.nFilledLen.toNat) :
    Reads h h.nOffset.toNat (h.valid.take n) := by
  unfold Header.valid
  rw [List.take_take, Nat.min_eq_left hn]
  exact reads_take (Nat.le_refl _) (Nat.add_le_add_left hn _)

/-- What is left of the buffer behind the text of `n` bytes. -/
def behind (n : Nat) (tail : List UInt8) : List UInt8 :=
  if n = 0 then tail else 0 :: tail.drop (3 * n + 1)

theorem behind_succ : behind n (0 :: tail.drop 4) = behind (n + 1) tail := by
  unfold behind
  rw [if_neg (Nat.succ_ne_zero n)]
  split_ifs with hn
  · rw [hn]
  · rw [List.drop_succ_cons, List.drop_drop]
    congr 2
    omega

/-- A loop that ends has found valid bytes and room for their text and a zero. -/
theorem dump_bytes_some (hloop : dumpBytes h L n ⟨pre ++ tail, pre.length, cur, k⟩ = some c') :
    ∃ bytes, bytes.length = n ∧ Reads h cur bytes ∧ (n ≠ 0 → 3 * n + 1 ≤ tail.length) ∧
      c'.buffer = pre ++ shown L k bytes ++ behind n tail ∧ c'.str = pre.length + 3 * n := by
  induction n generalizing pre tail cur k with
  | zero =>
    cases hloop
    exact ⟨[], rfl, trivial, fun h => absurd rfl h, by rw [shown, List.append_nil]; rfl, rfl⟩
  | succ n ih =>
    obtain ⟨c, hbyte, hloop⟩ := Option.bind_eq_some_iff.mp hloop
    obtain ⟨b, hread, hroom, rfl⟩ := dump_byte_eq_some.mp hbyte
    have hlength : pre.length + 3 = (pre ++ [hexDigit (b.toNat / 16), hexDigit (b.toNat % 16),
        if k + 1 = L then 10 else 32]).length := by
      rw [List.length_append]
      rfl
    rw [hlength] at hloop
    obtain ⟨bytes, hn, hreads, hroom', hbuffer, hstr⟩ := ih hloop
    refine ⟨b :: bytes, congrArg (· + 1) hn, ⟨hread, hreads⟩, fun _ => ?_, ?_, ?_⟩
    · rw [List.length_cons, List.length_drop] at hroom'
      omega
    · rw [hbuffer, behind_succ, shown, List.append_assoc pre]
    · rw [hstr, ← hlength]
      omega

/-- Valid bytes and room are all that the loop needs. -/
theorem exists_dump_bytes {bytes : List UInt8} (hreads : Reads h cur bytes)
    (hroom : bytes ≠ [] → 3 * bytes.length + 1 ≤ tail.length) :
    ∃ c', dumpBytes h L bytes.length ⟨pre ++ tail, pre.length, cur, k⟩ = some c' := by
  induction bytes generalizing pre tail cur k with
  | nil => exact ⟨_, rfl⟩
  | cons b bytes ih =>
    have hroom := hroom (List.cons_ne_nil _ _)
    rw [List.length_cons] at hroom
    have hnext : ∃ c', dumpBytes h L bytes.length ⟨pre ++ [hexDigit (b.toNat / 16),
        hexDigit (b.toNat % 16), if k + 1 = L then 10 else 32] ++ 0 :: tail.drop 4,
          (pre ++ [hexDigit (b.toNat / 16), hexDigit (b.toNat % 16),
            if k + 1 = L then 10 else 32]).length, cur + 1,
              if k + 1 = L then 0 else k + 1⟩ = some c' := by
      refine ih hreads.2 fun _ => ?_
      rw [List.length_cons, List.length_drop]
      omega
    obtain ⟨c', hloop⟩ := hnext
    rw [List.length_append] at hloop
    refine ⟨c', Option.bind_eq_some_iff.mpr ⟨_, dump_byte_eq_some.mpr
      ⟨b, hreads.1, by omega, rfl⟩, hloop⟩⟩

/-- With zeros in the buffer, the string is the text of the bytes that the loop reads. -/
theorem c_string_dump_bytes (hzero : ∀ c ∈ tail, c = 0)
    (hloop : dumpBytes h L n ⟨tail, 0, cur, k⟩ = some c') :
    ∃ bytes, bytes.length = n ∧ cString c'.buffer = shown L k bytes := by
  have hloop : dumpBytes h L n ⟨[] ++ tail, ([] : List UInt8).length, cur, k⟩ = some c' := hloop
  obtain ⟨bytes, hn, -, -, hbuffer, -⟩ := dump_bytes_some hloop
  refine ⟨bytes, hn, ?_⟩
  rw [hbuffer, List.nil_append]
  unfold behind
  split_ifs with hn0
  · rw [List.length_eq_zero_iff.mp (hn.trans hn0), shown, List.nil_append]
    unfold cString
    cases tail with
    | nil => rfl
    | cons c tail =>
      rw [hzero c List.mem_cons_self]
      rfl
  · exact c_string_append (fun c hc => (shows_shown.ne c hc).1) _

theorem dump_end_eq {e : UInt32} (pre tail : List UInt8) (blank : UInt8) :
    dumpEnd h e ⟨(pre ++ [blank]) ++ 0 :: tail, (pre ++ [blank]).length, cur, k⟩ =
      if 8 ≤ tail.length then
        dumpBytes h 0 e.toNat ⟨(pre ++ [32] ++ separatorFormat) ++ 0 :: tail.drop 8,
          (pre ++ [32] ++ separatorFormat).length, h.nFilledLen.toNat - e.toNat, 0⟩
      else none := by
  have hput := put_before_append pre (0 :: tail) blank 32
  have hbuffer : pre ++ 32 :: 0 :: tail = (pre ++ [32]) ++ 0 :: tail := by
    rw [List.append_assoc]
    rfl
  have hlength : (pre ++ [blank]).length = (pre ++ [32]).length := by
    rw [List.length_append, List.length_append]
    rfl
  unfold dumpEnd sprintf
  rw [Option.bind_eq_bind, List.append_assoc]
  change Option.bind (putBefore (pre ++ blank :: 0 :: tail) (pre ++ [blank]).length 32) _ = _
  rw [show (pre ++ [blank]).length = pre.length + 1 from List.length_append, hput, Option.bind_some,
    hbuffer, ← show (pre ++ [32]).length = pre.length + 1 from List.length_append, store_append]
  by_cases hroom : 8 ≤ tail.length
  · have hroom' : (separatorFormat ++ [0]).length ≤ (0 :: tail).length := Nat.succ_le_succ hroom
    have hstr : (pre ++ [32] ++ separatorFormat).length =
        (pre ++ [32]).length + separatorFormat.length := List.length_append
    rw [if_pos hroom', if_pos hroom, ← List.append_assoc, ← List.append_assoc,
      List.append_assoc _ [0], hstr]
    rfl
  · have hroom' : ¬(separatorFormat ++ [0]).length ≤ (0 :: tail).length :=
      fun h => hroom (Nat.le_of_succ_le_succ h)
    rw [if_neg hroom', if_neg hroom]
    rfl

/-- The end of the text needs the bytes before `nFilledLen` to be valid, and room. -/
theorem dump_end_some {bytes : List UInt8} {e : UInt32} (hshows : Shows text bytes)
    (hne : bytes ≠ [])
    (hend : dumpEnd h e ⟨text ++ 0 :: tail, text.length, cur, k⟩ = some c') :
    ∃ first last, Shows first bytes ∧ last.length = e.toNat ∧
      Reads h (h.nFilledLen.toNat - e.toNat) last ∧ 3 * e.toNat + 8 ≤ tail.length ∧
      cString c'.buffer = first ++ (separatorFormat ++ shown 0 0 last) := by
  obtain ⟨pre, blank, rfl, hspace⟩ := hshows.space hne
  rw [dump_end_eq] at hend
  split_ifs at hend with hseparator
  obtain ⟨last, hlength, hreads, hroom, hbuffer, -⟩ := dump_bytes_some hend
  have hbehind : ∃ rest, behind e.toNat (0 :: tail.drop 8) = 0 :: rest := by
    unfold behind
    split_ifs
    · exact ⟨_, rfl⟩
    · exact ⟨_, rfl⟩
  obtain ⟨rest, hrest⟩ := hbehind
  refine ⟨pre ++ [32], last, hspace, hlength, hreads, ?_, ?_⟩
  · rw [List.length_cons, List.length_drop] at hroom
    omega
  · rw [hbuffer, hrest, List.append_assoc _ separatorFormat]
    refine c_string_append (fun c hc => ?_) rest
    rcases List.mem_append.mp hc with hc | hc
    · exact (hspace.ne c hc).1
    · rcases List.mem_append.mp hc with hc | hc
      · exact of_decide_eq_true
          (List.all_eq_true.mp (by decide : separatorFormat.all (· ≠ 0) = true) c hc)
      · exact (shows_shown.ne c hc).1

theorem exists_dump_end {bytes last : List UInt8} {e : UInt32} (hshows : Shows text bytes)
    (hne : bytes ≠ []) (hlast : last.length = e.toNat)
    (hreads : Reads h (h.nFilledLen.toNat - e.toNat) last)
    (hroom : 3 * e.toNat + 8 ≤ tail.length) :
    ∃ c', dumpEnd h e ⟨text ++ 0 :: tail, text.length, cur, k⟩ = some c' := by
  obtain ⟨pre, blank, rfl, -⟩ := hshows.space hne
  rw [← hlast] at hreads
  rw [dump_end_eq, if_pos (by omega), ← hlast]
  refine exists_dump_bytes hreads fun _ => ?_
  rw [List.length_cons, List.length_drop]
  omega

end Loop

section Counts
variable {b e size : UInt32}

theorem to_nat_bytes_to_dump (he : 2 * e.toNat < 4294967296) :
    (bytesToDump b e).toNat = max b.toNat (2 * e.toNat) := by
  have h2 : (2 * e).toNat = 2 * e.toNat := by
    rw [UInt32.toNat_mul]
    exact Nat.mod_eq_of_lt he
  unfold bytesToDump
  split_ifs with hlt
  · rw [UInt32.lt_iff_toNat_lt] at hlt
    omega
  · rw [UInt32.lt_iff_toNat_lt] at hlt
    omega

theorem le_bytes_to_dump : (2 * e.toNat) % 4294967296 ≤ (bytesToDump b e).toNat := by
  have h2 : (2 * e).toNat = (2 * e.toNat) % 4294967296 := UInt32.toNat_mul 2 e
  unfold bytesToDump
  split_ifs with hlt
  · omega
  · rw [UInt32.lt_iff_toNat_lt] at hlt
    omega

theorem needed_le : (neededBufferSize b).toNat ≤ 3 * b.toNat + 8 := by
  have h3 : (3 : UInt32).toNat = 3 := rfl
  have h8 : (8 : UInt32).toNat = 8 := rfl
  unfold neededBufferSize
  rw [UInt32.toNat_add, UInt32.toNat_mul, h3, h8]
  omega

/-- Room for the text of the first and the last bytes and the separator means that no count
wraps around, and that the string buffer was large enough before. -/
theorem no_wrap {n : Nat} (hfirst : n = (bytesToDump b e - e).toNat)
    (hroom : 3 * n + 3 * e.toNat + 9 ≤ size.toNat ∨
      3 * n + 3 * e.toNat + 9 ≤ (neededBufferSize (bytesToDump b e)).toNat) :
    2 * e.toNat < 4294967296 ∧ n = max b.toNat (2 * e.toNat) - e.toNat ∧
      3 * max b.toNat (2 * e.toNat) + 9 ≤ size.toNat := by
  have hsize := size.toNat_lt
  have he := e.toNat_lt
  have hneeded : (neededBufferSize (bytesToDump b e)).toNat ≤ 3 * (bytesToDump b e).toNat + 8 :=
    needed_le
  have hneeded' := (neededBufferSize (bytesToDump b e)).toNat_lt
  have hlow : (2 * e.toNat) % 4294967296 ≤ (bytesToDump b e).toNat := le_bytes_to_dump
  have hcount := (bytesToDump b e).toNat_lt
  rw [UInt32.toNat_sub] at hfirst
  have hsmall : 2 * e.toNat < 4294967296 := by omega
  have heq : (bytesToDump b e).toNat = max b.toNat (2 * e.toNat) := to_nat_bytes_to_dump hsmall
  omega

end Counts

section Main
variable {h : Header} {size b e perLines n : UInt32} {old : List UInt8} {fresh : Nat → UInt8}

theorem length_string_buffer {needed : UInt32} :
    (stringBuffer old fresh needed).length = max old.length needed.toNat := by
  unfold stringBuffer
  split_ifs with hlt
  · rw [List.length_map, List.length_range]
    omega
  · omega

/-- A string buffer of zeros, kept or new. -/
theorem zero_string_buffer {needed : UInt32} :
    ∀ c ∈ stringBuffer (List.replicate size.toNat 0) (fun _ => 0) needed, c = 0 := by
  intro c hc
  unfold stringBuffer at hc
  split_ifs at hc
  · obtain ⟨i, -, rfl⟩ := List.mem_map.mp hc
    rfl
  · exact List.eq_of_mem_replicate hc

theorem str_buffer_data_all (hf : h.nFilledLen ≠ 0)
    (hfirst : firstBytes h.nFilledLen (bytesToDump b e) e = (n, false)) :
    strBufferData h old fresh b e perLines = (dumpBytes h perLines.toNat n.toNat
      ⟨stringBuffer old fresh (neededBufferSize (bytesToDump b e)), 0, h.nOffset.toNat, 0⟩).map
        Cursor.buffer := by
  unfold strBufferData
  rw [if_neg hf, hfirst]
  dsimp only
  cases dumpBytes h perLines.toNat n.toNat
      ⟨stringBuffer old fresh (neededBufferSize (bytesToDump b e)), 0, h.nOffset.toNat, 0⟩ with
  | none => rfl
  | some c => rfl

theorem str_buffer_data_end (hf : h.nFilledLen ≠ 0)
    (hfirst : firstBytes h.nFilledLen (bytesToDump b e) e = (n, true)) :
    strBufferData h old fresh b e perLines = ((dumpBytes h perLines.toNat n.toNat
      ⟨stringBuffer old fresh (neededBufferSize (bytesToDump b e)), 0, h.nOffset.toNat, 0⟩).bind
        (dumpEnd h e)).map Cursor.buffer := by
  unfold strBufferData
  rw [if_neg hf, hfirst]
  dsimp only
  cases dumpBytes h perLines.toNat n.toNat
      ⟨stringBuffer old fresh (neededBufferSize (bytesToDump b e)), 0, h.nOffset.toNat, 0⟩ with
  | none => rfl
  | some c =>
    change Option.bind (dumpEnd h e c) _ = Option.map _ (dumpEnd h e c)
    cases dumpEnd h e c with
    | none => rfl
    | some c => rfl

/-- Without the end, a byte is missing, or the separator is. -/
theorem not_correct_all (hf : h.nFilledLen ≠ 0)
    (hfirst : firstBytes h.nFilledLen (bytesToDump b e) e = (n, false)) :
    ¬Correct h size b e perLines := by
  intro hcorrect
  obtain ⟨buffer, hrun, hdisplays⟩ :=
    hcorrect (List.replicate size.toNat 0) (fun _ => 0) List.length_replicate
  rw [str_buffer_data_all hf hfirst] at hrun
  obtain ⟨c, hloop, rfl⟩ := Option.map_eq_some_iff.mp hrun
  obtain ⟨bytes, hn, hstring⟩ := c_string_dump_bytes zero_string_buffer hloop
  rw [hstring] at hdisplays
  have hf0 : h.nFilledLen.toNat ≠ 0 := fun h0 => hf (UInt32.toNat_inj.mp h0)
  unfold firstBytes at hfirst
  unfold Displays at hdisplays
  by_cases hall : h.nFilledLen ≤ bytesToDump b e
  · rw [if_pos hall, Prod.mk.injEq] at hfirst
    rw [if_pos (UInt32.le_iff_toNat_le.mp hall)] at hdisplays
    have hlength := (shows_shown (L := perLines.toNat) (k := 0)).length.symm.trans hdisplays.length
    have hone : (h.nFilledLen - 1).toNat = h.nFilledLen.toNat - 1 :=
      UInt32.toNat_sub_of_le _ _ (UInt32.le_iff_toNat_le.mpr (Nat.one_le_iff_ne_zero.mpr hf0))
    rw [length_valid, hn, ← hfirst.1, hone] at hlength
    omega
  · rw [if_neg fun h => hall (UInt32.le_iff_toNat_le.mpr h)] at hdisplays
    obtain ⟨first, last, htext, -, -⟩ := hdisplays
    have hbracket : (91 : UInt8) ∈ shown perLines.toNat 0 bytes := by
      rw [htext]
      exact List.mem_append_right _ (List.mem_append_left _ (by decide))
    exact (shows_shown.ne _ hbracket).2 rfl

theorem correct_nothing_iff (hf : h.nFilledLen = 0) : Correct h size b e perLines ↔
    (size ≠ 0 ∨ neededBufferSize (bytesToDump b e) ≠ 0) := by
  have hrun : ∀ old fresh, strBufferData h old fresh b e perLines =
      store (stringBuffer old fresh (neededBufferSize (bytesToDump b e))) 0 [0] := fun old fresh =>
    if_pos hf
  constructor
  · intro hcorrect
    obtain ⟨buffer, hsome, -⟩ :=
      hcorrect (List.replicate size.toNat 0) (fun _ => 0) List.length_replicate
    rw [hrun] at hsome
    unfold store at hsome
    split_ifs at hsome with hroom
    rw [length_string_buffer, List.length_replicate] at hroom
    rw [Ne, Ne, ← UInt32.toNat_inj, ← UInt32.toNat_inj]
    change 0 + 1 ≤ _ at hroom
    change ¬size.toNat = 0 ∨ ¬_ = 0
    omega
  · intro hroom old fresh hold
    have hlength : 0 < (stringBuffer old fresh (neededBufferSize (bytesToDump b e))).length := by
      rw [length_string_buffer, hold]
      rw [Ne, Ne, ← UInt32.toNat_inj, ← UInt32.toNat_inj] at hroom
      change ¬size.toNat = 0 ∨ ¬_ = 0 at hroom
      omega
    have hvalid : h.valid = [] := by
      rw [← List.length_eq_zero_iff, length_valid, hf]
      rfl
    rw [hrun]
    cases hbuffer : stringBuffer old fresh (neededBufferSize (bytesToDump b e)) with
    | nil =>
      rw [hbuffer] at hlength
      cases hlength
    | cons c rest =>
      refine ⟨0 :: rest, ?_, ?_⟩
      · unfold store
        exact if_pos (Nat.succ_le_succ (Nat.zero_le _))
      · unfold Displays
        rw [hvalid, hf]
        exact (if_pos (Nat.zero_le _)).mpr rfl

/-- The two loops when the end is printed, with what they read and the room they take. -/
theorem end_some {start : List UInt8} {c c' : Cursor}
    (hloop : dumpBytes h perLines.toNat n.toNat ⟨start, 0, h.nOffset.toNat, 0⟩ = some c)
    (hend : dumpEnd h e c = some c') :
    ∃ bytes first last, n.toNat ≠ 0 ∧ bytes.length = n.toNat ∧
      Reads h h.nOffset.toNat bytes ∧ Shows first bytes ∧ last.length = e.toNat ∧
      Reads h (h.nFilledLen.toNat - e.toNat) last ∧
      3 * n.toNat + 3 * e.toNat + 9 ≤ start.length ∧
      cString c'.buffer = first ++ (separatorFormat ++ shown 0 0 last) := by
  have hloop : dumpBytes h perLines.toNat n.toNat
    ⟨[] ++ start, ([] : List UInt8).length, h.nOffset.toNat, 0⟩ = some c := hloop
  obtain ⟨bytes, hn, hreads, hroom, hbuffer, hstr⟩ := dump_bytes_some hloop
  obtain ⟨buffer, str, current, line⟩ := c
  have hstr : str = 3 * n.toNat := hstr.trans (Nat.zero_add _)
  have hbuffer : buffer = shown perLines.toNat 0 bytes ++ behind n.toNat start := hbuffer
  have hn0 : n.toNat ≠ 0 := by
    intro hn0
    rw [hn0] at hstr
    rw [hstr] at hend
    cases hend
  have hne : bytes ≠ [] := fun hnil => hn0 (hn.symm.trans (congrArg List.length hnil))
  have hstr' : str = (shown perLines.toNat 0 bytes).length := by
    rw [shows_shown.length, hn]
    exact hstr
  unfold behind at hbuffer
  rw [if_neg hn0] at hbuffer
  rw [hbuffer, hstr'] at hend
  obtain ⟨first, last, hfirst, hlast, hreads', hroom', hstring⟩ :=
    dump_end_some shows_shown hne hend
  have hroom := hroom hn0
  rw [List.length_drop] at hroom'
  exact ⟨bytes, first, last, hn0, hn, hreads, hfirst, hlast, hreads', by omega, hstring⟩

theorem exists_end {start bytes last : List UInt8} (hn0 : n.toNat ≠ 0) (hn : bytes.length = n.toNat)
    (hreads : Reads h h.nOffset.toNat bytes) (hlast : last.length = e.toNat)
    (hreads' : Reads h (h.nFilledLen.toNat - e.toNat) last)
    (hroom : 3 * n.toNat + 3 * e.toNat + 9 ≤ start.length) :
    ∃ c c', dumpBytes h perLines.toNat n.toNat ⟨start, 0, h.nOffset.toNat, 0⟩ = some c ∧
      dumpEnd h e c = some c' := by
  have hfirst : ∃ c, dumpBytes h perLines.toNat bytes.length
      ⟨[] ++ start, ([] : List UInt8).length, h.nOffset.toNat, 0⟩ = some c :=
    exists_dump_bytes hreads fun _ => by omega
  obtain ⟨c, hloop⟩ := hfirst
  obtain ⟨bytes', hn', hread, -, hbuffer, hstr⟩ := dump_bytes_some hloop
  obtain rfl : bytes = bytes' := hreads.unique hread hn'.symm
  obtain ⟨buffer, str, current, line⟩ := c
  have hstr : str = (shown perLines.toNat 0 bytes).length := by
    rw [shows_shown.length]
    exact hstr.trans (Nat.zero_add _)
  have hbuffer : buffer = shown perLines.toNat 0 bytes ++ behind bytes.length start := hbuffer
  have hne : bytes ≠ [] := fun hnil => hn0 (hn.symm.trans (congrArg List.length hnil))
  unfold behind at hbuffer
  rw [hn, if_neg hn0] at hbuffer
  rw [hbuffer, hstr, hn] at hloop
  have hend : ∃ c', dumpEnd h e ⟨shown perLines.toNat 0 bytes ++
      0 :: start.drop (3 * n.toNat + 1), (shown perLines.toNat 0 bytes).length, current, line⟩ =
        some c' := by
    refine exists_dump_end shows_shown hne hlast hreads' ?_
    rw [List.length_drop]
    omega
  obtain ⟨c', hend⟩ := hend
  exact ⟨_, c', hloop, hend⟩

theorem first_bytes_end {f nb : UInt32} :
    firstBytes f nb e = (n, true) ↔ nb < f ∧ nb + e < f ∧ n = nb - e := by
  unfold firstBytes
  rw [← UInt32.not_le, ← UInt32.not_le]
  split_ifs with hall hboth
  · exact iff_of_false (fun h => by cases h) fun h => h.1 hall
  · exact iff_of_false (fun h => by cases h) fun h => h.2.1 hboth
  · rw [Prod.mk.injEq, and_iff_left rfl, eq_comm]
    exact ⟨fun h => ⟨hall, hboth, h⟩, fun h => h.2.2⟩

theorem to_nat_both (hsmall : 2 * e.toNat < 4294967296)
    (hroom : 3 * max b.toNat (2 * e.toNat) + 9 ≤ size.toNat) :
    (bytesToDump b e + e).toNat = max b.toNat (2 * e.toNat) + e.toNat := by
  have hsize := size.toNat_lt
  rw [UInt32.toNat_add, to_nat_bytes_to_dump hsmall]
  omega

/-- The bytes before `nFilledLen`, as the second loop reads them. -/
theorem reads_end (hbefore : h.nOffset.toNat + e.toNat ≤ h.nFilledLen.toNat) :
    Reads h (h.nFilledLen.toNat - e.toNat)
      ((h.pBuffer.drop (h.nFilledLen.toNat - e.toNat)).take e.toNat) := by
  have hcast : (h.nFilledLen.toNat : Int) - e.toNat = (h.nFilledLen.toNat - e.toNat : Nat) := by
    omega
  rw [hcast]
  exact reads_take (by omega) (by omega)

theorem length_end (hbefore : h.nOffset.toNat + e.toNat ≤ h.nFilledLen.toNat) :
    ((h.pBuffer.drop (h.nFilledLen.toNat - e.toNat)).take e.toNat).length = e.toNat := by
  have hwithin := h.within
  rw [List.length_take, List.length_drop]
  omega

theorem correct_end (hf : h.nFilledLen ≠ 0)
    (hfirst : firstBytes h.nFilledLen (bytesToDump b e) e = (n, true))
    (hcorrect : Correct h size b e perLines) : Prints h size b e := by
  obtain ⟨buffer, hrun, hdisplays⟩ :=
    hcorrect (List.replicate size.toNat 0) (fun _ => 0) List.length_replicate
  rw [str_buffer_data_end hf hfirst] at hrun
  obtain ⟨c', hends, rfl⟩ := Option.map_eq_some_iff.mp hrun
  obtain ⟨c, hloop, hend⟩ := Option.bind_eq_some_iff.mp hends
  obtain ⟨bytes, first, last, hn0, hn, -, hshows, hlast, hreads, hroom, hstring⟩ :=
    end_some hloop hend
  obtain ⟨hall, hboth, rfl⟩ := first_bytes_end.mp hfirst
  rw [length_string_buffer, List.length_replicate] at hroom
  obtain ⟨hsmall, hn', hsize⟩ : 2 * e.toNat < 4294967296 ∧
      (bytesToDump b e - e).toNat = max b.toNat (2 * e.toNat) - e.toNat ∧
        3 * max b.toNat (2 * e.toNat) + 9 ≤ size.toNat := no_wrap rfl (by omega)
  have hnb : (bytesToDump b e).toNat = max b.toNat (2 * e.toNat) := to_nat_bytes_to_dump hsmall
  rw [UInt32.lt_iff_toNat_lt, to_nat_both hsmall hsize] at hboth
  rw [UInt32.lt_iff_toNat_lt] at hall
  refine .inr ⟨hboth, by omega, hsize, ?_⟩
  by_cases he : e.toNat = 0
  · exact .inl (UInt32.toNat_inj.mp he)
  · right
    have hne : last ≠ [] := fun hnil => he (hlast.symm.trans (congrArg List.length hnil))
    have hbounds := hreads.bounds hne
    have hbefore : h.nOffset.toNat + e.toNat ≤ h.nFilledLen.toNat := by omega
    refine ⟨hbefore, ?_⟩
    rw [← hreads.unique (reads_end hbefore) (hlast.trans (length_end hbefore).symm)]
    unfold Displays at hdisplays
    rw [if_neg (Nat.not_le.mpr hall), hnb, hstring] at hdisplays
    obtain ⟨first', last', htext, hfirst', hlast'⟩ := hdisplays
    have hlength : first.length = first'.length := by
      rw [hshows.length, hfirst'.length, List.length_take, length_valid, hn, hn']
      omega
    have hshown : shown 0 0 last = last' :=
      List.append_cancel_left (List.append_inj htext hlength).2
    rw [← hshown] at hlast'
    exact shows_shown.injective hlast'

theorem end_correct (hf : h.nFilledLen ≠ 0) (hprints : Prints h size b e) :
    Correct h size b e perLines := by
  obtain ⟨hnothing, -⟩ | ⟨hboth, hpos, hsize, hend⟩ := hprints
  · exact absurd hnothing hf
  have hsize' := size.toNat_lt
  have hsmall : 2 * e.toNat < 4294967296 := by omega
  have hnb : (bytesToDump b e).toNat = max b.toNat (2 * e.toNat) := to_nat_bytes_to_dump hsmall
  have hfirst : firstBytes h.nFilledLen (bytesToDump b e) e = (bytesToDump b e - e, true) := by
    rw [first_bytes_end, UInt32.lt_iff_toNat_lt, UInt32.lt_iff_toNat_lt, hnb,
      to_nat_both hsmall hsize]
    exact ⟨by omega, hboth, rfl⟩
  have hn : (bytesToDump b e - e).toNat = max b.toNat (2 * e.toNat) - e.toNat := by
    rw [UInt32.toNat_sub_of_le _ _ (UInt32.le_iff_toNat_le.mpr (by omega)), hnb]
  have hlast : ∃ last, last.length = e.toNat ∧ Reads h (h.nFilledLen.toNat - e.toNat) last ∧
      last = h.valid.drop (h.nFilledLen.toNat - e.toNat) := by
    rcases hend with rfl | ⟨hbefore, hsame⟩
    · refine ⟨[], rfl, trivial, (List.drop_eq_nil_of_le ?_).symm⟩
      rw [length_valid]
      exact Nat.le_refl _
    · exact ⟨_, length_end hbefore, reads_end hbefore, hsame⟩
  obtain ⟨last, hlast, hreads', hsame⟩ := hlast
  have hlength : (h.valid.take (bytesToDump b e - e).toNat).length =
      (bytesToDump b e - e).toNat := by
    rw [List.length_take, length_valid]
    omega
  intro old fresh hold
  have hroom : 3 * (bytesToDump b e - e).toNat + 3 * e.toNat + 9 ≤
      (stringBuffer old fresh (neededBufferSize (bytesToDump b e))).length := by
    rw [length_string_buffer, hold]
    omega
  have hreads : Reads h h.nOffset.toNat (h.valid.take (bytesToDump b e - e).toNat) :=
    reads_valid (by omega)
  obtain ⟨c, c', hloop, hrun⟩ : ∃ c c', dumpBytes h perLines.toNat (bytesToDump b e - e).toNat
      ⟨stringBuffer old fresh (neededBufferSize (bytesToDump b e)), 0, h.nOffset.toNat, 0⟩ =
        some c ∧ dumpEnd h e c = some c' :=
    exists_end (by omega) hlength hreads hlast hreads' hroom
  obtain ⟨bytes, first, last', -, hbytes, hread, hshows, hlast', hread', -, hstring⟩ :=
    end_some hloop hrun
  refine ⟨c'.buffer, ?_, ?_⟩
  · rw [str_buffer_data_end hf hfirst, hloop, Option.bind_some, hrun]
    rfl
  · unfold Displays
    rw [hnb, if_neg (by omega), ← hn, ← hsame, hreads.unique hread (hlength.trans hbytes.symm),
      hreads'.unique hread' (hlast.trans hlast'.symm)]
    exact ⟨first, _, hstring, hshows, shows_shown⟩


theorem correct_iff (h : Header) (size nb_bytes_to_dump nb_end_bytes nb_bytes_per_lines : UInt32) :
    Correct h size nb_bytes_to_dump nb_end_bytes nb_bytes_per_lines ↔
      Prints h size nb_bytes_to_dump nb_end_bytes := by
  by_cases hf : h.nFilledLen = 0
  · rw [correct_nothing_iff hf]
    refine ⟨fun hroom => .inl ⟨hf, hroom⟩, fun hprints => ?_⟩
    rcases hprints with ⟨-, hroom⟩ | ⟨hboth, -⟩
    · exact hroom
    · rw [hf] at hboth
      cases hboth
  · refine ⟨fun hcorrect => ?_, end_correct hf⟩
    rcases hfirst : firstBytes h.nFilledLen (bytesToDump nb_bytes_to_dump nb_end_bytes)
      nb_end_bytes with ⟨n, dump_end⟩
    cases dump_end with
    | false => exact absurd hcorrect (not_correct_all hf hfirst)
    | true => exact correct_end hf hfirst hcorrect

example : (strBufferData ⟨[171, 5, 160], 0, 3, by decide⟩ (List.replicate 15 0) (fun _ => 0)
    2 0 2).map cString = some ([97, 98, 32, 48, 53, 32] ++ separatorFormat) := by decide

/-- Two bytes are dumped, sixteen are asked for: the second byte is not shown. -/
theorem last_byte_missing : ¬Correct ⟨[1, 2], 0, 2, by decide⟩ 100 16 0 16 :=
  not_correct_all (by decide) (by decide : firstBytes 2 (bytesToDump 16 0) 0 = (1, false))

end Main

end Codinalte.Stelp.BufferDump
