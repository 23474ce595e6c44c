import Codinalte.Stelp.CircularBuffer

/-! The dump of the circular buffer: what it writes to the file, and when that is the messages that
are complete in the buffer. -/

namespace Codinalte.Stelp.CircularBuffer
open Lines

/-- `strstr(s, "\n")`: the offset of the newline, if it comes before the end of the string; `none`
when the bytes end first. -/
def strstr : List UInt8 → Option (Option Nat)
  | [] => none
  | c :: s =>
    if c = 0 then some none
    else if c = newline then some (some 0)
    else (strstr s).map (Option.map (· + 1))

/-- `write`: a negative count is a size that the call refuses; `none` is a read outside the
buffer. -/
def write (buf : List UInt8) (off : Nat) (count : Int) : Option (List UInt8) :=
  if count < 0 then some []
  else if off + count.toNat ≤ buf.length then some ((buf.drop off).take count.toNat)
  else none

/-- Where the dump starts and `circ_buf_filled_length`. -/
def dumpStart (c : Circ) : Option (Nat × Int) :=
  if c.circular_buffer_full then do
    let startfrom ← strstr (c.circ_buf.drop c.write_ptr_offset)
    return startfrom.elim
      (c.write_ptr_offset, c.circ_buf.length - c.discardable_bytecount)
      fun k => (c.write_ptr_offset + (k + 1),
        c.circ_buf.length - c.discardable_bytecount - (k + 1 : Nat))
  else some (0, c.write_ptr_offset)

def dumpCircularbuffer (c : Circ) : Option (List UInt8) := do
  let (initial_offset, circ_buf_filled_length) ← dumpStart c
  let first ← write c.circ_buf initial_offset (circ_buf_filled_length - initial_offset - 1)
  let second ← write c.circ_buf 0 (initial_offset + 1)
  return first ++ second

section Messages
variable {circ_buf_size : Nat}

/-- A message that is a newline only. -/
def Message.bare (m : Message circ_buf_size) : Prop := m.text = []

/-- The messages of a full buffer, `old` from the write offset on and `new` before it: all are bare
newlines, and at least two are old, or the old ones are one message without a zero and a bare
newline, and the new ones are repetitions of these two. -/
def WholeAt (old new : List (Message circ_buf_size)) : Prop :=
  ((∀ m ∈ old ++ new, m.bare) ∧ 2 ≤ old.length) ∨
    ∃ text j, 0 ∉ text ∧ old.map Message.text = [text, []] ∧
      new.map Message.text = (List.replicate j [text, []]).flatten

/-- Before the buffer was full the first message is a bare newline; later the oldest message begins
at the write offset, and the messages are as above. -/
def DumpsWhole (c : Circ) (placed : Placed circ_buf_size) : Prop :=
  if c.circular_buffer_full then
    placed.head?.map Prod.fst = some c.write_ptr_offset ∧
      WholeAt ((placed.filter (c.write_ptr_offset ≤ ·.1)).map Prod.snd)
        ((placed.filter (·.1 < c.write_ptr_offset)).map Prod.snd)
  else ∃ p, placed.head? = some p ∧ p.2.bare

section Reads

theorem strstr_line {l r : List UInt8} (hl : newline ∉ l) :
    strstr (l ++ newline :: r) = some (if 0 ∈ l then none else some l.length) := by
  induction l with
  | nil => rfl
  | cons b l ih =>
    obtain ⟨hb, hl⟩ := not_or.mp (mt List.mem_cons.mpr hl)
    rw [List.cons_append, strstr, ih hl, if_neg (Ne.symm hb)]
    by_cases hzero : b = 0
    · rw [if_pos hzero, if_pos (hzero ▸ List.mem_cons_self)]
    · rw [if_neg hzero]
      by_cases hmem : 0 ∈ l
      · rw [if_pos hmem, if_pos (List.mem_cons_of_mem _ hmem)]
        rfl
      · rw [if_neg hmem, if_neg fun h => (List.mem_cons.mp h).elim (fun h => hzero h.symm) hmem]
        rfl

theorem strstr_zeros {z : Nat} (hz : 0 < z) : strstr (List.replicate z 0) = some none := by
  obtain ⟨n, rfl⟩ := Nat.exists_eq_succ_of_ne_zero hz.ne'
  rfl

theorem write_of_le {buf : List UInt8} {off n : Nat} {count : Int} (hcount : count = n)
    (h : off + n ≤ buf.length) : write buf off count = some ((buf.drop off).take n) := by
  subst hcount
  exact (if_neg (by omega)).trans (if_pos h)

theorem write_length {buf out : List UInt8} {off : Nat} {count : Int}
    (h : write buf off count = some out) : out.length = count.toNat := by
  unfold write at h
  split_ifs at h with hneg hle
  · cases h
    rw [Int.toNat_of_nonpos (by omega)]
    rfl
  · obtain rfl := Option.some_inj.mp h
    rw [List.length_take, List.length_drop]
    omega

theorem write_of_neg {buf : List UInt8} {off : Nat} {count : Int} (hcount : count < 0) :
    write buf off count = some [] :=
  if_pos hcount

end Reads

section Texts
variable {m : Message circ_buf_size} {back cur : List (Message circ_buf_size)}

theorem flat_eq_lines (ms : List (Message circ_buf_size)) :
    ms.flatMap Message.bytes = (ms.map Message.text).flatMap (line newline) := by
  rw [List.flatMap_map]
  rfl

/-- What the dump writes when the message at the write offset ends in `l`, the messages `B` are
behind it and `V` before it. -/
def dumped (V l B : List UInt8) (z : Nat) : List UInt8 :=
  (if B.length ≤ l.length then [] else B.take (B.length - l.length - 1)) ++
    (V ++ (l ++ newline :: (B ++ List.replicate z 0).take 1))

theorem dumped_length {V l B : List UInt8} {z : Nat} (hz : 0 < z) :
    (dumped V l B z).length =
      if B.length ≤ l.length then V.length + l.length + 2 else B.length + V.length + 1 := by
  have htake : ((B ++ List.replicate z 0).take 1).length = 1 := by
    rw [List.length_take, List.length_append, List.length_replicate]
    omega
  unfold dumped
  rw [List.length_append, List.length_append, List.length_append, List.length_cons, htake]
  split_ifs
  · rw [List.length_nil]
    omega
  · rw [List.length_take]
    omega

/-- The rest of a broken message is left out, but one byte too much is written. -/
theorem dumped_ne_of_broken {V l B : List UInt8} {z : Nat} (hz : 0 < z) :
    dumped V l B z ≠ B ++ V := by
  intro h
  have hlength := congrArg List.length h
  rw [dumped_length hz, List.length_append] at hlength
  split_ifs at hlength <;> omega

theorem flat_of_bare {ms : List (Message circ_buf_size)} (h : ∀ m ∈ ms, m.bare) :
    ms.flatMap Message.bytes = List.replicate ms.length newline := by
  induction ms with
  | nil => rfl
  | cons m ms ih =>
    obtain ⟨hm, hms⟩ := List.forall_mem_cons.mp h
    rw [List.flatMap_cons, ih hms, Message.bytes, show m.text = [] from hm, List.length_cons,
      List.replicate_succ]
    rfl

theorem bare_of_flat {ms : List (Message circ_buf_size)}
    (h : ∀ b ∈ ms.flatMap Message.bytes, b = newline) : ∀ m ∈ ms, m.bare := by
  intro m hm
  refine List.eq_nil_iff_forall_not_mem.mpr fun b hb => ?_
  have hnewline := h b (List.mem_flatMap.mpr ⟨m, hm, List.mem_append_left _ hb⟩)
  exact m.newline_notMem (hnewline ▸ hb)

theorem exists_flat_end {ms : List (Message circ_buf_size)} (h : ms ≠ []) :
    ∃ y, ms.flatMap Message.bytes = y ++ [newline] := by
  obtain ⟨front, m, rfl⟩ := List.eq_nil_or_concat' ms |>.resolve_left h
  refine ⟨front.flatMap Message.bytes ++ m.text, ?_⟩
  rw [List.flatMap_append, List.flatMap_singleton, List.append_assoc]
  rfl

/-- All messages are bare newlines. -/
theorem dumped_of_bare {z : Nat} (hm : m.bare) (hback : ∀ m ∈ back, m.bare)
    (hcur : ∀ m ∈ cur, m.bare) (hne : back ≠ []) :
    dumped (cur.flatMap Message.bytes) m.text (back.flatMap Message.bytes) z =
      m.bytes ++ (back.flatMap Message.bytes ++ cur.flatMap Message.bytes) := by
  obtain ⟨b, hb⟩ := Nat.exists_eq_succ_of_ne_zero (mt List.length_eq_zero_iff.mp hne)
  rw [flat_of_bare hback, flat_of_bare hcur, hb]
  unfold dumped Message.bytes
  rw [show m.text = [] from hm, List.length_replicate, List.length_nil,
    if_neg (Nat.not_succ_le_zero b), List.take_replicate]
  change _ ++ (_ ++ List.replicate 2 newline) = List.replicate 1 newline ++ _
  simp only [List.replicate_append_replicate]
  congr 1
  omega

/-- One message and a bare newline, and repetitions of these two before the write offset. -/
theorem dumped_of_repeated {z j : Nat} (hne : m.text ≠ []) (hback : back.map Message.text = [[]])
    (hcur : cur.map Message.text = (List.replicate j [m.text, []]).flatten) :
    dumped (cur.flatMap Message.bytes) m.text (back.flatMap Message.bytes) z =
      m.bytes ++ (back.flatMap Message.bytes ++ cur.flatMap Message.bytes) := by
  have hcommute := replicate_commute [m.text, []] (line newline) j
  have hone : 1 ≤ m.text.length := List.length_pos_iff.mpr hne
  rw [flat_eq_lines back, flat_eq_lines cur, hback, hcur]
  unfold dumped Message.bytes
  rw [if_pos (by exact hone), List.nil_append]
  simp only [line, List.flatMap_cons, List.flatMap_nil, List.append_nil, List.nil_append,
    List.append_assoc, List.cons_append] at hcommute ⊢
  exact hcommute

theorem back_of_length (h : (back.flatMap Message.bytes).length = 1) :
    back.map Message.text = [[]] := by
  cases back with
  | nil => cases h
  | cons m back =>
    have hm : m.bytes.length = m.text.length + 1 := List.length_append
    rw [List.flatMap_cons, List.length_append] at h
    have hnil : m.text = [] := List.length_eq_zero_iff.mp (by omega)
    cases back with
    | nil => rw [List.map_cons, hnil, List.map_nil]
    | cons m' back =>
      have hpos := m'.bytes_pos
      rw [List.flatMap_cons, List.length_append] at h
      omega

/-- When the message at the write offset is whole, the dump is right in these two cases only. -/
theorem dumped_eq_iff {z : Nat} (hz : 0 < z) :
    dumped (cur.flatMap Message.bytes) m.text (back.flatMap Message.bytes) z =
      m.bytes ++ (back.flatMap Message.bytes ++ cur.flatMap Message.bytes) ↔
        (m.bare ∧ (∀ m ∈ back, m.bare) ∧ (∀ m ∈ cur, m.bare) ∧ back ≠ []) ∨
        ∃ j, back.map Message.text = [[]] ∧
          cur.map Message.text = (List.replicate j [m.text, []]).flatten := by
  constructor
  · intro h
    have hlength := congrArg List.length h
    have hmlength : m.bytes.length = m.text.length + 1 := List.length_append
    rw [dumped_length hz, List.length_append, List.length_append, hmlength] at hlength
    split_ifs at hlength with hshort
    · have hback : back.map Message.text = [[]] := back_of_length (by omega)
      have hone : back.flatMap Message.bytes = [newline] := by
        rw [flat_eq_lines, hback]
        rfl
      rw [hone, List.length_singleton] at hshort
      have hcommute : (cur.map Message.text).flatMap (line newline) ++
          (line newline m.text ++ [newline]) = (line newline m.text ++ [newline]) ++
            (cur.map Message.text).flatMap (line newline) := by
        rw [← flat_eq_lines]
        rw [hone, dumped, List.length_singleton, if_pos hshort] at h
        simpa [line, Message.bytes] using h
      have hcur : ∀ s ∈ cur.map Message.text, newline ∉ s := by
        intro s hs
        obtain ⟨m', -, rfl⟩ := List.mem_map.mp hs
        exact m'.newline_notMem
      obtain ⟨j, hj⟩ := exists_replicate_of_commute m.newline_notMem
        (List.length_pos_iff.mp hshort) hcur hcommute
      exact .inr ⟨j, hback, hj⟩
    · have hm : m.text = [] := List.length_eq_zero_iff.mp (by omega)
      have hne : back ≠ [] := by
        rintro rfl
        exact hshort (Nat.zero_le _)
      obtain ⟨y, hy⟩ := exists_flat_end hne
      have hrotation : y ++ cur.flatMap Message.bytes ++ newline :: (y ++ [newline]).take 1 =
          newline :: y ++ newline :: cur.flatMap Message.bytes := by
        have htake : (y ++ [newline] ++ List.replicate z 0).take 1 = (y ++ [newline]).take 1 :=
          List.take_append_of_le_length (by rw [List.length_append]; exact Nat.le_add_left _ _)
        rw [hy, hm, List.length_append, List.length_singleton, List.length_nil] at hshort
        rw [dumped, Message.bytes, hy, hm, htake, List.length_append, List.length_singleton,
          List.length_nil, if_neg hshort] at h
        simpa [line] using h
      obtain ⟨hy', hcur⟩ := eq_replicate_of_rotation hrotation
      refine .inl ⟨hm, bare_of_flat fun b hb => ?_, bare_of_flat fun b hb => ?_, hne⟩
      · rw [hy] at hb
        rcases List.mem_append.mp hb with hb | hb
        · exact List.eq_of_mem_replicate (hy' ▸ hb)
        · exact List.mem_singleton.mp hb
      · rw [hcur] at hb
        exact List.eq_of_mem_replicate hb
  · rintro (⟨hm, hback, hcur, hne⟩ | ⟨j, hback, hcur⟩)
    · exact dumped_of_bare hm hback hcur hne
    · by_cases hm : m.text = []
      · rw [hm] at hcur
        refine dumped_of_bare hm (fun m' hm' => ?_) (fun m' hm' => ?_) ?_
        · exact List.mem_singleton.mp (hback ▸ List.mem_map_of_mem hm')
        · obtain ⟨pair, hpair, hmem⟩ := List.mem_flatten.mp (hcur ▸ List.mem_map_of_mem hm')
          rw [List.eq_of_mem_replicate hpair] at hmem
          have htext : m'.text = [] := by simpa using hmem
          exact htext
        · rintro rfl
          cases hback
      · exact dumped_of_repeated hm hback hcur

end Texts

section Dump
variable {c : Circ} {placed : Placed circ_buf_size} {prev cur : List (Message circ_buf_size)}
variable {z : Nat}

theorem drop_offset (h : Layout c placed prev cur z) : c.circ_buf.drop c.write_ptr_offset =
    (prev.flatMap Message.bytes).drop c.write_ptr_offset ++ List.replicate z 0 := by
  rw [h.buf, List.append_assoc, h.offset]
  exact List.drop_left

/-- The bytes that a placed message has are in the dump's reach: there are zeros behind them. -/
theorem zeros_pos (h : Layout c placed prev cur z) (hne : cur ≠ []) : 2 ≤ z := by
  obtain ⟨m, hm⟩ := List.exists_mem_of_ne_nil cur hne
  have hshort := m.bytes_short
  have hpos := m.bytes_pos
  exact h.zeros (by omega)

/-- Before the buffer was full the last byte is left out and the first one is written again. -/
theorem dump_not_full (h : Layout c placed prev cur z) (hfull : c.circular_buffer_full = false) :
    dumpCircularbuffer c = some ((placed.map Prod.snd).flatMap Message.bytes) ↔
      ∃ p, placed.head? = some p ∧ p.2.bare := by
  obtain rfl := h.notFull hfull
  have hplaced : placed = laid Message.bytes 0 cur := h.placed
  rw [hplaced, map_snd_laid]
  have hbuf : c.circ_buf = cur.flatMap Message.bytes ++ List.replicate z 0 := by
    rw [h.buf, List.flatMap_nil, List.drop_nil, List.append_nil]
  have hoffset := h.offset
  unfold dumpCircularbuffer dumpStart
  rw [hfull]
  simp only [Bool.false_eq_true, if_false, Option.bind_eq_bind, Option.bind_some]
  cases cur with
  | nil =>
    refine iff_of_false (fun hdump => ?_) fun ⟨_, hp, _⟩ => by cases hp
    obtain ⟨first, -, hdump⟩ := Option.bind_eq_some_iff.mp hdump
    obtain ⟨second, hsecond, hdump⟩ := Option.bind_eq_some_iff.mp hdump
    unfold write at hsecond
    rw [if_neg (by omega)] at hsecond
    split_ifs at hsecond with hle
    obtain rfl := Option.some_inj.mp hsecond
    have hlength := congrArg List.length (Option.some_inj.mp hdump)
    rw [List.length_append, List.length_take, List.drop_zero, List.flatMap_nil,
      List.length_nil] at hlength
    omega
  | cons m cur =>
    obtain ⟨y, hy⟩ := exists_flat_end (List.cons_ne_nil m cur)
    have hlength : c.circ_buf.length = y.length + 1 + z := by
      rw [hbuf, hy, List.length_append, List.length_append, List.length_replicate]
      rfl
    have hwp : c.write_ptr_offset = y.length + 1 := by
      rw [hoffset, hy, List.length_append]
      rfl
    rw [write_of_le (n := y.length) (by omega) (by omega),
      write_of_le (n := 1) (by omega) (by omega)]
    have hfirst : (c.circ_buf.drop 0).take y.length = y := by
      rw [hbuf, hy, List.append_assoc]
      exact List.take_left
    have hsecond : (c.circ_buf.drop 0).take 1 = (m.text ++ [newline]).take 1 := by
      rw [hbuf, List.flatMap_cons, List.append_assoc]
      exact List.take_append_of_le_length m.bytes_pos
    rw [hfirst, hsecond, hy]
    change some (y ++ _) = _ ↔ _
    rw [Option.some_inj, List.append_cancel_left_eq]
    constructor
    · intro htake
      refine ⟨_, rfl, ?_⟩
      cases htext : m.text with
      | nil => exact htext
      | cons b t =>
        rw [htext] at htake
        obtain ⟨rfl, -⟩ := List.cons_eq_cons.mp htake
        exact absurd (htext ▸ List.mem_cons_self) m.newline_notMem
    · rintro ⟨_, hp, hbare⟩
      cases hp
      rw [show m.text = [] from hbare]
      rfl

/-- Where the string from the write offset on has no newline, the dump is one byte too long. -/
theorem dump_no_newline (h : Layout c placed prev cur z) (hfull : c.circular_buffer_full = true)
    (hne : cur ≠ []) (hnone : strstr (c.circ_buf.drop c.write_ptr_offset) = some none)
    {out : List UInt8}
    (hout : out.length ≤ c.write_ptr_offset +
      ((prev.flatMap Message.bytes).length - c.write_ptr_offset)) :
    dumpCircularbuffer c ≠ some out := by
  have hdisc := h.full hfull
  have hlength := h.length_eq
  have hz := zeros_pos h hne
  intro hdump
  unfold dumpCircularbuffer dumpStart at hdump
  rw [hfull, hnone, h.size, hdisc] at hdump
  simp only [if_true, Option.bind_eq_bind, Option.bind_some, Option.elim_none,
    Option.pure_def] at hdump
  obtain ⟨first, hfirst, hdump⟩ := Option.bind_eq_some_iff.mp hdump
  obtain ⟨second, hsecond, hdump⟩ := Option.bind_eq_some_iff.mp hdump
  obtain rfl := Option.some_inj.mp hdump
  rw [List.length_append, write_length hfirst, write_length hsecond] at hout
  omega

/-- Where the string has a newline after `l`, this is what is written. -/
theorem dump_newline (h : Layout c placed prev cur z) (hfull : c.circular_buffer_full = true)
    (hne : cur ≠ []) {l B : List UInt8} (hnewline : newline ∉ l) (hzero : 0 ∉ l)
    (hrest : (prev.flatMap Message.bytes).drop c.write_ptr_offset = l ++ newline :: B) :
    dumpCircularbuffer c = some (dumped (cur.flatMap Message.bytes) l B z) := by
  have hdisc := h.full hfull
  have hz := zeros_pos h hne
  have hsize := h.length_eq
  have hlength := congrArg List.length hrest
  rw [List.length_drop, List.length_append, List.length_cons] at hlength
  have hbuf : c.circ_buf =
      cur.flatMap Message.bytes ++ (l ++ newline :: (B ++ List.replicate z 0)) := by
    rw [h.buf, hrest, List.append_assoc, List.append_assoc, List.cons_append]
  unfold dumpCircularbuffer dumpStart
  rw [hfull, drop_offset h, hrest, List.append_assoc, List.cons_append, strstr_line hnewline,
    if_neg hzero]
  simp only [if_true, Option.bind_eq_bind, Option.bind_some, Option.elim_some, Option.pure_def]
  rw [h.size, hdisc]
  have hsecond : write c.circ_buf 0 ((c.write_ptr_offset + (l.length + 1) : Nat) + 1) =
      some (cur.flatMap Message.bytes ++ (l ++ newline :: (B ++ List.replicate z 0).take 1)) := by
    rw [write_of_le (n := c.write_ptr_offset + (l.length + 1) + 1) (by omega)
      (by rw [h.size]; omega), hbuf, h.offset, Nat.add_assoc, List.drop_zero,
      List.take_length_add_append, Nat.add_assoc, List.take_length_add_append]
    rfl
  have hdrop : c.circ_buf.drop (c.write_ptr_offset + (l.length + 1)) =
      B ++ List.replicate z 0 := by
    rw [hbuf, h.offset, List.drop_length_add_append, List.drop_length_add_append]
    rfl
  have hfirst : write c.circ_buf (c.write_ptr_offset + (l.length + 1))
      ((circ_buf_size : Int) - (circ_buf_size - (prev.flatMap Message.bytes).length - 1) -
        (l.length + 1 : Nat) - (c.write_ptr_offset + (l.length + 1) : Nat) - 1) =
          some (if B.length ≤ l.length then [] else B.take (B.length - l.length - 1)) := by
    split_ifs with hshort
    · exact write_of_neg (by omega)
    · rw [write_of_le (n := B.length - l.length - 1) (by omega) (by rw [h.size]; omega), hdrop]
      exact congrArg some (List.take_append_of_le_length (by omega))
  rw [hfirst, hsecond]
  rfl

theorem whole_at_cons {m : Message circ_buf_size} {back : List (Message circ_buf_size)} :
    WholeAt (m :: back) cur ↔ 0 ∉ m.text ∧
      ((m.bare ∧ (∀ m ∈ back, m.bare) ∧ (∀ m ∈ cur, m.bare) ∧ back ≠ []) ∨
        ∃ j, back.map Message.text = [[]] ∧
          cur.map Message.text = (List.replicate j [m.text, []]).flatten) := by
  unfold WholeAt
  rw [List.cons_append, List.forall_mem_cons, List.forall_mem_append, List.length_cons]
  constructor
  · rintro (⟨⟨hm, hback, hcur⟩, hlength⟩ | ⟨text, j, hzero, hold, hnew⟩)
    · refine ⟨?_, .inl ⟨hm, hback, hcur, ?_⟩⟩
      · rw [show m.text = [] from hm]
        exact List.not_mem_nil
      · rintro rfl
        exact absurd hlength (Nat.not_succ_le_self 1)
    · obtain ⟨rfl, hback⟩ := List.cons_eq_cons.mp hold
      exact ⟨hzero, .inr ⟨j, hback, hnew⟩⟩
  · rintro ⟨hzero, ⟨hm, hback, hcur, hne⟩ | ⟨j, hback, hcur⟩⟩
    · exact .inl ⟨⟨hm, hback, hcur⟩, Nat.succ_le_succ (List.length_pos_iff.mpr hne)⟩
    · exact .inr ⟨m.text, j, hzero, by rw [List.map_cons, hback], hcur⟩

theorem filter_old (h : Layout c placed prev cur z) :
    placed.filter (c.write_ptr_offset ≤ ·.1) =
      (laid Message.bytes 0 prev).filter (c.write_ptr_offset ≤ ·.1) := by
  have hnew : (laid Message.bytes 0 cur).filter (c.write_ptr_offset ≤ ·.1) = [] :=
    filter_laid_front Message.bytes_pos (by rw [h.offset, Nat.zero_add])
  rw [h.placed, List.filter_append, hnew, List.append_nil, List.filter_filter]
  simp only [Bool.and_self]

theorem filter_new (h : Layout c placed prev cur z) :
    placed.filter (·.1 < c.write_ptr_offset) = laid Message.bytes 0 cur := by
  have hold : ((laid Message.bytes 0 prev).filter (c.write_ptr_offset ≤ ·.1)).filter
      (·.1 < c.write_ptr_offset) = [] := by
    refine List.filter_eq_nil_iff.mpr fun p hp hlt => ?_
    have hle := of_decide_eq_true (List.mem_filter.mp hp).2
    exact Nat.not_lt.mpr hle (of_decide_eq_true hlt)
  have hnew : (laid Message.bytes 0 cur).filter (·.1 < c.write_ptr_offset) =
      laid Message.bytes 0 cur := by
    refine List.filter_eq_self.mpr fun p hp => decide_eq_true ?_
    have hpos := p.2.bytes_pos
    have hend := (laid_bounds hp).2
    rw [h.offset]
    omega
  rw [h.placed, List.filter_append, hold, hnew, List.nil_append]

/-- The oldest message of the new lap is at the beginning. -/
theorem head_ne_offset (h : Layout c placed prev cur z) (hne : cur ≠ [])
    (hold : ∀ p ∈ (laid Message.bytes 0 prev).filter (c.write_ptr_offset ≤ ·.1),
      p.1 ≠ c.write_ptr_offset) :
    placed.head?.map Prod.fst ≠ some c.write_ptr_offset := by
  intro hhead
  obtain ⟨p, hp, hfst⟩ := Option.map_eq_some_iff.mp hhead
  have hmem := List.mem_of_head? hp
  rw [h.placed] at hp hmem
  cases hlist : (laid Message.bytes 0 prev).filter (c.write_ptr_offset ≤ ·.1) with
  | nil =>
    rw [hlist, List.nil_append] at hp
    have hpos := h.offset
    cases cur with
    | nil => exact hne rfl
    | cons m cur =>
      cases hp
      have hm := m.bytes_pos
      rw [List.flatMap_cons, List.length_append] at hpos
      omega
  | cons q qs =>
    rw [hlist] at hp
    obtain rfl := Option.some_inj.mp hp
    exact hold _ (hlist ▸ List.mem_cons_self) hfst

theorem dump_full (h : Layout c placed prev cur z) (hfull : c.circular_buffer_full = true)
    (hne : cur ≠ []) :
    dumpCircularbuffer c = some ((placed.map Prod.snd).flatMap Message.bytes) ↔
      placed.head?.map Prod.fst = some c.write_ptr_offset ∧
        WholeAt ((placed.filter (c.write_ptr_offset ≤ ·.1)).map Prod.snd)
          ((placed.filter (·.1 < c.write_ptr_offset)).map Prod.snd) := by
  have hz := zeros_pos h hne
  have hoffset := h.offset
  have hplaced := h.placed
  rw [filter_old h, filter_new h, map_snd_laid]
  by_cases hle : (prev.flatMap Message.bytes).length ≤ c.write_ptr_offset
  · have hfilter : (laid Message.bytes 0 prev).filter (c.write_ptr_offset ≤ ·.1) = [] :=
      filter_laid_front Message.bytes_pos (by omega)
    refine iff_of_false (dump_no_newline h hfull hne ?_ ?_) fun hhead => ?_
    · rw [drop_offset h, List.drop_eq_nil_of_le hle, List.nil_append]
      exact strstr_zeros (by omega)
    · rw [hplaced, hfilter, List.nil_append, map_snd_laid, ← hoffset]
      exact Nat.le_add_right _ _
    · refine head_ne_offset h hne (fun p hp => ?_) hhead.1
      rw [hfilter] at hp
      cases hp
  · obtain ⟨front, m, back, hprev, hfront, hlt⟩ := exists_item_at (Nat.lt_of_not_le hle)
    have hold := filter_laid Message.bytes_pos back hfront hlt
    have hmlength : m.bytes.length = m.text.length + 1 := List.length_append
    have hrest : (prev.flatMap Message.bytes).drop c.write_ptr_offset =
        m.text.drop (c.write_ptr_offset - (front.flatMap Message.bytes).length) ++
          newline :: back.flatMap Message.bytes := by
      rw [hprev, List.flatMap_append, List.flatMap_cons, List.drop_append,
        List.drop_eq_nil_of_le hfront, List.nil_append, Message.bytes, line, List.append_assoc,
        List.drop_append_of_le_length (by omega)]
      rfl
    have hlength := congrArg List.length hrest
    rw [List.length_drop, List.length_append, List.length_cons] at hlength
    have hnewline : newline ∉ m.text.drop (c.write_ptr_offset -
        (front.flatMap Message.bytes).length) := fun hmem =>
      m.newline_notMem (List.mem_of_mem_drop hmem)
    rw [← hprev] at hold
    by_cases hwhole : (front.flatMap Message.bytes).length = c.write_ptr_offset
    · rw [if_pos hwhole] at hold
      have hexpected : (placed.map Prod.snd).flatMap Message.bytes =
          m.bytes ++ (back.flatMap Message.bytes ++ cur.flatMap Message.bytes) := by
        rw [hplaced, hold, List.map_append, List.map_append, map_snd_laid, map_snd_laid]
        simp only [List.map_cons, List.map_nil, List.flatMap_append, List.flatMap_singleton,
          List.append_assoc]
      have hhead : placed.head?.map Prod.fst = some c.write_ptr_offset := by
        rw [hplaced, hold]
        rfl
      have hmap : ([(c.write_ptr_offset, m)] ++ laid Message.bytes
          ((front.flatMap Message.bytes).length + m.bytes.length) back).map Prod.snd =
            m :: back := by
        rw [List.map_append, map_snd_laid]
        rfl
      rw [hwhole, Nat.sub_self, List.drop_zero] at hrest hnewline hlength
      rw [hexpected, hold, hmap, whole_at_cons, and_iff_right hhead]
      by_cases hzero : 0 ∈ m.text
      · refine iff_of_false (dump_no_newline h hfull hne ?_ ?_) fun hand => hand.1 hzero
        · rw [drop_offset h, hrest, List.append_assoc, List.cons_append, strstr_line hnewline,
            if_pos hzero]
        · rw [List.length_append, List.length_append, hlength, hmlength, hoffset]
          omega
      · rw [dump_newline h hfull hne hnewline hzero hrest, Option.some_inj,
          dumped_eq_iff (by omega), and_iff_right hzero]
    · rw [if_neg hwhole, List.nil_append] at hold
      have hexpected : (placed.map Prod.snd).flatMap Message.bytes =
          back.flatMap Message.bytes ++ cur.flatMap Message.bytes := by
        rw [hplaced, hold, List.map_append, map_snd_laid, map_snd_laid, List.flatMap_append]
      rw [hexpected]
      refine iff_of_false ?_ fun hand => head_ne_offset h hne (fun p hp => ?_) hand.1
      · by_cases hzero : 0 ∈ m.text.drop (c.write_ptr_offset -
            (front.flatMap Message.bytes).length)
        · refine dump_no_newline h hfull hne ?_ ?_
          · rw [drop_offset h, hrest, List.append_assoc, List.cons_append, strstr_line hnewline,
              if_pos hzero]
          · rw [List.length_append, hlength, hoffset]
            omega
        · rw [dump_newline h hfull hne hnewline hzero hrest]
          exact fun hdump => dumped_ne_of_broken (by omega) (Option.some_inj.mp hdump)
      · rw [hold] at hp
        have hle := (laid_bounds hp).1
        omega

end Dump

/-- After every history the dump is what is complete in the buffer exactly in the cases above; no
write of the messages leaves the buffer. -/
theorem dump_complete_iff (circ_buf_size : Nat) (ms : List (Message circ_buf_size)) :
    ∃ c placed, recordAll ms = some (c, placed) ∧
      (dumpCircularbuffer c = some ((placed.map Prod.snd).flatMap Message.bytes) ↔
        DumpsWhole c placed) := by
  obtain ⟨c, placed, prev, cur, z, hrun, h, hne⟩ := record_all_layout ms
  refine ⟨c, placed, hrun, ?_⟩
  unfold DumpsWhole
  cases hfull : c.circular_buffer_full with
  | false =>
    rw [if_neg Bool.false_ne_true]
    exact dump_not_full h hfull
  | true =>
    rw [if_pos rfl]
    exact dump_full h hfull (hne hfull)

/-- The message `ab` in a buffer of 16 bytes. -/
def sample : Message 16 := ⟨[97, 98], by decide, by decide⟩

theorem sample_not_dumped : ¬ ∃ c placed, recordAll [sample] = some (c, placed) ∧
    dumpCircularbuffer c = some ((placed.map Prod.snd).flatMap Message.bytes) := by
  rintro ⟨c, placed, hrun, hdump⟩
  have hstate : recordAll [sample] =
      some (⟨[97, 98, 10] ++ List.replicate 13 0, 3, 0, false⟩, [(0, sample)]) := rfl
  rw [hstate] at hrun
  cases hrun
  revert hdump
  decide

end Messages

end Codinalte.Stelp.CircularBuffer
