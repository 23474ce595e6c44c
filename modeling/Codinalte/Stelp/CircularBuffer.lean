import Codinalte.Lib.Lines

/-! The circular buffer of the traces: messages of any length are written one behind the other, from
the beginning again when the rest of the buffer is too short for the next one. -/

namespace Codinalte.Stelp.CircularBuffer
open Lines

def newline : UInt8 := 10

/-- What `__do_stelp_syslog` has in `tmpbuf`: a text that ends in its only newline and is shorter
than the buffer minus one. -/
structure Message (circ_buf_size : Nat) where
  text : List UInt8
  newline_notMem : newline ∉ text
  short : text.length + 1 < circ_buf_size - 1

def Message.bytes {circ_buf_size : Nat} (m : Message circ_buf_size) : List UInt8 :=
  line newline m.text

structure Circ where
  circ_buf : List UInt8
  write_ptr_offset : Nat
  discardable_bytecount : Int
  circular_buffer_full : Bool

/-- The allocated buffer, of zeros. -/
def init (circ_buf_size : Nat) : Circ := ⟨List.replicate circ_buf_size 0, 0, 0, false⟩

/-- `memcpy` and `memset`; `none` is a write outside the buffer. -/
def store (buf : List UInt8) (off : Nat) (bytes : List UInt8) : Option (List UInt8) :=
  if off + bytes.length ≤ buf.length then
    some (buf.take off ++ bytes ++ buf.drop (off + bytes.length))
  else none

/-- The place for the message: the buffer from the write offset on, or all of it again when the
message and one more byte do not fit. -/
def makeRoom (c : Circ) (size : Nat) : Option Circ :=
  if c.circ_buf.length ≤ c.write_ptr_offset + size + 1 then do
    let discardable : Int := c.circ_buf.length - c.write_ptr_offset - 1
    if discardable < 0 then none
    let circ_buf ← store c.circ_buf c.write_ptr_offset (List.replicate discardable.toNat 0)
    return ⟨circ_buf, 0, discardable, true⟩
  else some c

def syslog (c : Circ) (tmpbuf : List UInt8) : Option Circ := do
  let c ← makeRoom c tmpbuf.length
  let circ_buf ← store c.circ_buf c.write_ptr_offset tmpbuf
  return { c with circ_buf, write_ptr_offset := c.write_ptr_offset + tmpbuf.length }

section Messages
variable {circ_buf_size : Nat}

/-- The messages that are complete in the buffer, from the oldest to the newest, each with its
offset: a message is there until one of its bytes is written again. -/
abbrev Placed (circ_buf_size : Nat) := List (Nat × Message circ_buf_size)

def overwrite (off len : Nat) (placed : Placed circ_buf_size) : Placed circ_buf_size :=
  placed.filter fun p => p.1 + p.2.bytes.length ≤ off ∨ off + len ≤ p.1

/-- The writes that the writer makes for a message at a state, and the message then. -/
def place (c : Circ) (placed : Placed circ_buf_size) (m : Message circ_buf_size) :
    Placed circ_buf_size :=
  if c.circ_buf.length ≤ c.write_ptr_offset + m.bytes.length + 1 then
    let cleared := overwrite c.write_ptr_offset (c.circ_buf.length - c.write_ptr_offset - 1) placed
    overwrite 0 m.bytes.length cleared ++ [(0, m)]
  else
    overwrite c.write_ptr_offset m.bytes.length placed ++ [(c.write_ptr_offset, m)]

/-- The state of the writer with the messages that are complete. -/
def record (s : Circ × Placed circ_buf_size) (m : Message circ_buf_size) :
    Option (Circ × Placed circ_buf_size) := do
  let c ← syslog s.1 m.bytes
  return (c, place s.1 s.2 m)

def recordAll (ms : List (Message circ_buf_size)) : Option (Circ × Placed circ_buf_size) :=
  ms.foldlM record (init circ_buf_size, [])

/-- Two laps of the writer: what `prev` left behind the write offset, `cur` before it, and zeros. -/
structure Layout (c : Circ) (placed : Placed circ_buf_size)
    (prev cur : List (Message circ_buf_size)) (z : Nat) : Prop where
  buf : c.circ_buf = cur.flatMap Message.bytes ++
    (prev.flatMap Message.bytes).drop c.write_ptr_offset ++ List.replicate z 0
  size : c.circ_buf.length = circ_buf_size
  offset : c.write_ptr_offset = (cur.flatMap Message.bytes).length
  zeros : 3 ≤ circ_buf_size → 2 ≤ z
  placed : placed = (laid Message.bytes 0 prev).filter (c.write_ptr_offset ≤ ·.1) ++
    laid Message.bytes 0 cur
  notFull : c.circular_buffer_full = false → prev = []
  full : c.circular_buffer_full = true →
    c.discardable_bytecount = circ_buf_size - (prev.flatMap Message.bytes).length - 1

section Steps
variable {c c' : Circ} {placed : Placed circ_buf_size} {prev cur : List (Message circ_buf_size)}
variable {m : Message circ_buf_size} {z off len : Nat}

theorem init_layout :
    Layout (init circ_buf_size) ([] : Placed circ_buf_size) [] [] circ_buf_size where
  buf := rfl
  size := List.length_replicate
  offset := rfl
  zeros := fun h => by omega
  placed := rfl
  notFull := fun _ => rfl
  full := fun h => by cases h

theorem Message.bytes_pos (m : Message circ_buf_size) : 0 < m.bytes.length := by
  unfold Message.bytes line
  rw [List.length_append]
  exact Nat.succ_pos _

theorem Message.bytes_short (m : Message circ_buf_size) : m.bytes.length + 2 ≤ circ_buf_size := by
  have hshort := m.short
  unfold Message.bytes line
  rw [List.length_append, List.length_singleton]
  omega

theorem Layout.length_eq (h : Layout c placed prev cur z) : circ_buf_size =
    c.write_ptr_offset + ((prev.flatMap Message.bytes).length - c.write_ptr_offset) + z := by
  have hlength := congrArg List.length h.buf
  rw [h.size, List.length_append, List.length_append, List.length_drop, List.length_replicate,
    ← h.offset] at hlength
  exact hlength

theorem overwrite_laid (hfit : (cur.flatMap Message.bytes).length ≤ off) :
    overwrite off len ((laid Message.bytes 0 prev).filter (off ≤ ·.1) ++
      laid Message.bytes 0 cur) =
        (laid Message.bytes 0 prev).filter (off + len ≤ ·.1) ++ laid Message.bytes 0 cur := by
  unfold overwrite
  rw [List.filter_append, List.filter_filter]
  congr 1
  · refine List.filter_congr fun p hp => ?_
    have hpos := p.2.bytes_pos
    rw [← Bool.decide_and]
    exact decide_eq_decide.mpr (by omega)
  · refine List.filter_eq_self.mpr fun p hp => decide_eq_true (.inl ?_)
    have hend := (laid_bounds hp).2
    omega

/-- A message that fits keeps the laps. -/
theorem Layout.append (h : Layout c placed prev cur z)
    (hfit : c.write_ptr_offset + m.bytes.length + 2 ≤ circ_buf_size) :
    ∃ circ_buf z', store c.circ_buf c.write_ptr_offset m.bytes = some circ_buf ∧
      Layout { c with circ_buf, write_ptr_offset := c.write_ptr_offset + m.bytes.length }
        (overwrite c.write_ptr_offset m.bytes.length placed ++ [(c.write_ptr_offset, m)])
        prev (cur ++ [m]) z' := by
  have hlength := h.length_eq
  refine ⟨_, z - (m.bytes.length - ((prev.flatMap Message.bytes).length - c.write_ptr_offset)),
    if_pos (by rw [h.size]; omega), ?_⟩
  have htake : c.circ_buf.take c.write_ptr_offset = cur.flatMap Message.bytes := by
    rw [h.buf, List.append_assoc, h.offset]
    exact List.take_left
  have hdrop : c.circ_buf.drop (c.write_ptr_offset + m.bytes.length) =
      (prev.flatMap Message.bytes).drop (c.write_ptr_offset + m.bytes.length) ++
        List.replicate (z - (m.bytes.length -
          ((prev.flatMap Message.bytes).length - c.write_ptr_offset))) 0 := by
    rw [h.buf, List.append_assoc, List.drop_append, ← h.offset,
      List.drop_eq_nil_of_le (by rw [← h.offset]; omega), List.nil_append, Nat.add_sub_cancel_left,
      List.drop_append, List.drop_drop, List.length_drop, List.drop_replicate]
  constructor
  · change _ ++ _ ++ _ = _
    rw [htake, hdrop, List.flatMap_append, List.flatMap_singleton, ← List.append_assoc]
  · change (_ ++ _ ++ _ : List UInt8).length = _
    rw [List.length_append, List.length_append, List.length_take, List.length_drop, h.size]
    omega
  · change _ + _ = _
    rw [List.flatMap_append, List.flatMap_singleton, List.length_append, h.offset]
  · intro hsize
    have hzeros := h.zeros hsize
    omega
  · rw [h.placed, overwrite_laid (Nat.le_of_eq h.offset.symm), laid_append, Nat.zero_add,
      ← h.offset, List.append_assoc]
    rfl
  · exact h.notFull
  · exact h.full

/-- Going back to the beginning makes the lap the previous one, and nothing of the one before is
left. -/
theorem Layout.wrap (h : Layout c placed prev cur z) (hsize : 3 ≤ circ_buf_size) :
    ∃ circ_buf, store c.circ_buf c.write_ptr_offset
        (List.replicate (circ_buf_size - c.write_ptr_offset - 1) 0) = some circ_buf ∧
      Layout ⟨circ_buf, 0, circ_buf_size - c.write_ptr_offset - 1, true⟩
        (overwrite c.write_ptr_offset (circ_buf_size - c.write_ptr_offset - 1) placed)
        cur [] (circ_buf_size - c.write_ptr_offset) := by
  have hlength := h.length_eq
  have hzeros := h.zeros hsize
  refine ⟨_, if_pos (by rw [h.size, List.length_replicate]; omega), ?_⟩
  rw [List.length_replicate]
  have htake : c.circ_buf.take c.write_ptr_offset = cur.flatMap Message.bytes := by
    rw [h.buf, List.append_assoc, h.offset]
    exact List.take_left
  have hlast : c.circ_buf.drop (c.write_ptr_offset + (circ_buf_size - c.write_ptr_offset - 1)) =
      List.replicate 1 0 := by
    have hfront : (cur.flatMap Message.bytes ++
        (prev.flatMap Message.bytes).drop c.write_ptr_offset).length = circ_buf_size - z := by
      rw [List.length_append, List.length_drop, ← h.offset]
      omega
    rw [h.buf, List.drop_append, List.drop_eq_nil_of_le (by rw [hfront]; omega), hfront,
      List.nil_append, List.drop_replicate]
    congr 1
    omega
  have hfull : circ_buf_size - c.write_ptr_offset - 1 + 1 = circ_buf_size - c.write_ptr_offset := by
    omega
  rw [htake, hlast, List.append_assoc, List.replicate_append_replicate, hfull]
  constructor
  · rfl
  · change (_ ++ _ : List UInt8).length = _
    rw [List.length_append, List.length_replicate, ← h.offset]
    omega
  · rfl
  · intro _
    omega
  · rw [h.placed, overwrite_laid (Nat.le_of_eq h.offset.symm), filter_laid_front Message.bytes_pos
      (by omega), List.nil_append]
    exact ((List.append_nil _).trans (filter_laid_back (Nat.zero_le _))).symm
  · intro hfull
    cases hfull
  · intro _
    change (_ : Int) - _ - 1 = _ - _ - 1
    rw [h.offset]

/-- Every write stays inside the buffer, and the laps go on. -/
theorem record_layout (h : Layout c placed prev cur z) :
    ∃ c' placed' prev' cur' z', record (c, placed) m = some (c', placed') ∧
      Layout c' placed' prev' cur' z' ∧ cur' ≠ [] := by
  have hshort := m.bytes_short
  have hpos := m.bytes_pos
  unfold record syslog makeRoom place
  dsimp only
  rw [h.size]
  by_cases hroom : circ_buf_size ≤ c.write_ptr_offset + m.bytes.length + 1
  · rw [if_pos hroom, if_pos hroom]
    obtain ⟨circ_buf, hstore, hwrapped⟩ := h.wrap (by omega)
    obtain ⟨circ_buf', z', hstore', hnext⟩ := hwrapped.append (m := m) (by
      change 0 + _ + 2 ≤ _
      omega)
    have hlength := h.length_eq
    have hzeros := h.zeros (by omega)
    have hcount : ((circ_buf_size : Int) - c.write_ptr_offset - 1).toNat =
        circ_buf_size - c.write_ptr_offset - 1 := by omega
    rw [if_neg (by omega), hcount, Option.bind_eq_bind, Option.bind_eq_bind, Option.bind_eq_bind,
      hstore]
    refine ⟨_, _, cur, [] ++ [m], z', ?_, hnext, List.cons_ne_nil _ _⟩
    rw [Option.bind_some]
    change ((store circ_buf 0 m.bytes).bind _).bind _ = _
    rw [hstore']
    rfl
  · rw [if_neg hroom, if_neg hroom]
    obtain ⟨circ_buf, z', hstore, hnext⟩ := h.append (m := m) (by omega)
    rw [Option.bind_eq_bind, Option.bind_eq_bind, Option.bind_some, hstore]
    exact ⟨_, _, prev, cur ++ [m], z', rfl, hnext, List.append_ne_nil_of_right_ne_nil _ (by simp)⟩

/-- At every moment of every history. -/
theorem record_all_layout (ms : List (Message circ_buf_size)) :
    ∃ c placed prev cur z, recordAll ms = some (c, placed) ∧ Layout c placed prev cur z ∧
      (c.circular_buffer_full = true → cur ≠ []) := by
  have hrun : ∀ {c placed} {prev cur : List (Message circ_buf_size)} {z},
      Layout c placed prev cur z → (c.circular_buffer_full = true → cur ≠ []) →
        ∃ c' placed' prev' cur' z', ms.foldlM record (c, placed) = some (c', placed') ∧
          Layout c' placed' prev' cur' z' ∧ (c'.circular_buffer_full = true → cur' ≠ []) := by
    induction ms with
    | nil => exact fun h hne => ⟨_, _, _, _, _, rfl, h, hne⟩
    | cons m ms ih =>
      intro c placed prev cur z h _
      obtain ⟨c', placed', prev', cur', z', hstep, h', hne'⟩ := record_layout (m := m) h
      rw [List.foldlM_cons, hstep]
      exact ih h' fun _ => hne'
  exact hrun init_layout fun h => by cases h

/-- A complete message is in the buffer at its offset. -/
theorem Layout.placed_bytes (h : Layout c placed prev cur z) {p : Nat × Message circ_buf_size}
    (hp : p ∈ placed) : (c.circ_buf.drop p.1).take p.2.bytes.length = p.2.bytes := by
  have hoffset := h.offset
  rw [h.placed] at hp
  rw [h.buf, List.append_assoc]
  rcases List.mem_append.mp hp with hold | hnew
  · obtain ⟨hlaid, hle⟩ := List.mem_filter.mp hold
    have hle := of_decide_eq_true hle
    have hend := (laid_bounds hlaid).2
    have hletters := laid_letters hlaid
    have hsub : p.1 = (cur.flatMap Message.bytes).length + (p.1 - c.write_ptr_offset) := by omega
    rw [hsub, List.drop_length_add_append, List.drop_append_of_le_length (by
      rw [List.length_drop]
      omega), List.drop_drop, Nat.add_sub_cancel' hle, List.take_append_of_le_length (by
      rw [List.length_drop]
      omega)]
    exact hletters
  · have hend := (laid_bounds hnew).2
    have hletters := laid_letters hnew
    rw [List.drop_append_of_le_length (by omega), List.take_append_of_le_length (by
      rw [List.length_drop]
      omega)]
    exact hletters

end Steps

end Messages

end Codinalte.Stelp.CircularBuffer
