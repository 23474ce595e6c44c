import Codinalte.Lib.Machine
import Codinalte.Stelp.CircularBuffer

/-! The formatting of a trace message in `tmpbuf`, which all calls share: time stamps and text are
written before any lock is taken, and each sink copies them from there under a lock of its own. -/

namespace Codinalte.Stelp.Format
open Machine CircularBuffer

def DO_LOG_BSIZE : Nat := 1024

/-- What `"up=%H:%M:%S"` and `".%06d "` print. -/
structure UpTime where
  time : List UInt8
  micros : List UInt8
  time_length : time.length = 11
  micros_length : micros.length = 8

/-- What `stelp_get_timeofday` prints with `"%m-%d %H:%M:%S"` and `".%06d"`. -/
structure WallTime where
  date : List UInt8
  micros : List UInt8
  date_length : date.length = 14
  micros_length : micros.length = 7

/-- The stamps are there as the options say and, for the first, when the clock can be read; the
text is all that the format prints. -/
structure Input where
  up : Option UpTime
  wall : Option WallTime
  text : List UInt8

/-- A call that prints in `tmpbuf`; the limit is a function of the position. -/
inductive Piece where
  | strftime (limit : Nat → Nat) (text : List UInt8)
  | snprintf (limit : Nat → Nat) (text : List UInt8)

def Piece.text : Piece → List UInt8
  | .strftime _ text => text
  | .snprintf _ text => text

def room (pos : Nat) : Nat := DO_LOG_BSIZE - pos

def UpTime.pieces (up : UpTime) : List Piece :=
  [.strftime room up.time, .snprintf room up.micros]

def WallTime.pieces (wall : WallTime) : List Piece :=
  [.snprintf room ("h=".toList.map Char.toUInt8), .strftime (fun _ => 24) wall.date,
    .snprintf (fun _ => 24 - wall.date.length) wall.micros,
    .snprintf room (" ".toList.map Char.toUInt8)]

/-- The calls in the order of the source. -/
def Input.pieces (input : Input) : List Piece :=
  (input.up.elim [] UpTime.pieces ++ input.wall.elim [] WallTime.pieces) ++
    [.snprintf (room · - 1) input.text]

/-- `strftime` that does not find room leaves the bytes undefined; `snprintf` cuts the text. Both
end it with a zero, and `none` is a byte outside `tmpbuf`. -/
def Piece.print (tmpbuf : List UInt8) (pos : Nat) : Piece → Option (List UInt8)
  | .strftime limit text =>
    if text.length + 1 ≤ limit pos then store tmpbuf pos (text ++ [0]) else none
  | .snprintf limit text =>
    if limit pos = 0 then some tmpbuf else store tmpbuf pos (text.take (limit pos - 1) ++ [0])

inductive Sink where
  | circularBuffer
  | file
  | socket
deriving DecidableEq

inductive Stage where
  | formatting (pending : List Piece)
  | circularBuffer
  | file
  | socket
  | done

/-- A call of `__do_stelp_syslog`: how much it has formatted, where it stands, and what it has
copied. -/
structure Call where
  input : Input
  size : Nat
  stage : Stage
  copied : List (Sink × List UInt8)

structure State where
  tmpbuf : List UInt8
  trace_to_file : Bool
  trace_to_socket : Bool
  calls : List Call

/-- A new call; a writer thread that turns its sink off for good; the next step of a call. `fits`
says whether the buffer of the sink has room for the message. -/
inductive Event where
  | call (input : Input)
  | traceOff (file socket : Bool)
  | step (i : Nat) (fits : Bool)

def init (trace_to_file trace_to_socket : Bool) : State :=
  ⟨List.replicate DO_LOG_BSIZE 0, trace_to_file, trace_to_socket, []⟩

/-- The newline behind a message that has none. -/
def endLine (tmpbuf : List UInt8) (call : Call) : Option (List UInt8 × Call) := do
  if call.size = 0 then none
  let last ← tmpbuf[call.size - 1]?
  if last ≠ newline then
    let tmpbuf ← store tmpbuf call.size [newline, 0]
    return (tmpbuf, { call with size := call.size + 1, stage := .circularBuffer })
  else
    return (tmpbuf, { call with stage := .circularBuffer })

/-- `memcpy` from `tmpbuf`; `none` is a byte outside. -/
def copy (tmpbuf : List UInt8) (call : Call) (sink : Sink) : Option Call :=
  if call.size ≤ tmpbuf.length then
    some { call with copied := call.copied ++ [(sink, tmpbuf.take call.size)] }
  else none

def stepCall (s : State) (call : Call) (fits : Bool) : Option (List UInt8 × Call) :=
  match call.stage with
  | .formatting (p :: pending) => do
    let tmpbuf ← p.print s.tmpbuf call.size
    return (tmpbuf,
      { call with size := call.size + p.text.length, stage := .formatting pending })
  | .formatting [] => endLine s.tmpbuf call
  | .circularBuffer => do
    let call ← copy s.tmpbuf call .circularBuffer
    return (s.tmpbuf, { call with stage := .file })
  | .file => do
    let call ← if s.trace_to_file && fits then copy s.tmpbuf call .file else some call
    return (s.tmpbuf, { call with stage := .socket })
  | .socket => do
    let call ← if s.trace_to_socket && fits then copy s.tmpbuf call .socket else some call
    return (s.tmpbuf, { call with stage := .done })
  | .done => some (s.tmpbuf, call)

def step (s : State) : Event → Option State
  | .call input => some { s with calls := s.calls ++ [⟨input, 0, .formatting input.pieces, []⟩] }
  | .traceOff file socket => some { s with
      trace_to_file := s.trace_to_file && !file, trace_to_socket := s.trace_to_socket && !socket }
  | .step i fits =>
    match s.calls[i]? with
    | none => some s
    | some call => do
      let (tmpbuf, call) ← stepCall s call fits
      return { s with tmpbuf, calls := s.calls.set i call }

/-- The time stamp and the text. -/
def Input.full (input : Input) : List UInt8 := input.pieces.flatMap Piece.text

/-- Stamp and text, cut so that the newline and the final zero fit, with one newline at the end. -/
def Input.message (input : Input) : List UInt8 :=
  let cut := input.full.take (DO_LOG_BSIZE - 2)
  if cut.getLast? = some newline then cut else cut ++ [newline]

/-- The call may still copy from `tmpbuf`. -/
def State.reads (s : State) (call : Call) : Bool :=
  match call.stage with
  | .formatting _ => true
  | .circularBuffer => true
  | .file => s.trace_to_file || s.trace_to_socket
  | .socket => s.trace_to_socket
  | .done => false

/-- A message is not empty and leaves room for the newline and the final zero; no step of a call
changes what another one has formatted and may still copy. -/
def StepOk (s : State) : Event → Prop
  | .call input => 1 ≤ input.full.length ∧ input.full.length ≤ DO_LOG_BSIZE - 2
  | .traceOff _ _ => True
  | .step i fits => ∀ s', step s (.step i fits) = some s' →
    ∀ j call, j ≠ i → s.calls[j]? = some call → s.reads call = true →
      s'.tmpbuf.take call.size = s.tmpbuf.take call.size

/-- Every byte that was copied is the call's own. -/
def CopiesOwn (s : State) : Prop :=
  ∀ call ∈ s.calls, ∀ entry ∈ call.copied, entry.2 = call.input.message

section Printing
variable {tmpbuf bytes text : List UInt8} {off pos : Nat} {input : Input} {p : Piece}

theorem store_eq (h : off + bytes.length ≤ tmpbuf.length) : store tmpbuf off bytes =
    some (tmpbuf.take off ++ bytes ++ tmpbuf.drop (off + bytes.length)) :=
  if_pos h

theorem store_length {tmpbuf' : List UInt8} (h : store tmpbuf off bytes = some tmpbuf') :
    tmpbuf'.length = tmpbuf.length := by
  unfold store at h
  split_ifs at h with hle
  obtain rfl := Option.some_inj.mp h
  rw [List.length_append, List.length_append, List.length_take, List.length_drop]
  omega

/-- Behind what is there, with a zero that is not counted. -/
theorem exists_store_append (tmpbuf : List UInt8) (off : Nat) (text last : List UInt8)
    (h : off + (text ++ last).length ≤ tmpbuf.length) :
    ∃ tmpbuf', store tmpbuf off (text ++ last) = some tmpbuf' ∧
      tmpbuf'.length = tmpbuf.length ∧
      tmpbuf'.take (off + text.length) = tmpbuf.take off ++ text := by
  refine ⟨_, store_eq h, store_length (store_eq h), ?_⟩
  have hfront : (tmpbuf.take off).length = off := by
    rw [List.length_take]
    omega
  rw [List.append_assoc, List.append_assoc, ← List.append_assoc (tmpbuf.take off)]
  exact List.take_left' (by rw [List.length_append, hfront])

def Piece.limit : Piece → Nat → Nat
  | .strftime limit _ => limit
  | .snprintf limit _ => limit

theorem print_eq (h : p.text.length + 1 ≤ p.limit pos) :
    p.print tmpbuf pos = store tmpbuf pos (p.text ++ [0]) := by
  cases p with
  | strftime limit text => exact if_pos h
  | snprintf limit text =>
    have h : text.length + 1 ≤ limit pos := h
    refine (if_neg (by omega)).trans ?_
    rw [List.take_of_length_le (by omega)]
    rfl

/-- No piece of a message that is short enough is cut. -/
theorem piece_fits (hp : p ∈ input.pieces) (hpos : pos + p.text.length ≤ DO_LOG_BSIZE - 2) :
    p.text.length + 1 ≤ p.limit pos := by
  have hroom : p.text.length + 1 ≤ room pos - 1 := by
    unfold room DO_LOG_BSIZE at *
    omega
  unfold Input.pieces at hp
  rcases List.mem_append.mp hp with hp | hp
  · rcases List.mem_append.mp hp with hp | hp
    · cases hup : input.up with
      | none =>
        rw [hup] at hp
        cases hp
      | some up =>
        rw [hup] at hp
        rcases List.mem_pair.mp hp with rfl | rfl
        · exact Nat.le_trans hroom (Nat.sub_le _ _)
        · exact Nat.le_trans hroom (Nat.sub_le _ _)
    · cases hwall : input.wall with
      | none =>
        rw [hwall] at hp
        cases hp
      | some wall =>
        rw [hwall] at hp
        have hdate := wall.date_length
        have hmicros := wall.micros_length
        simp only [Option.elim_some, WallTime.pieces, List.mem_cons, List.not_mem_nil,
          or_false] at hp
        rcases hp with rfl | rfl | rfl | rfl
        · exact Nat.le_trans hroom (Nat.sub_le _ _)
        · change wall.date.length + 1 ≤ 24
          omega
        · change wall.micros.length + 1 ≤ 24 - wall.date.length
          omega
        · exact Nat.le_trans hroom (Nat.sub_le _ _)
  · rw [List.mem_singleton.mp hp] at hroom ⊢
    exact hroom

end Printing

section Steps
variable {s s' : State} {call other : Call} {tmpbuf : List UInt8}

/-- How far a call has come, and that it still finds what it has formatted. -/
def Progress (s : State) (call : Call) : Prop :=
  match call.stage with
  | .formatting pending => ∃ front, call.input.pieces = front ++ pending ∧
      call.size = (front.flatMap Piece.text).length ∧
      s.tmpbuf.take call.size = front.flatMap Piece.text
  | _ => call.size = call.input.message.length ∧
      (s.reads call = true → s.tmpbuf.take call.size = call.input.message)

structure CallInv (s : State) (call : Call) : Prop where
  nonempty : 1 ≤ call.input.full.length
  short : call.input.full.length ≤ DO_LOG_BSIZE - 2
  progress : Progress s call
  copied : ∀ entry ∈ call.copied, entry.2 = call.input.message

structure Inv (s : State) : Prop where
  tmpbuf : s.tmpbuf.length = DO_LOG_BSIZE
  calls : ∀ call ∈ s.calls, CallInv s call

/-- A call that is left alone keeps its progress. -/
theorem CallInv.keep (h : CallInv s call)
    (hreads : s'.reads call = true → s.reads call = true)
    (htake : s.reads call = true → s'.tmpbuf.take call.size = s.tmpbuf.take call.size) :
    CallInv s' call := by
  refine ⟨h.nonempty, h.short, ?_, h.copied⟩
  have hprogress := h.progress
  unfold Progress at hprogress ⊢
  cases hstage : call.stage with
  | formatting pending =>
    rw [hstage] at hprogress
    obtain ⟨front, hpieces, hsize, hbytes⟩ := hprogress
    have hreading : s.reads call = true := by
      unfold State.reads
      rw [hstage]
    exact ⟨front, hpieces, hsize, (htake hreading).trans hbytes⟩
  | circularBuffer =>
    rw [hstage] at hprogress
    exact ⟨hprogress.1, fun hr => (htake (hreads hr)).trans (hprogress.2 (hreads hr))⟩
  | file =>
    rw [hstage] at hprogress
    exact ⟨hprogress.1, fun hr => (htake (hreads hr)).trans (hprogress.2 (hreads hr))⟩
  | socket =>
    rw [hstage] at hprogress
    exact ⟨hprogress.1, fun hr => (htake (hreads hr)).trans (hprogress.2 (hreads hr))⟩
  | done =>
    rw [hstage] at hprogress
    exact ⟨hprogress.1, fun hr => (htake (hreads hr)).trans (hprogress.2 (hreads hr))⟩

/-- The message of a call that is not too long is stamp and text, and the newline if it has none. -/
theorem message_eq (h : CallInv s call) : call.input.message =
    if call.input.full.getLast? = some newline then call.input.full
    else call.input.full ++ [newline] := by
  unfold Input.message
  rw [List.take_of_length_le h.short]

theorem end_line_spec (h : CallInv s call) (htmpbuf : s.tmpbuf.length = DO_LOG_BSIZE)
    (hstage : call.stage = .formatting []) :
    ∃ tmpbuf call', endLine s.tmpbuf call = some (tmpbuf, call') ∧
      tmpbuf.length = DO_LOG_BSIZE ∧ CallInv { s with tmpbuf } call' := by
  have hprogress := h.progress
  unfold Progress at hprogress
  rw [hstage] at hprogress
  obtain ⟨front, hpieces, hsize, hbytes⟩ := hprogress
  have hfull : front.flatMap Piece.text = call.input.full := by
    rw [Input.full, hpieces, List.append_nil]
  rw [hfull] at hsize hbytes
  have hnonempty := h.nonempty
  have hshort := h.short
  obtain ⟨last, hlast⟩ := Option.isSome_iff_exists.mp
    (List.getLast?_isSome.mpr (List.length_pos_iff.mp hnonempty))
  have hread : s.tmpbuf[call.size - 1]? = some last := by
    rw [← hlast, List.getLast?_eq_getElem?, ← hbytes, List.length_take, List.getElem?_take,
      if_pos (by omega)]
    congr 1
    unfold DO_LOG_BSIZE at *
    omega
  unfold endLine
  rw [if_neg (by omega), hread]
  by_cases hnewline : last = newline
  · have hmessage : call.input.message = call.input.full := by
      rw [message_eq h, if_pos (hnewline ▸ hlast)]
    refine ⟨_, _, if_neg (not_not.mpr hnewline), htmpbuf, h.nonempty, h.short, ?_, h.copied⟩
    exact ⟨hsize.trans (congrArg _ hmessage.symm), fun _ => hbytes.trans hmessage.symm⟩
  · have hmessage : call.input.message = call.input.full ++ [newline] := by
      rw [message_eq h, hlast, if_neg fun h => hnewline (Option.some_inj.mp h)]
    obtain ⟨tmpbuf, hstore, hlength, htake⟩ :=
      exists_store_append s.tmpbuf call.size [newline] [0] (by
        rw [htmpbuf, hsize]
        exact Nat.add_le_of_le_sub (by decide) hshort)
    refine ⟨tmpbuf, { call with size := call.size + 1, stage := .circularBuffer }, ?_,
      hlength.trans htmpbuf, h.nonempty, h.short, ?_, h.copied⟩
    · have hstore : store s.tmpbuf call.size [newline, 0] = some tmpbuf := hstore
      rw [Option.bind_eq_bind, Option.bind_some, if_pos hnewline, hstore]
      rfl
    · refine ⟨?_, fun _ => ?_⟩
      · rw [hmessage, List.length_append, ← hsize]
        rfl
      · rw [hmessage, ← hbytes]
        exact htake

theorem copy_spec (sink : Sink) (hsize : call.size = call.input.message.length)
    (hbytes : tmpbuf.take call.size = call.input.message) : copy tmpbuf call sink =
      some { call with copied := call.copied ++ [(sink, call.input.message)] } := by
  have hlength := congrArg List.length hbytes
  rw [List.length_take] at hlength
  unfold copy
  rw [if_pos (by omega), hbytes]

theorem copied_snoc (h : CallInv s call) (sink : Sink) :
    ∀ entry ∈ call.copied ++ [(sink, call.input.message)], entry.2 = call.input.message := by
  intro entry hentry
  rcases List.mem_append.mp hentry with hentry | hentry
  · exact h.copied entry hentry
  · rw [List.mem_singleton.mp hentry]

theorem format_spec (h : CallInv s call) (htmpbuf : s.tmpbuf.length = DO_LOG_BSIZE) {p : Piece}
    {pending : List Piece} (hstage : call.stage = .formatting (p :: pending)) (fits : Bool) :
    ∃ tmpbuf call', stepCall s call fits = some (tmpbuf, call') ∧
      tmpbuf.length = DO_LOG_BSIZE ∧ CallInv { s with tmpbuf } call' := by
  have hprogress := h.progress
  unfold Progress at hprogress
  rw [hstage] at hprogress
  obtain ⟨front, hpieces, hsize, hbytes⟩ := hprogress
  have hshort := h.short
  have hfull := congrArg List.length (congrArg (List.flatMap Piece.text) hpieces)
  change call.input.full.length = _ at hfull
  rw [List.flatMap_append, List.flatMap_cons, List.length_append, List.length_append,
    ← hsize] at hfull
  have hp : p ∈ call.input.pieces := by
    rw [hpieces]
    exact List.mem_append_right _ List.mem_cons_self
  have hfits : p.text.length + 1 ≤ p.limit call.size := piece_fits hp (by omega)
  obtain ⟨tmpbuf, hstore, hlength, htake⟩ :=
    exists_store_append s.tmpbuf call.size p.text [0] (by
      rw [htmpbuf, List.length_append, List.length_singleton]
      unfold DO_LOG_BSIZE at *
      omega)
  refine ⟨tmpbuf, { call with size := call.size + p.text.length, stage := .formatting pending },
    ?_, hlength.trans htmpbuf, h.nonempty, h.short, ?_, h.copied⟩
  · unfold stepCall
    rw [hstage]
    change (p.print s.tmpbuf call.size).bind _ = _
    rw [print_eq hfits, hstore]
    rfl
  · refine ⟨front ++ [p], ?_, ?_, ?_⟩
    · rw [hpieces, List.append_assoc]
      rfl
    · rw [List.flatMap_append, List.flatMap_singleton, List.length_append, ← hsize]
    · rw [List.flatMap_append, List.flatMap_singleton, ← hbytes]
      exact htake

/-- The next step of a call stays inside `tmpbuf`, and what it copies is its own. -/
theorem step_call_spec (h : CallInv s call) (htmpbuf : s.tmpbuf.length = DO_LOG_BSIZE)
    (fits : Bool) : ∃ tmpbuf call', stepCall s call fits = some (tmpbuf, call') ∧
      tmpbuf.length = DO_LOG_BSIZE ∧ CallInv { s with tmpbuf } call' := by
  have hprogress := h.progress
  cases hstage : call.stage with
  | formatting pending =>
    cases pending with
    | nil =>
      unfold stepCall
      rw [hstage]
      exact end_line_spec h htmpbuf hstage
    | cons p pending => exact format_spec h htmpbuf hstage fits
  | circularBuffer =>
    unfold Progress at hprogress
    unfold stepCall
    rw [hstage] at hprogress ⊢
    obtain ⟨hsize, hbytes⟩ := hprogress
    have hreads : s.reads call = true := by
      unfold State.reads
      rw [hstage]
    rw [copy_spec .circularBuffer hsize (hbytes hreads)]
    exact ⟨_, _, rfl, htmpbuf, h.nonempty, h.short, ⟨hsize, fun _ => hbytes hreads⟩,
      copied_snoc h _⟩
  | file =>
    unfold Progress at hprogress
    unfold stepCall
    rw [hstage] at hprogress ⊢
    obtain ⟨hsize, hbytes⟩ := hprogress
    have hreads : s.reads call = (s.trace_to_file || s.trace_to_socket) := by
      unfold State.reads
      rw [hstage]
    rw [hreads] at hbytes
    have hnext : s.trace_to_socket = true → s.tmpbuf.take call.size = call.input.message :=
      fun hsocket => hbytes (by rw [hsocket, Bool.or_true])
    by_cases hcopy : (s.trace_to_file && fits) = true
    · obtain ⟨hfile, -⟩ := Bool.and_eq_true_iff.mp hcopy
      dsimp only
      rw [if_pos hcopy, copy_spec .file hsize (hbytes (by rw [hfile, Bool.true_or]))]
      exact ⟨_, _, rfl, htmpbuf, h.nonempty, h.short, ⟨hsize, hnext⟩, copied_snoc h _⟩
    · dsimp only
      rw [if_neg hcopy]
      exact ⟨_, _, rfl, htmpbuf, h.nonempty, h.short, ⟨hsize, hnext⟩, h.copied⟩
  | socket =>
    unfold Progress at hprogress
    unfold stepCall
    rw [hstage] at hprogress ⊢
    obtain ⟨hsize, hbytes⟩ := hprogress
    have hreads : s.reads call = s.trace_to_socket := by
      unfold State.reads
      rw [hstage]
    rw [hreads] at hbytes
    have hdone : false = true → s.tmpbuf.take call.size = call.input.message :=
      fun hfalse => by cases hfalse
    by_cases hcopy : (s.trace_to_socket && fits) = true
    · obtain ⟨hsocket, -⟩ := Bool.and_eq_true_iff.mp hcopy
      dsimp only
      rw [if_pos hcopy, copy_spec .socket hsize (hbytes hsocket)]
      exact ⟨_, _, rfl, htmpbuf, h.nonempty, h.short, ⟨hsize, hdone⟩, copied_snoc h _⟩
    · dsimp only
      rw [if_neg hcopy]
      exact ⟨_, _, rfl, htmpbuf, h.nonempty, h.short, ⟨hsize, hdone⟩, h.copied⟩
  | done =>
    unfold stepCall
    rw [hstage]
    exact ⟨_, _, rfl, htmpbuf, h⟩

/-- A sink that is turned off is not turned on again. -/
theorem reads_of_trace_off {file socket : Bool} (h : State.reads { s with
    trace_to_file := s.trace_to_file && !file, trace_to_socket := s.trace_to_socket && !socket }
      call = true) : s.reads call = true := by
  unfold State.reads at h ⊢
  cases hstage : call.stage with
  | formatting pending => rfl
  | circularBuffer => rfl
  | file =>
    rw [hstage] at h
    rcases Bool.or_eq_true_iff.mp h with h | h
    · exact Bool.or_eq_true_iff.mpr (.inl (Bool.and_eq_true_iff.mp h).1)
    · exact Bool.or_eq_true_iff.mpr (.inr (Bool.and_eq_true_iff.mp h).1)
  | socket =>
    rw [hstage] at h
    exact (Bool.and_eq_true_iff.mp h).1
  | done =>
    rw [hstage] at h
    exact h

/-- One step keeps the invariant. -/
theorem inv_step (h : Inv s) {e : Event} (hok : StepOk s e) :
    ∃ s', step s e = some s' ∧ Inv s' := by
  cases e with
  | call input =>
    refine ⟨_, rfl, h.tmpbuf, fun call hcall => ?_⟩
    rcases List.mem_append.mp hcall with hcall | hcall
    · exact (h.calls call hcall).keep id fun _ => rfl
    · rw [List.mem_singleton.mp hcall]
      exact ⟨hok.1, hok.2, ⟨[], rfl, rfl, List.take_zero⟩, fun entry hentry => by cases hentry⟩
  | traceOff file socket =>
    exact ⟨_, rfl, h.tmpbuf, fun call hcall =>
      (h.calls call hcall).keep reads_of_trace_off fun _ => rfl⟩
  | step i fits =>
    cases hi : s.calls[i]? with
    | none =>
      have hstep : step s (.step i fits) = some s := by
        simp only [step, hi]
      exact ⟨s, hstep, h⟩
    | some call =>
      obtain ⟨tmpbuf, call', hcall, hlength, hinv⟩ :=
        step_call_spec (h.calls call (List.mem_of_getElem? hi)) h.tmpbuf fits
      have hstep : step s (.step i fits) =
          some { s with tmpbuf, calls := s.calls.set i call' } := by
        simp only [step, hi, hcall]
        rfl
      refine ⟨_, hstep, hlength, fun other hother => ?_⟩
      obtain ⟨j, hj⟩ := List.mem_iff_getElem?.mp hother
      rw [List.getElem?_set] at hj
      split_ifs at hj with hij hlt
      · obtain rfl := Option.some_inj.mp hj
        exact hinv.keep id fun _ => rfl
      · have hold := List.mem_of_getElem? hj
        exact (h.calls other hold).keep id fun hreads =>
          hok _ hstep j other (Ne.symm hij) hj hreads

end Steps

/-- A call that is alone meets the condition. -/
theorem meets_alone {s : State} (hone : s.calls.length = 1) (fits : List Bool) :
    Meets step StepOk s (fits.map (.step 0 ·)) := by
  induction fits generalizing s with
  | nil => trivial
  | cons b fits ih =>
    refine ⟨fun s' _ j call hj hcall _ => ?_, fun t ht => ih ?_⟩
    · obtain ⟨hlt, -⟩ := List.getElem?_eq_some_iff.mp hcall
      omega
    · obtain ⟨call, hcall⟩ := List.length_eq_one_iff.mp hone
      simp only [step, hcall, List.getElem?_cons_zero] at ht
      obtain ⟨_, -, ht⟩ := Option.bind_eq_some_iff.mp ht
      obtain rfl := Option.some_inj.mp ht
      rfl

/-- In every run whose messages fit and whose calls leave each other alone, no index leaves `tmpbuf`
and every sink is given the call's own stamp and text. -/
theorem copies_own (trace_to_file trace_to_socket : Bool) (events : List Event)
    (hok : Meets step StepOk (init trace_to_file trace_to_socket) events) :
    ∃ s, run step (init trace_to_file trace_to_socket) events = some s ∧ CopiesOwn s := by
  have hinit : Inv (init trace_to_file trace_to_socket) :=
    ⟨List.length_replicate, fun call hcall => by cases hcall⟩
  obtain ⟨s, hrun, hinv⟩ := run_of_meets (fun s e h hok => inv_step h hok) hinit hok
  exact ⟨s, hrun, fun call hcall => (hinv.calls call hcall).copied⟩

/-- A call with the text `a` and no stamps, to its end. -/
theorem copies_own_sample : ∃ s, run step (init true false)
    (.call ⟨none, none, [97]⟩ :: [true, true, true, true, true].map (.step 0 ·)) = some s ∧
      CopiesOwn s :=
  copies_own true false _ ⟨⟨by decide, by decide⟩, fun t ht => by
    obtain rfl := Option.some_inj.mp ht
    exact meets_alone rfl _⟩

/-- Two calls with the texts `a` and `b`: the second one formats before the first one copies. -/
def overlapping : List Event :=
  [.call ⟨none, none, [97]⟩, .call ⟨none, none, [98]⟩, .step 0 true, .step 1 true, .step 0 true,
    .step 0 true]

theorem overlapping_not_own : ¬ ∃ s, run step (init false false) overlapping = some s ∧
    CopiesOwn s := by
  rintro ⟨s, hrun, hown⟩
  have hcopied : (run step (init false false) overlapping).map
      (fun s => s.calls.map fun call => (call.copied, call.input.message)) =
        some [([(.circularBuffer, [98, newline])], [97, newline]), ([], [98, newline])] := by
    decide +kernel
  rw [hrun] at hcopied
  have hmem : ([(Sink.circularBuffer, [98, newline])], [97, newline]) ∈
      s.calls.map fun call => (call.copied, call.input.message) := by
    rw [show s.calls.map _ = _ from Option.some_inj.mp hcopied]
    exact List.mem_cons_self
  obtain ⟨call, hcall, heq⟩ := List.mem_map.mp hmem
  obtain ⟨hentries, hmessage⟩ := Prod.mk.inj heq
  have hbytes := hown call hcall (.circularBuffer, [98, newline])
    (hentries ▸ List.mem_singleton.mpr rfl)
  rw [hmessage] at hbytes
  exact absurd hbytes (by decide)

end Codinalte.Stelp.Format
