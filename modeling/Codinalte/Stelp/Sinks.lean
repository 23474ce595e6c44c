import Mathlib.Algebra.Ring.Nat
import Mathlib.Data.List.Infix
import Codinalte.Lib.Machine
import Codinalte.Lib.Words

/-! The sinks of the traces: each has a buffer that the messages are appended to, a buffer that is
taken from it, and a thread that writes the second one. The bytes are of any type: nothing looks at
them. -/

namespace Codinalte.Stelp.Sinks
open Machine Words
variable {α : Type*}

/-- `sizeof(tmpbuf_filedump)` and `sizeof(tmpbuf_sock)`. -/
def CAPACITY : Nat := 1024 * 1024

/-- A buffer that is filled, of as many bytes as its size says, with its counters, of type `int`.
Nothing of the code reads the rest: all the bytes that were accepted, the fill and the size at every
drop, and the sizes of the messages that were dropped since the last one that was accepted. -/
structure Fill (α : Type*) where
  tmpbuf : List α
  lost : Int
  nb_lost : Int
  accepted : List α
  drops : List (Nat × Nat)
  since : List Nat

def Fill.empty : Fill α := ⟨[], 0, 0, [], [], []⟩

def Fill.hasRoom (f : Fill α) (msg : List α) : Bool :=
  f.tmpbuf.length + msg.length < CAPACITY

def Fill.drop (f : Fill α) (msg : List α) : Fill α :=
  { f with
    lost := int32 (f.lost + msg.length)
    nb_lost := int32 (f.nb_lost + 1)
    drops := f.drops ++ [(f.tmpbuf.length, msg.length)]
    since := f.since ++ [msg.length] }

def Fill.accept (f : Fill α) (msg : List α) : Fill α :=
  { f with tmpbuf := f.tmpbuf ++ msg, accepted := f.accepted ++ msg, since := [] }

def appendFile (f : Fill α) (msg : List α) : Fill α :=
  if f.hasRoom msg then { f.accept msg with lost := 0, nb_lost := 0 } else f.drop msg

/-- `__socket_nb_lost` is not reset. -/
def appendSock (f : Fill α) (msg : List α) : Fill α :=
  if f.hasRoom msg then { f.accept msg with lost := 0 } else f.drop msg

inductive Result where
  | error
  | bytes (n : Nat)
deriving DecidableEq

/-- What one receiver was written, whether a write to it failed, and for each write the size that
was passed with the bytes that remain behind the pointer. -/
structure Stream (α : Type*) where
  written : List α
  failed : Bool
  writes : List (Nat × Nat)

def Stream.empty : Stream α := ⟨[], false, []⟩

structure FileSink (α : Type*) where
  fill : Fill α
  dump : Option (List α)
  stream : Stream α

/-- A client is in `write_fd_set` as long as it is `open`. -/
structure Client (α : Type*) where
  stream : Stream α
  isOpen : Bool

structure SockSink (α : Type*) where
  fill : Fill α
  dump : Option (List α)
  clients : List (Client α)
  stopped : Bool

structure State (α : Type*) where
  file : FileSink α
  sock : SockSink α

/-- The end of `select`: interrupted by a signal; another error; or for each client the results of
the writes to it, none when it is not ready, with those of a client that is accepted, none when its
turn is over, and whether the thread ends because `accept` fails. -/
inductive Select where
  | interrupted
  | failed
  | ready (served : Nat → Option (List Result)) (new : Option (Option (List Result)))
    (stops : Bool)

/-- A message for one of the sinks; the two parts of a round of each thread: taking the buffer and
writing it. -/
inductive Event (α : Type*) where
  | appendFile (msg : List α)
  | appendSock (msg : List α)
  | takeFile
  | takeSock
  | writeFile (result : Result)
  | writeSock (select : Select)

/-- The one `write` of a round; a result is not more than the size that was passed. -/
def FileSink.write (file : FileSink α) (result : Result) : Option (FileSink α) := do
  let dump ← file.dump
  let writes := file.stream.writes ++ [(dump.length, dump.length)]
  match result with
  | .error => return ⟨file.fill, none, ⟨file.stream.written, true, writes⟩⟩
  | .bytes n =>
    if dump.length < n then none
    return ⟨file.fill, none, ⟨file.stream.written ++ dump.take n, file.stream.failed, writes⟩⟩

/-- The loop of the socket thread over short writes, from a pointer into the dump on: `towrite` is
what remains and `nbytes` the last result. The results behind the end of the loop are not used. -/
def writeLoop (towrite nbytes : Int) : List α → Stream α → List Result → Option (Stream α)
  | _, _, [] => none
  | ptr, stream, result :: results =>
    let size := (uint32 (towrite - nbytes)).toNat
    let writes := stream.writes ++ [(size, ptr.length)]
    match result with
    | .error => some { stream with failed := true, writes }
    | .bytes n =>
      if size < n then none
      else
        let stream := { stream with written := stream.written ++ ptr.take n, writes }
        if towrite - n ≠ 0 ∧ n ≠ 0 then writeLoop (towrite - n) n (ptr.drop n) stream results
        else some stream

/-- One client in a round: it leaves the set when it is not ready or a write to it fails. -/
def Client.serve (dump : List α) (c : Client α) (results : Option (List Result)) :
    Option (Client α) :=
  if c.isOpen then
    match results with
    | none => some { c with isOpen := false }
    | some results => do
      let stream ← writeLoop dump.length 0 dump c.stream results
      return ⟨stream, !stream.failed⟩
  else some c

/-- `write_fd_set` is gone with the thread. -/
def Client.leave (c : Client α) (stops : Bool) : Client α := { c with isOpen := c.isOpen && !stops }

def newClient (dump : List α) : Option (Option (List Result)) → Option (List (Client α))
  | none => some []
  | some none => some [⟨.empty, true⟩]
  | some (some results) => do
    let c ← Client.serve dump ⟨.empty, true⟩ (some results)
    return [c]

def SockSink.write (sock : SockSink α) (select : Select) : Option (SockSink α) := do
  let dump ← sock.dump
  match select with
  | .interrupted => return { sock with dump := none }
  | .failed => return ⟨sock.fill, none, sock.clients.map (·.leave true), true⟩
  | .ready served new stops =>
    let clients ← sock.clients.zipIdx.mapM fun c => c.1.serve dump (served c.2)
    let added ← newClient dump new
    return ⟨sock.fill, none, (clients ++ added).map (·.leave stops), stops⟩

/-- The buffer is taken when it is not empty and the one before is written. -/
def take (f : Fill α) (dump : Option (List α)) : Option (Fill α × List α) :=
  if dump = none ∧ f.tmpbuf ≠ [] then some ({ f with tmpbuf := [] }, f.tmpbuf) else none

/-- `none` is an event that cannot happen in the state. -/
def step (s : State α) : Event α → Option (State α)
  | .appendFile msg => some { s with file.fill := appendFile s.file.fill msg }
  | .appendSock msg => some { s with sock.fill := appendSock s.sock.fill msg }
  | .takeFile => do
    let (fill, dump) ← take s.file.fill s.file.dump
    return { s with file := { s.file with fill, dump } }
  | .takeSock => do
    if s.sock.stopped then none
    let (fill, dump) ← take s.sock.fill s.sock.dump
    return { s with sock := { s.sock with fill, dump } }
  | .writeFile result => do
    let file ← s.file.write result
    return { s with file }
  | .writeSock select => do
    let sock ← s.sock.write select
    return { s with sock }

/-- What `fd_set` holds before the first round is not known. -/
def init (fds : List Bool) : State α :=
  ⟨⟨.empty, none, .empty⟩, ⟨.empty, none, fds.map (⟨.empty, ·⟩), false⟩⟩

/-- The counters count what was dropped since the last accepted message, and a drop is one of a
message that does not fit. -/
structure FillOk (f : Fill α) : Prop where
  lost : f.lost = f.since.sum
  nb_lost : f.nb_lost = f.since.length
  drops : ∀ d ∈ f.drops, CAPACITY < d.1 + d.2

/-- The accepted bytes in their order and none twice; none left out in between before the first
error; and no write past the end of the dump. -/
structure StreamOk (accepted : List α) (s : Stream α) : Prop where
  order : List.Sublist s.written accepted
  whole : s.failed = false → s.written <:+: accepted
  sizes : ∀ w ∈ s.writes, w.1 ≤ w.2

structure SinksOk (s : State α) : Prop where
  fileFill : FillOk s.file.fill
  file : StreamOk s.file.fill.accepted s.file.stream
  sockFill : FillOk s.sock.fill
  sock : ∀ c ∈ s.sock.clients, StreamOk s.sock.fill.accepted c.stream

/-- The message does not fill the buffer exactly, and the counters do not pass the end of `int`. -/
def AppendOk (f : Fill α) (msg : List α) : Prop :=
  f.tmpbuf.length + msg.length ≠ CAPACITY ∧
    (f.hasRoom msg = false → f.lost + msg.length < 2147483648 ∧ f.nb_lost + 1 < 2147483648)

/-- The first write of a dump takes all of it or fails. -/
def FirstWhole (dump : List α) (results : List Result) : Prop :=
  results.head? = some .error ∨ results.head? = some (.bytes dump.length)

/-- Nothing is written short, no client that was written loses a dump to a signal, and the socket
accepts no message after a drop. -/
def StepOk (s : State α) : Event α → Prop
  | .appendFile msg => AppendOk s.file.fill msg
  | .appendSock msg => AppendOk s.sock.fill msg ∧
      (s.sock.fill.hasRoom msg = true → s.sock.fill.nb_lost = 0)
  | .takeFile => True
  | .takeSock => True
  | .writeFile result => ∀ dump, s.file.dump = some dump → FirstWhole dump [result]
  | .writeSock .interrupted => ∀ c ∈ s.sock.clients, c.isOpen = true → c.stream.written = []
  | .writeSock .failed => True
  | .writeSock (.ready served new _) => ∀ dump, s.sock.dump = some dump →
      (∀ c i results, (c, i) ∈ s.sock.clients.zipIdx → c.isOpen = true →
        served i = some results → FirstWhole dump results) ∧
      ∀ results, new = some (some results) → FirstWhole dump results

section Filling
variable {f : Fill α} {msg : List α}

/-- The buffer is never full, and the counters are right. -/
structure FillInv (f : Fill α) : Prop extends FillOk f where
  size : f.tmpbuf.length < CAPACITY

theorem drop_inv (h : FillInv f) (hok : AppendOk f msg) (hroom : f.hasRoom msg = false) :
    FillInv (f.drop msg) := by
  obtain ⟨hne, hcounters⟩ := hok
  obtain ⟨hlost, hnb⟩ := hcounters hroom
  have hfull : ¬ f.tmpbuf.length + msg.length < CAPACITY := of_decide_eq_false hroom
  have hlost' := h.lost
  have hnb' := h.nb_lost
  refine ⟨⟨?_, ?_, fun d hd => ?_⟩, h.size⟩
  · change int32 (f.lost + msg.length) = ((f.since ++ [msg.length]).sum : Nat)
    rw [int32_of_range (by omega) hlost, List.sum_append, List.sum_singleton]
    omega
  · change int32 (f.nb_lost + 1) = ((f.since ++ [msg.length]).length : Nat)
    rw [int32_of_range (by omega) hnb, List.length_append, List.length_singleton]
    omega
  · rcases List.mem_append.mp hd with hd | hd
    · exact h.drops d hd
    · rw [List.mem_singleton.mp hd]
      change CAPACITY < f.tmpbuf.length + msg.length
      omega

theorem append_file_inv (h : FillInv f) (hok : AppendOk f msg) : FillInv (appendFile f msg) := by
  unfold appendFile
  cases hroom : f.hasRoom msg with
  | false =>
    rw [if_neg Bool.false_ne_true]
    exact drop_inv h hok hroom
  | true =>
    rw [if_pos rfl]
    have hfits : f.tmpbuf.length + msg.length < CAPACITY := of_decide_eq_true hroom
    exact ⟨⟨rfl, rfl, h.drops⟩, by
      change (f.tmpbuf ++ msg).length < CAPACITY
      rw [List.length_append]
      exact hfits⟩

theorem append_sock_inv (h : FillInv f) (hok : AppendOk f msg)
    (hreset : f.hasRoom msg = true → f.nb_lost = 0) : FillInv (appendSock f msg) := by
  unfold appendSock
  cases hroom : f.hasRoom msg with
  | false =>
    rw [if_neg Bool.false_ne_true]
    exact drop_inv h hok hroom
  | true =>
    rw [if_pos rfl]
    have hfits : f.tmpbuf.length + msg.length < CAPACITY := of_decide_eq_true hroom
    exact ⟨⟨rfl, hreset hroom, h.drops⟩, by
      change (f.tmpbuf ++ msg).length < CAPACITY
      rw [List.length_append]
      exact hfits⟩

/-- The accepted bytes grow as the buffer does. -/
theorem append_file_bytes (f : Fill α) (msg : List α) : ∃ new,
    (appendFile f msg).tmpbuf = f.tmpbuf ++ new ∧
      (appendFile f msg).accepted = f.accepted ++ new := by
  unfold appendFile
  split_ifs
  · exact ⟨msg, rfl, rfl⟩
  · exact ⟨[], (List.append_nil _).symm, (List.append_nil _).symm⟩

theorem append_sock_bytes (f : Fill α) (msg : List α) : ∃ new,
    (appendSock f msg).tmpbuf = f.tmpbuf ++ new ∧
      (appendSock f msg).accepted = f.accepted ++ new := by
  unfold appendSock
  split_ifs
  · exact ⟨msg, rfl, rfl⟩
  · exact ⟨[], (List.append_nil _).symm, (List.append_nil _).symm⟩

theorem take_spec {dump : Option (List α)} {f' : Fill α} {taken : List α}
    (h : take f dump = some (f', taken)) :
    dump = none ∧ taken = f.tmpbuf ∧ f' = { f with tmpbuf := [] } := by
  unfold take at h
  split_ifs at h with hcond
  cases h
  exact ⟨hcond.1, rfl, rfl⟩

theorem take_inv (h : FillInv f) : FillInv { f with tmpbuf := [] } :=
  ⟨⟨h.lost, h.nb_lost, h.drops⟩, by
    change 0 < CAPACITY
    decide⟩

end Filling

section File
variable {file file' : FileSink α}

/-- Up to the first error all that was accepted is written, in the dump, or in the buffer. -/
structure FileInv (file : FileSink α) : Prop where
  fill : FillInv file.fill
  bytes : ∃ past, file.fill.accepted = past ++ (file.dump.getD [] ++ file.fill.tmpbuf) ∧
    List.Sublist file.stream.written past ∧
    (file.stream.failed = false → file.stream.written = past)
  sizes : ∀ w ∈ file.stream.writes, w.1 ≤ w.2

theorem FileInv.streamOk (h : FileInv file) : StreamOk file.fill.accepted file.stream := by
  obtain ⟨past, haccepted, horder, hwhole⟩ := h.bytes
  refine ⟨?_, fun hok => ?_, h.sizes⟩
  · rw [haccepted]
    exact horder.trans (List.sublist_append_left _ _)
  · rw [haccepted, hwhole hok]
    exact (List.prefix_append _ _).isInfix

theorem FileInv.append (h : FileInv file) {msg : List α} (hok : AppendOk file.fill msg) :
    FileInv { file with fill := appendFile file.fill msg } := by
  obtain ⟨past, haccepted, hpast⟩ := h.bytes
  obtain ⟨new, htmpbuf, hnew⟩ := append_file_bytes file.fill msg
  refine ⟨append_file_inv h.fill hok, ⟨past, ?_, hpast⟩, h.sizes⟩
  change (appendFile file.fill msg).accepted = past ++ (_ ++ (appendFile file.fill msg).tmpbuf)
  rw [hnew, htmpbuf, haccepted, List.append_assoc, List.append_assoc]

theorem FileInv.take (h : FileInv file) {fill : Fill α} {dump : List α}
    (htake : Sinks.take file.fill file.dump = some (fill, dump)) :
    FileInv { file with fill, dump := some dump } := by
  obtain ⟨hnone, rfl, rfl⟩ := take_spec htake
  obtain ⟨past, haccepted, hpast⟩ := h.bytes
  refine ⟨take_inv h.fill, ⟨past, ?_, hpast⟩, h.sizes⟩
  rw [hnone] at haccepted
  change _ = past ++ (file.fill.tmpbuf ++ [])
  rw [List.append_nil]
  exact haccepted

theorem FileInv.write (h : FileInv file) {result : Result}
    (hok : ∀ dump, file.dump = some dump → FirstWhole dump [result])
    (hwrite : file.write result = some file') : FileInv file' := by
  obtain ⟨past, haccepted, horder, hwhole⟩ := h.bytes
  obtain ⟨dump, hdump, hwrite⟩ := Option.bind_eq_some_iff.mp hwrite
  have hsizes : ∀ w ∈ file.stream.writes ++ [(dump.length, dump.length)], w.1 ≤ w.2 := by
    intro w hw
    rcases List.mem_append.mp hw with hw | hw
    · exact h.sizes w hw
    · rw [List.mem_singleton.mp hw]
  rw [hdump, Option.getD_some, ← List.append_assoc] at haccepted
  rcases hok dump hdump with hresult | hresult
  · obtain rfl := Option.some_inj.mp hresult
    cases hwrite
    exact ⟨h.fill, ⟨past ++ dump, haccepted, horder.trans (List.sublist_append_left _ _),
      fun hfalse => by cases hfalse⟩, hsizes⟩
  · obtain rfl := Option.some_inj.mp hresult
    dsimp only at hwrite
    rw [if_neg (Nat.lt_irrefl _), List.take_length] at hwrite
    cases hwrite
    exact ⟨h.fill, ⟨past ++ dump, haccepted, horder.append (List.Sublist.refl _),
      fun hnot => by rw [hwhole hnot]⟩, hsizes⟩

end File

section Socket
variable {sock sock' : SockSink α} {c c' : Client α} {dump past rest : List α}
variable {results : List Result}

/-- A client in the set was written the last bytes of the past, and any client some in between. -/
structure ClientInv (past accepted : List α) (c : Client α) : Prop where
  latest : c.isOpen = true → c.stream.written <:+ past
  whole : c.stream.written <:+: accepted
  sizes : ∀ w ∈ c.stream.writes, w.1 ≤ w.2

theorem ClientInv.append {accepted : List α} (h : ClientInv past accepted c) (new : List α) :
    ClientInv past (accepted ++ new) c :=
  ⟨h.latest, h.whole.trans (List.prefix_append _ _).isInfix, h.sizes⟩

theorem write_loop_spec {stream : Stream α} (hdump : dump.length < CAPACITY)
    (hok : FirstWhole dump results) : writeLoop dump.length 0 dump stream results =
      some ⟨if results.head? = some .error then stream.written else stream.written ++ dump,
        if results.head? = some .error then true else stream.failed,
        stream.writes ++ [(dump.length, dump.length)]⟩ := by
  have hsize : (uint32 ((dump.length : Int) - 0)).toNat = dump.length := by
    have hcapacity : CAPACITY = 1048576 := rfl
    rw [uint32_of_range (by omega) (by omega)]
    omega
  cases results with
  | nil => rcases hok with h | h <;> cases h
  | cons result results =>
    unfold writeLoop
    rw [hsize]
    rcases hok with hresult | hresult
    · obtain rfl := Option.some_inj.mp hresult
      rfl
    · obtain rfl := Option.some_inj.mp hresult
      dsimp only
      rw [if_neg (Nat.lt_irrefl _), if_neg fun h => h.1 (Int.sub_self _), List.take_length]
      rfl

theorem write_loop_writes {ptr : List α} {stream stream' : Stream α} {towrite nbytes : Int}
    {w : Nat × Nat} (hw : w ∈ stream.writes)
    (hloop : writeLoop towrite nbytes ptr stream results = some stream') : w ∈ stream'.writes := by
  induction results generalizing ptr stream towrite nbytes with
  | nil => cases hloop
  | cons result results ih =>
    unfold writeLoop at hloop
    cases result with
    | error =>
      cases hloop
      exact List.mem_append_left _ hw
    | bytes n =>
      dsimp only at hloop
      split_ifs at hloop
      · exact ih (List.mem_append_left _ hw) hloop
      · cases hloop
        exact List.mem_append_left _ hw

/-- After a short write the loop subtracts the last result twice: it does not come to the end of the
dump, unless it fails or passes a size that is too large. -/
theorem write_loop_short {ptr : List α} {stream stream' : Stream α} {nbytes : Int}
    (hpos : 0 < nbytes) (hptr : ptr ≠ []) (hlength : ptr.length < CAPACITY)
    (hbytes : nbytes < CAPACITY)
    (hloop : writeLoop ptr.length nbytes ptr stream results = some stream') :
    stream'.failed = true ∨ (∃ w ∈ stream'.writes, w.2 < w.1) ∨
      ∃ front back, back ≠ [] ∧ ptr = front ++ back ∧
        stream'.written = stream.written ++ front := by
  have hcapacity : CAPACITY = 1048576 := rfl
  induction results generalizing ptr stream nbytes with
  | nil => cases hloop
  | cons result results ih =>
    unfold writeLoop at hloop
    cases result with
    | error =>
      cases hloop
      exact .inl rfl
    | bytes n =>
      have hlarge : (ptr.length : Int) - nbytes < 0 →
          ptr.length < (uint32 (ptr.length - nbytes)).toNat := by
        unfold uint32
        omega
      dsimp only at hloop
      split_ifs at hloop with hmore hcont
      · by_cases hneg : (ptr.length : Int) - nbytes < 0
        · exact .inr (.inl ⟨_, write_loop_writes
            (List.mem_append_right _ (List.mem_singleton.mpr rfl)) hloop, hlarge hneg⟩)
        · rw [uint32_of_range (by omega) (by omega)] at hmore
          have hdrop : ((ptr.drop n).length : Int) = ptr.length - n := by
            rw [List.length_drop]
            omega
          rw [← hdrop] at hloop
          rcases ih (by omega) (List.length_pos_iff.mp (by omega)) (by omega) (by omega) hloop with
            hfailed | hbad | ⟨front, back, hback, hsplit, hwritten⟩
          · exact .inl hfailed
          · exact .inr (.inl hbad)
          · refine .inr (.inr ⟨ptr.take n ++ front, back, hback, ?_, ?_⟩)
            · rw [List.append_assoc, ← hsplit, List.take_append_drop]
            · rw [hwritten, List.append_assoc]
      · cases hloop
        by_cases hneg : (ptr.length : Int) - nbytes < 0
        · exact .inr (.inl ⟨_, List.mem_append_right _ (List.mem_singleton.mpr rfl), hlarge hneg⟩)
        · rw [uint32_of_range (by omega) (by omega)] at hmore
          have hnone : n = 0 := by
            by_contra hsome
            exact hcont ⟨by omega, hsome⟩
          refine .inr (.inr ⟨[], ptr, hptr, rfl, ?_⟩)
          rw [hnone, List.take_zero]

/-- A round that serves a client keeps it up with what was accepted. -/
theorem ClientInv.serve (h : ClientInv past (past ++ (dump ++ rest)) c)
    (hdump : dump.length < CAPACITY) {served : Option (List Result)}
    (hok : c.isOpen = true → ∀ results, served = some results → FirstWhole dump results)
    (hserve : c.serve dump served = some c') :
    ClientInv (past ++ dump) (past ++ (dump ++ rest)) c' := by
  unfold Client.serve at hserve
  split_ifs at hserve with hopen
  · cases served with
    | none =>
      cases hserve
      exact ⟨fun hfalse => (by cases hfalse), h.whole, h.sizes⟩
    | some results =>
      have hfirst := hok hopen results rfl
      dsimp only at hserve
      rw [write_loop_spec hdump hfirst] at hserve
      have hsizes : ∀ w ∈ c.stream.writes ++ [(dump.length, dump.length)], w.1 ≤ w.2 := by
        intro w hw
        rcases List.mem_append.mp hw with hw | hw
        · exact h.sizes w hw
        · rw [List.mem_singleton.mp hw]
      obtain ⟨front, hfront⟩ := h.latest hopen
      have hsuffix : c.stream.written ++ dump <:+ past ++ dump :=
        ⟨front, by rw [← List.append_assoc, hfront]⟩
      have hinfix : c.stream.written ++ dump <:+: past ++ (dump ++ rest) := by
        rw [← List.append_assoc]
        exact hsuffix.isInfix.trans (List.prefix_append _ _).isInfix
      cases hserve
      split_ifs
      · exact ⟨fun hfalse => (by cases hfalse), h.whole, hsizes⟩
      · exact ⟨fun _ => hsuffix, hinfix, hsizes⟩
  · cases hserve
    exact ⟨fun hopen' => absurd hopen' hopen, h.whole, h.sizes⟩

theorem ClientInv.leave {accepted : List α} (h : ClientInv past accepted c) (stops : Bool) :
    ClientInv past accepted (c.leave stops) :=
  ⟨fun hopen => h.latest (Bool.and_eq_true_iff.mp hopen).1, h.whole, h.sizes⟩

/-- Clients in the set are up to date as long as the thread runs. -/
structure SockInv (sock : SockSink α) : Prop where
  fill : FillInv sock.fill
  dump : ∀ dump, sock.dump = some dump → dump.length < CAPACITY
  bytes : ∃ past, sock.fill.accepted = past ++ (sock.dump.getD [] ++ sock.fill.tmpbuf) ∧
    ∀ c ∈ sock.clients, ClientInv past sock.fill.accepted c

theorem SockInv.append (h : SockInv sock) {msg : List α} (hok : AppendOk sock.fill msg)
    (hreset : sock.fill.hasRoom msg = true → sock.fill.nb_lost = 0) :
    SockInv { sock with fill := appendSock sock.fill msg } := by
  obtain ⟨past, haccepted, hclients⟩ := h.bytes
  obtain ⟨new, htmpbuf, hnew⟩ := append_sock_bytes sock.fill msg
  refine ⟨append_sock_inv h.fill hok hreset, h.dump, past, ?_, fun c hc => ?_⟩
  · change (appendSock sock.fill msg).accepted = past ++ (_ ++ (appendSock sock.fill msg).tmpbuf)
    rw [hnew, htmpbuf, haccepted, List.append_assoc, List.append_assoc]
  · change ClientInv past (appendSock sock.fill msg).accepted c
    rw [hnew]
    exact (hclients c hc).append new

theorem SockInv.take (h : SockInv sock) {fill : Fill α} {dump : List α}
    (htake : Sinks.take sock.fill sock.dump = some (fill, dump)) :
    SockInv { sock with fill, dump := some dump } := by
  obtain ⟨hnone, rfl, rfl⟩ := take_spec htake
  obtain ⟨past, haccepted, hclients⟩ := h.bytes
  refine ⟨take_inv h.fill, fun dump hdump => ?_, past, ?_, hclients⟩
  · obtain rfl := Option.some_inj.mp hdump
    exact h.fill.size
  · rw [hnone] at haccepted
    change _ = past ++ (sock.fill.tmpbuf ++ [])
    rw [List.append_nil]
    exact haccepted

theorem new_client_inv {accepted : List α} : ClientInv past accepted ⟨.empty, true⟩ :=
  ⟨fun _ => List.nil_suffix, List.nil_infix, fun w hw => by cases hw⟩

theorem forall_of_mapM {β γ : Type*} {f : β → Option γ} {P : β → Prop} {Q : γ → Prop}
    (hf : ∀ b c, P b → f b = some c → Q c) {l : List β} {l' : List γ} (hl : ∀ b ∈ l, P b)
    (h : l.mapM f = some l') : ∀ c ∈ l', Q c := by
  induction l generalizing l' with
  | nil =>
    cases h
    exact fun c hc => by cases hc
  | cons b l ih =>
    rw [List.mapM_cons] at h
    obtain ⟨c, hc, h⟩ := Option.bind_eq_some_iff.mp h
    obtain ⟨cs, hcs, h⟩ := Option.bind_eq_some_iff.mp h
    cases h
    obtain ⟨hb, hl⟩ := List.forall_mem_cons.mp hl
    exact List.forall_mem_cons.mpr ⟨hf b c hb hc, ih hl hcs⟩

theorem SockInv.write (h : SockInv sock) (file : FileSink α) {select : Select}
    (hok : StepOk ⟨file, sock⟩ (.writeSock select)) (hwrite : sock.write select = some sock') :
    SockInv sock' := by
  obtain ⟨past, haccepted, hclients⟩ := h.bytes
  obtain ⟨dump, hdump, hwrite⟩ := Option.bind_eq_some_iff.mp hwrite
  rw [hdump, Option.getD_some] at haccepted
  have hnext : sock.fill.accepted = past ++ dump ++ ([] ++ sock.fill.tmpbuf) := by
    rw [haccepted, List.append_assoc, List.nil_append]
  cases select with
  | interrupted =>
    cases hwrite
    refine ⟨h.fill, fun dump hdump => (by cases hdump), past ++ dump, hnext, fun c hc => ?_⟩
    refine ⟨fun hopen => ?_, (hclients c hc).whole, (hclients c hc).sizes⟩
    rw [hok c hc hopen]
    exact List.nil_suffix
  | failed =>
    cases hwrite
    refine ⟨h.fill, fun dump hdump => (by cases hdump), past ++ dump, hnext, fun c hc => ?_⟩
    obtain ⟨c, hmem, rfl⟩ := List.mem_map.mp hc
    exact ⟨fun hopen => (by cases (Bool.and_eq_true_iff.mp hopen).2), (hclients c hmem).whole,
      (hclients c hmem).sizes⟩
  | ready served new stops =>
    obtain ⟨hserved, hnew⟩ := hok dump hdump
    obtain ⟨clients, hmap, hwrite⟩ := Option.bind_eq_some_iff.mp hwrite
    obtain ⟨added, hadded, hwrite⟩ := Option.bind_eq_some_iff.mp hwrite
    cases hwrite
    refine ⟨h.fill, fun dump hdump => (by cases hdump), past ++ dump, hnext, fun c hc => ?_⟩
    obtain ⟨c, hmem, rfl⟩ := List.mem_map.mp hc
    refine ClientInv.leave ?_ stops
    change ClientInv (past ++ dump) sock.fill.accepted c
    have hlength := h.dump dump hdump
    rw [haccepted] at hclients ⊢
    rcases List.mem_append.mp hmem with hmem | hmem
    · refine forall_of_mapM (P := fun c => c ∈ sock.clients.zipIdx) (fun b c hb hserve => ?_)
        (fun b hb => hb) hmap c hmem
      have hb' := List.mem_of_getElem? (List.mem_zipIdx_iff_getElem?.mp hb)
      exact (hclients b.1 hb').serve hlength (fun hopen results => hserved b.1 b.2 results hb hopen)
        hserve
    · cases new with
      | none =>
        cases hadded
        cases hmem
      | some results =>
        cases results with
        | none =>
          cases hadded
          rw [List.mem_singleton.mp hmem]
          exact new_client_inv
        | some results =>
          obtain ⟨c', hserve, hadded⟩ := Option.bind_eq_some_iff.mp hadded
          cases hadded
          rw [List.mem_singleton.mp hmem]
          refine new_client_inv.serve hlength (fun _ r hr => ?_) hserve
          obtain rfl := Option.some_inj.mp hr
          exact hnew _ rfl

end Socket

section Runs
variable {s s' : State α}

/-- One step keeps both sinks in order. -/
theorem sinks_inv_step {e : Event α} (hfile : FileInv s.file) (hsock : SockInv s.sock)
    (hok : StepOk s e) (hstep : step s e = some s') : FileInv s'.file ∧ SockInv s'.sock := by
  cases e with
  | appendFile msg =>
    cases hstep
    exact ⟨hfile.append hok, hsock⟩
  | appendSock msg =>
    cases hstep
    exact ⟨hfile, hsock.append hok.1 hok.2⟩
  | takeFile =>
    obtain ⟨taken, htake, hstep⟩ := Option.bind_eq_some_iff.mp hstep
    cases hstep
    exact ⟨hfile.take htake, hsock⟩
  | takeSock =>
    have hrunning : ¬ s.sock.stopped = true := by
      intro hstopped
      simp only [step, if_pos hstopped] at hstep
      cases hstep
    simp only [step, if_neg hrunning] at hstep
    obtain ⟨taken, htake, hstep⟩ := Option.bind_eq_some_iff.mp hstep
    cases hstep
    exact ⟨hfile, hsock.take htake⟩
  | writeFile result =>
    obtain ⟨file, hwrite, hstep⟩ := Option.bind_eq_some_iff.mp hstep
    cases hstep
    exact ⟨hfile.write hok hwrite, hsock⟩
  | writeSock select =>
    obtain ⟨sock, hwrite, hstep⟩ := Option.bind_eq_some_iff.mp hstep
    cases hstep
    exact ⟨hfile, hsock.write s.file hok hwrite⟩

end Runs

/-- In every run without short writes and the other steps that are left out, both sinks get what was
accepted. -/
theorem sinks_ok (fds : List Bool) (events : List (Event α)) (s : State α)
    (hok : Meets step StepOk (init fds) events) (hrun : run step (init fds) events = some s) :
    SinksOk s := by
  have hempty : FillInv (Fill.empty : Fill α) :=
    ⟨⟨rfl, rfl, fun d hd => by cases hd⟩, Nat.zero_lt_succ _⟩
  have hinit : FileInv (init fds : State α).file ∧ SockInv (init fds : State α).sock := by
    refine ⟨⟨hempty, ⟨[], rfl, List.Sublist.refl _, fun _ => rfl⟩, fun w hw => by cases hw⟩,
      hempty, fun dump hdump => (by cases hdump), [], rfl, fun c hc => ?_⟩
    obtain ⟨isOpen, -, rfl⟩ := List.mem_map.mp hc
    exact ⟨fun _ => List.nil_suffix, List.nil_infix, fun w hw => by cases hw⟩
  obtain ⟨hfile, hsock⟩ := run_induction_of_meets (P := fun s => FileInv s.file ∧ SockInv s.sock)
    (fun s e s' h hok hstep => sinks_inv_step h.1 h.2 hok hstep) hinit hok hrun
  obtain ⟨_, -, hclients⟩ := hsock.bytes
  exact ⟨hfile.fill.toFillOk, hfile.streamOk, hsock.fill.toFillOk, fun c hc =>
    ⟨(hclients c hc).whole.sublist, fun _ => (hclients c hc).whole, (hclients c hc).sizes⟩⟩

/-- A message that is written in one piece. -/
theorem sinks_ok_sample : ∃ s : State Nat, run step (init [])
    [.appendFile [1, 2], .takeFile, .writeFile (.bytes 2)] = some s ∧ SinksOk s := by
  have hok : Meets step StepOk (init [] : State Nat)
      [.appendFile [1, 2], .takeFile, .writeFile (.bytes 2)] := by
    refine ⟨⟨by decide, fun hroom => by cases hroom⟩, fun t ht => ⟨trivial, fun t' ht' => ?_⟩⟩
    obtain rfl := Option.some_inj.mp ht
    obtain rfl := Option.some_inj.mp ht'
    exact ⟨fun dump hdump => .inr (Option.some_inj.mp hdump ▸ rfl), fun _ _ => trivial⟩
  exact ⟨_, rfl, sinks_ok [] _ _ hok rfl⟩

/-- Two messages, of which the first one is written short. -/
def shortWrite : List (Event Nat) :=
  [.appendFile [1, 2, 3], .takeFile, .writeFile (.bytes 1), .appendFile [4], .takeFile,
    .writeFile (.bytes 1)]

theorem short_write_not_ok : ¬ ∀ s, run step (init []) shortWrite = some s → SinksOk s := by
  intro h
  have hsinks := h _ rfl
  have hwhole := hsinks.file.whole rfl
  revert hwhole
  decide

end Codinalte.Stelp.Sinks
