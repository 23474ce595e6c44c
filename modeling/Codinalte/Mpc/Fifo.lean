import Codinalte.Lib.Machine
import Codinalte.Lib.Ring

/-! The FIFO between two cores: a descriptor with two 16-bit indices and the slots behind it. The
producer and the consumer load and store the indices one at a time, so that each works with a copy
of the other's index. -/

namespace Codinalte.Mpc
open Codinalte.Machine Codinalte.Ring

structure FifoDesc where
  fifoFullValue : UInt16
  readIndex : UInt16
  writeIndex : UInt16
  wrappingValue : UInt16
deriving DecidableEq

def fifoGetCount (writeIndex readIndex fifoSize : UInt16) : UInt16 :=
  if readIndex ≤ writeIndex then writeIndex - readIndex else fifoSize - readIndex + writeIndex

def fifoIncrementIndex (index wrappingValue : UInt16) : UInt16 :=
  if index + 1 = wrappingValue then 0 else index + 1

/-- Where the producer stands. `pointer` is the slot that `fifo_getNextElemToWritePointer` has
handed out; `returned` carries what the last call returned when it was no pointer. -/
inductive ProducerPc where
  | returned (retValue : UInt16)
  | loadedWrite (writeIndex : UInt16)
  | counted (count : UInt16)
  | pointer (slot : UInt16)
  | acking (coms : Bool) (writeIndex : UInt16)
  | interrupting
  | recounting
  | recounted (writeIndex : UInt16)

inductive FifoReaderPc (E : Type) where
  | returned (retValue : UInt16)
  | loadedWrite (writeIndex : UInt16)
  | counted (count : UInt16)
  | pointer (slot : UInt16)
  | loadedElem (slot : UInt16) (elem : E)
  | acking (readIndex : UInt16) (elem : E)
  | recounting
  | recounted (writeIndex : UInt16)

/-- `initial` is what lay in the ring from position `first` on before the first call; `written`
and `read` are the elements acknowledged by either side. -/
structure Fifo (E : Type) where
  desc : FifoDesc
  slots : Nat → E
  interrupts : Nat
  producer : ProducerPc
  consumer : FifoReaderPc E
  first : Nat
  initial : List E
  written : List E
  read : List E

/-- Any descriptor, with whatever its slots hold. -/
def Fifo.opened {E : Type} (desc : FifoDesc) (slots : Nat → E) : Fifo E where
  desc := desc
  slots := slots
  interrupts := 0
  producer := .returned 0
  consumer := .returned 0
  first := desc.readIndex.toNat
  initial := contents slots desc.wrappingValue.toNat desc.readIndex.toNat (desc.readIndex.toNat +
    (fifoGetCount desc.writeIndex desc.readIndex desc.wrappingValue).toNat)
  written := []
  read := []

inductive FifoAction (E : Type) where
  | producer
  | writeElem (elem : E)
  | acknowledgeWrite (coms : Bool)
  | consumer
  | readElem
  | acknowledgeRead

namespace Fifo
variable {E : Type}

def storeWrite (s : Fifo E) (coms : Bool) (writeIndex : UInt16) : Fifo E :=
  { s with
    desc := { s.desc with
      writeIndex := fifoIncrementIndex writeIndex s.desc.wrappingValue }
    producer := if coms then .interrupting else .recounting
    written := s.written ++ [s.slots writeIndex.toNat] }

def storeRead (s : Fifo E) (readIndex : UInt16) (elem : E) : Fifo E :=
  { s with
    desc := { s.desc with readIndex := fifoIncrementIndex readIndex s.desc.wrappingValue }
    consumer := .recounting
    read := s.read ++ [elem] }

/-- One load or store of the producer. -/
def stepProducer (s : Fifo E) : Option (Fifo E) :=
  match s.producer with
  | .returned _ => some { s with producer := .loadedWrite s.desc.writeIndex }
  | .loadedWrite writeIndex =>
    some { s with
      producer := .counted (fifoGetCount writeIndex s.desc.readIndex s.desc.wrappingValue) }
  | .counted count =>
    if count < s.desc.fifoFullValue then some { s with producer := .pointer s.desc.writeIndex }
    else some { s with producer := .returned 0 }
  | .pointer _ => none
  | .acking coms writeIndex => some (s.storeWrite coms writeIndex)
  | .interrupting => some { s with producer := .returned 0, interrupts := s.interrupts + 1 }
  | .recounting => some { s with producer := .recounted s.desc.writeIndex }
  | .recounted writeIndex =>
    some { s with
      producer := .returned (fifoGetCount writeIndex s.desc.readIndex s.desc.wrappingValue) }

/-- One load or store of the consumer. -/
def stepConsumer (s : Fifo E) : Option (Fifo E) :=
  match s.consumer with
  | .returned _ => some { s with consumer := .loadedWrite s.desc.writeIndex }
  | .loadedWrite writeIndex =>
    some { s with
      consumer := .counted (fifoGetCount writeIndex s.desc.readIndex s.desc.wrappingValue) }
  | .counted count =>
    if count ≠ 0 then some { s with consumer := .pointer s.desc.readIndex }
    else some { s with consumer := .returned 0 }
  | .pointer _ => none
  | .loadedElem _ _ => none
  | .acking readIndex elem => some (s.storeRead readIndex elem)
  | .recounting => some { s with consumer := .recounted s.desc.writeIndex }
  | .recounted writeIndex =>
    some { s with
      consumer := .returned (fifoGetCount writeIndex s.desc.readIndex s.desc.wrappingValue) }

/-- With a pointer each side may access the slot any number of times before it acknowledges. -/
def writeElem (s : Fifo E) (elem : E) : Option (Fifo E) :=
  match s.producer with
  | .pointer slot => some { s with slots := Function.update s.slots slot.toNat elem }
  | _ => none

def readElem (s : Fifo E) : Option (Fifo E) :=
  match s.consumer with
  | .pointer slot | .loadedElem slot _ =>
    some { s with consumer := .loadedElem slot (s.slots slot.toNat) }
  | _ => none

/-- The load of `fifo_acknowledgeWrite` or, with `coms`, of the call that ends in the interrupt. -/
def acknowledgeWrite (s : Fifo E) (coms : Bool) : Option (Fifo E) :=
  match s.producer with
  | .pointer _ => some { s with producer := .acking coms s.desc.writeIndex }
  | _ => none

def acknowledgeRead (s : Fifo E) : Option (Fifo E) :=
  match s.consumer with
  | .loadedElem _ elem => some { s with consumer := .acking s.desc.readIndex elem }
  | _ => none

def step (s : Fifo E) : FifoAction E → Option (Fifo E)
  | .producer => s.stepProducer
  | .writeElem elem => s.writeElem elem
  | .acknowledgeWrite coms => s.acknowledgeWrite coms
  | .consumer => s.stepConsumer
  | .readElem => s.readElem
  | .acknowledgeRead => s.acknowledgeRead

/-- How many elements the consumer and the producer have acknowledged, as positions. -/
def readPos (s : Fifo E) : Nat := s.first + s.read.length

def writePos (s : Fifo E) : Nat := s.first + (s.initial ++ s.written).length

def unread (s : Fifo E) : Nat := (s.initial ++ s.written).length - s.read.length

/-- The slots of the elements that are acknowledged by the writer and not by the reader. -/
def unreadSlots (s : Fifo E) : List Nat :=
  window s.desc.wrappingValue.toNat s.readPos s.writePos

/-- The elements on their way, oldest first: what the FIFO is to those who use it. -/
def queue (s : Fifo E) : List E := s.unreadSlots.map s.slots

end Fifo

theorem fifo_get_count_toNat {writeIndex readIndex fifoSize : UInt16}
    (hread : readIndex.toNat < fifoSize.toNat) :
    (fifoGetCount writeIndex readIndex fifoSize).toNat =
      if readIndex.toNat ≤ writeIndex.toNat then writeIndex.toNat - readIndex.toNat
      else fifoSize.toNat - readIndex.toNat + writeIndex.toNat := by
  unfold fifoGetCount
  by_cases horder : readIndex.toNat ≤ writeIndex.toNat
  · rw [if_pos horder, if_pos (UInt16.le_iff_toNat_le.mpr horder), UInt16.toNat_sub_of_le]
    exact UInt16.le_iff_toNat_le.mpr horder
  · have hsize : readIndex ≤ fifoSize := UInt16.le_iff_toNat_le.mpr hread.le
    rw [if_neg horder, if_neg (fun h => horder (UInt16.le_iff_toNat_le.mp h)), UInt16.toNat_add,
      UInt16.toNat_sub_of_le _ _ hsize]
    -- The sum stays below the ring size, so it does not wrap at 16 bits.
    have hfits : fifoSize.toNat < 2 ^ 16 := fifoSize.toNat_lt
    apply Nat.mod_eq_of_lt
    omega

theorem fifo_get_count_pos {writeIndex readIndex fifoSize : UInt16} {R W : Nat}
    (hw : writeIndex.toNat = W % fifoSize.toNat) (hr : readIndex.toNat = R % fifoSize.toNat)
    (hle : R ≤ W) (hlt : W - R < fifoSize.toNat) :
    (fifoGetCount writeIndex readIndex fifoSize).toNat = W - R := by
  have hpos : 0 < fifoSize.toNat := by omega
  have hread : readIndex.toNat < fifoSize.toNat := hr ▸ Nat.mod_lt R hpos
  rw [fifo_get_count_toNat hread, hr, hw]
  exact count_mod hle hlt

theorem fifo_increment_pos {index wrappingValue : UInt16} {P : Nat}
    (hpos : 0 < wrappingValue.toNat) (h : index.toNat = P % wrappingValue.toNat) :
    (fifoIncrementIndex index wrappingValue).toNat = (P + 1) % wrappingValue.toNat := by
  have hindex : index.toNat < wrappingValue.toNat := h ▸ Nat.mod_lt P hpos
  have hfits : wrappingValue.toNat < 2 ^ 16 := wrappingValue.toNat_lt
  have hsucc : (index + 1).toNat = index.toNat + 1 := by
    rw [UInt16.toNat_add]
    apply Nat.mod_eq_of_lt
    show index.toNat + 1 < 2 ^ 16
    omega
  rw [← next_mod hpos, ← h]
  unfold fifoIncrementIndex
  by_cases hwrap : index.toNat + 1 = wrappingValue.toNat
  · have heq : index + 1 = wrappingValue := UInt16.toNat_inj.mp (hsucc.trans hwrap)
    rw [if_pos hwrap, if_pos heq]
    rfl
  · have hne : index + 1 ≠ wrappingValue := fun heq => hwrap (hsucc.symm.trans (heq ▸ rfl))
    rw [if_neg hwrap, if_neg hne, hsucc]

/-- What the producer knows: its own index, and of the reader only that it was this far. -/
def ProducerOk (n full R W : Nat) : ProducerPc → Prop
  | .loadedWrite writeIndex => writeIndex.toNat = W % n
  | .counted count => W - R ≤ count.toNat
  | .pointer slot => slot.toNat = W % n ∧ W - R < full
  | .acking _ writeIndex => writeIndex.toNat = W % n ∧ W - R < full
  | _ => True

/-- What the consumer knows: its own index, and of the writer a position it has passed. -/
def ReaderOk {E : Type} (n R W : Nat) (slots : Nat → E) : FifoReaderPc E → Prop
  | .loadedWrite writeIndex => ∃ V, R ≤ V ∧ V ≤ W ∧ writeIndex.toNat = V % n
  | .counted count => count.toNat ≤ W - R
  | .pointer slot => slot.toNat = R % n ∧ R < W
  | .loadedElem slot elem => slot.toNat = R % n ∧ R < W ∧ elem = slots (R % n)
  | .acking readIndex elem => readIndex.toNat = R % n ∧ R < W ∧ elem = slots (R % n)
  | _ => True

structure FifoInv {E : Type} (d : FifoDesc) (s : Fifo E) : Prop where
  wrapping : s.desc.wrappingValue = d.wrappingValue
  full : s.desc.fifoFullValue = d.fifoFullValue
  readIndex : s.desc.readIndex.toNat = s.readPos % d.wrappingValue.toNat
  writeIndex : s.desc.writeIndex.toNat = s.writePos % d.wrappingValue.toNat
  order : s.readPos ≤ s.writePos
  bound : s.writePos - s.readPos ≤ max d.fifoFullValue.toNat s.initial.length
  room : max d.fifoFullValue.toNat s.initial.length < d.wrappingValue.toNat
  start : s.initial.length = (fifoGetCount d.writeIndex d.readIndex d.wrappingValue).toNat
  balance : s.initial ++ s.written =
    s.read ++ contents s.slots d.wrappingValue.toNat s.readPos s.writePos
  producer : ProducerOk d.wrappingValue.toNat d.fifoFullValue.toNat s.readPos s.writePos s.producer
  consumer : ReaderOk d.wrappingValue.toNat s.readPos s.writePos s.slots s.consumer

section Invariant
variable {E : Type} {d : FifoDesc} {s t : Fifo E} {n full R W : Nat}

/-- Reading makes the producer's copy old, on the safe side. -/
theorem producer_ok_read {pc : ProducerPc} (h : ProducerOk n full R W pc) {R' : Nat}
    (hle : R ≤ R') : ProducerOk n full R' W pc := by
  cases pc with
  | counted count =>
    have hcount : W - R ≤ count.toNat := h
    show W - R' ≤ count.toNat
    omega
  | pointer slot =>
    obtain ⟨hslot, hroom⟩ := h
    exact ⟨hslot, by omega⟩
  | acking coms writeIndex =>
    obtain ⟨hindex, hroom⟩ := h
    exact ⟨hindex, by omega⟩
  | loadedWrite writeIndex => exact h
  | returned retValue => trivial
  | interrupting => trivial
  | recounting => trivial
  | recounted writeIndex => trivial

/-- Writing makes the consumer's copy old, on the safe side, and leaves the oldest element. -/
theorem reader_ok_write {pc : FifoReaderPc E} {slots slots' : Nat → E}
    (h : ReaderOk n R W slots pc) {W' : Nat} (hle : W ≤ W')
    (hslots : R < W → slots' (R % n) = slots (R % n)) : ReaderOk n R W' slots' pc := by
  cases pc with
  | loadedWrite writeIndex =>
    obtain ⟨V, hV, hVW, hindex⟩ := h
    exact ⟨V, hV, hVW.trans hle, hindex⟩
  | counted count =>
    have hcount : count.toNat ≤ W - R := h
    show count.toNat ≤ W' - R
    omega
  | pointer slot =>
    obtain ⟨hslot, hlt⟩ := h
    exact ⟨hslot, by omega⟩
  | loadedElem slot elem =>
    obtain ⟨hslot, hlt, helem⟩ := h
    exact ⟨hslot, by omega, helem.trans (hslots hlt).symm⟩
  | acking readIndex elem =>
    obtain ⟨hindex, hlt, helem⟩ := h
    exact ⟨hindex, by omega, helem.trans (hslots hlt).symm⟩
  | returned retValue => trivial
  | recounting => trivial
  | recounted writeIndex => trivial

theorem FifoInv.lt (h : FifoInv d s) : s.writePos - s.readPos < d.wrappingValue.toNat :=
  h.bound.trans_lt h.room

/-- The producer goes on without storing anything. -/
theorem FifoInv.setProducer (h : FifoInv d s) {pc : ProducerPc} (interrupts : Nat)
    (hpc : ProducerOk d.wrappingValue.toNat d.fifoFullValue.toNat s.readPos s.writePos pc) :
    FifoInv d { s with producer := pc, interrupts := interrupts } :=
  ⟨h.wrapping, h.full, h.readIndex, h.writeIndex, h.order, h.bound, h.room, h.start, h.balance, hpc,
    h.consumer⟩

theorem FifoInv.setConsumer (h : FifoInv d s) {pc : FifoReaderPc E}
    (hpc : ReaderOk d.wrappingValue.toNat s.readPos s.writePos s.slots pc) :
    FifoInv d { s with consumer := pc } :=
  ⟨h.wrapping, h.full, h.readIndex, h.writeIndex, h.order, h.bound, h.room, h.start, h.balance,
    h.producer, hpc⟩

/-- The first load of the consumer sees every element acknowledged so far. -/
theorem reader_ok_loaded (h : FifoInv d s) :
    ReaderOk d.wrappingValue.toNat s.readPos s.writePos s.slots (.loadedWrite s.desc.writeIndex) :=
  ⟨s.writePos, h.order, le_refl _, h.writeIndex⟩

theorem fifo_store_write (h : FifoInv d s) {coms : Bool} {writeIndex : UInt16}
    (hpc : s.producer = .acking coms writeIndex) : FifoInv d (s.storeWrite coms writeIndex) := by
  have hknows := h.producer
  rw [hpc] at hknows
  obtain ⟨hindex, hroom⟩ := hknows
  have hwritePos : (s.storeWrite coms writeIndex).writePos = s.writePos + 1 := by
    show s.first + (s.initial ++ (s.written ++ [_])).length = _
    rw [← List.append_assoc, List.length_append]
    rfl
  have hlt := h.lt
  refine ⟨h.wrapping, h.full, h.readIndex, ?_, ?_, ?_, h.room, h.start, ?_, ?_, ?_⟩
  · rw [hwritePos]
    show (fifoIncrementIndex writeIndex s.desc.wrappingValue).toNat = _
    rw [h.wrapping]
    exact fifo_increment_pos (by omega) hindex
  · rw [hwritePos]
    exact h.order.trans (Nat.le_succ _)
  · rw [hwritePos]
    show s.writePos + 1 - s.readPos ≤ max d.fifoFullValue.toNat s.initial.length
    omega
  · rw [hwritePos]
    show s.initial ++ (s.written ++ [s.slots writeIndex.toNat]) =
      s.read ++ contents s.slots _ s.readPos (s.writePos + 1)
    rw [contents_snoc s.slots h.order, ← List.append_assoc, ← List.append_assoc, h.balance, hindex]
  · cases coms with
    | true => trivial
    | false => trivial
  · rw [hwritePos]
    exact reader_ok_write h.consumer (Nat.le_succ _) fun _ => rfl

theorem fifo_store_read (h : FifoInv d s) {readIndex : UInt16} {elem : E}
    (hpc : s.consumer = .acking readIndex elem) : FifoInv d (s.storeRead readIndex elem) := by
  have hknows := h.consumer
  rw [hpc] at hknows
  obtain ⟨hindex, hunread, helem⟩ := hknows
  have hreadPos : (s.storeRead readIndex elem).readPos = s.readPos + 1 := by
    show s.first + (s.read ++ [elem]).length = _
    rw [List.length_append]
    rfl
  have hlt := h.lt
  have hbound := h.bound
  refine ⟨h.wrapping, h.full, ?_, h.writeIndex, ?_, ?_, h.room, h.start, ?_, ?_, trivial⟩
  · rw [hreadPos]
    show (fifoIncrementIndex readIndex s.desc.wrappingValue).toNat = _
    rw [h.wrapping]
    exact fifo_increment_pos (by omega) hindex
  · rw [hreadPos]
    exact hunread
  · rw [hreadPos]
    show s.writePos - (s.readPos + 1) ≤ max d.fifoFullValue.toNat s.initial.length
    omega
  · rw [hreadPos]
    show s.initial ++ s.written =
      (s.read ++ [elem]) ++ contents s.slots _ (s.readPos + 1) s.writePos
    rw [h.balance, contents_cons s.slots hunread, helem, List.append_assoc]
    rfl
  · rw [hreadPos]
    exact producer_ok_read h.producer (Nat.le_succ _)

theorem fifo_write_elem (h : FifoInv d s) {slot : UInt16} (elem : E)
    (hpc : s.producer = .pointer slot) :
    FifoInv d { s with slots := Function.update s.slots slot.toNat elem } := by
  have hknows := h.producer
  rw [hpc] at hknows
  obtain ⟨hslot, hroom⟩ := hknows
  have hfree : slot.toNat ∉ window d.wrappingValue.toNat s.readPos s.writePos := by
    rw [hslot]
    exact next_notMem_window h.order h.lt
  refine ⟨h.wrapping, h.full, h.readIndex, h.writeIndex, h.order, h.bound, h.room, h.start, ?_,
    h.producer, ?_⟩
  · show s.initial ++ s.written =
      s.read ++ contents (Function.update s.slots _ _) _ s.readPos s.writePos
    rw [contents_update s.slots elem hfree]
    exact h.balance
  · apply reader_ok_write h.consumer le_rfl
    intro hunread
    apply Function.update_of_ne
    intro heq
    exact hfree (heq ▸ first_mem_window hunread)

theorem fifo_step_producer (h : FifoInv d s) (hstep : s.stepProducer = some t) : FifoInv d t := by
  unfold Fifo.stepProducer at hstep
  split at hstep
  · cases hstep
    exact h.setProducer s.interrupts h.writeIndex
  · next writeIndex hpc =>
    cases hstep
    have hindex := h.producer
    rw [hpc] at hindex
    apply h.setProducer s.interrupts
    show s.writePos - s.readPos ≤ (fifoGetCount _ _ _).toNat
    rw [h.wrapping, fifo_get_count_pos hindex h.readIndex h.order h.lt]
  · next count hpc =>
    have hcount := h.producer
    rw [hpc] at hcount
    split_ifs at hstep with hroom
    · cases hstep
      rw [h.full] at hroom
      exact h.setProducer s.interrupts
        ⟨h.writeIndex, lt_of_le_of_lt hcount (UInt16.lt_iff_toNat_lt.mp hroom)⟩
    · cases hstep
      exact h.setProducer s.interrupts trivial
  · cases hstep
  · next coms writeIndex hpc =>
    cases hstep
    exact fifo_store_write h hpc
  · cases hstep
    exact h.setProducer _ trivial
  · cases hstep
    exact h.setProducer s.interrupts trivial
  · cases hstep
    exact h.setProducer s.interrupts trivial

theorem fifo_step_consumer (h : FifoInv d s) (hstep : s.stepConsumer = some t) : FifoInv d t := by
  unfold Fifo.stepConsumer at hstep
  split at hstep
  · cases hstep
    exact h.setConsumer (reader_ok_loaded h)
  · next writeIndex hpc =>
    cases hstep
    have hindex := h.consumer
    rw [hpc] at hindex
    obtain ⟨V, hV, hVW, hindex⟩ := hindex
    have hlt := h.lt
    apply h.setConsumer
    show (fifoGetCount _ _ _).toNat ≤ s.writePos - s.readPos
    rw [h.wrapping, fifo_get_count_pos hindex h.readIndex hV (by omega)]
    omega
  · next count hpc =>
    have hcount := h.consumer
    rw [hpc] at hcount
    split_ifs at hstep with hunread
    · cases hstep
      have hpos : count.toNat ≠ 0 := fun hzero => hunread (UInt16.toNat_inj.mp hzero)
      have hle : count.toNat ≤ s.writePos - s.readPos := hcount
      exact h.setConsumer ⟨h.readIndex, by omega⟩
    · cases hstep
      exact h.setConsumer trivial
  · cases hstep
  · cases hstep
  · next readIndex elem hpc =>
    cases hstep
    exact fifo_store_read h hpc
  · cases hstep
    exact h.setConsumer trivial
  · cases hstep
    exact h.setConsumer trivial

theorem fifo_inv_step {a : FifoAction E} (h : FifoInv d s) (hstep : s.step a = some t) :
    FifoInv d t := by
  cases a with
  | producer => exact fifo_step_producer h hstep
  | consumer => exact fifo_step_consumer h hstep
  | writeElem elem =>
    change s.writeElem elem = some t at hstep
    unfold Fifo.writeElem at hstep
    split at hstep
    · next slot hpc =>
      cases hstep
      exact fifo_write_elem h elem hpc
    · cases hstep
  | acknowledgeWrite coms =>
    change s.acknowledgeWrite coms = some t at hstep
    unfold Fifo.acknowledgeWrite at hstep
    split at hstep
    · next slot hpc =>
      cases hstep
      have hknows := h.producer
      rw [hpc] at hknows
      exact h.setProducer s.interrupts ⟨h.writeIndex, hknows.2⟩
    · cases hstep
  | readElem =>
    change s.readElem = some t at hstep
    unfold Fifo.readElem at hstep
    split at hstep
    · next slot hpc =>
      cases hstep
      have hknows := h.consumer
      rw [hpc] at hknows
      exact h.setConsumer ⟨hknows.1, hknows.2, congrArg s.slots hknows.1⟩
    · next slot elem hpc =>
      cases hstep
      have hknows := h.consumer
      rw [hpc] at hknows
      exact h.setConsumer ⟨hknows.1, hknows.2.1, congrArg s.slots hknows.1⟩
    · cases hstep
  | acknowledgeRead =>
    change s.acknowledgeRead = some t at hstep
    unfold Fifo.acknowledgeRead at hstep
    split at hstep
    · next slot elem hpc =>
      cases hstep
      have hknows := h.consumer
      rw [hpc] at hknows
      exact h.setConsumer ⟨h.readIndex, hknows.2⟩
    · cases hstep

theorem queue_balance (h : FifoInv d s) : s.initial ++ s.written = s.read ++ s.queue := by
  have hqueue : s.queue = contents s.slots d.wrappingValue.toNat s.readPos s.writePos := by
    unfold Fifo.queue Fifo.unreadSlots
    rw [h.wrapping]
    rfl
  rw [hqueue]
  exact h.balance

/-- A step acknowledges one element at most. -/
theorem fifo_acknowledges_step {a : FifoAction E} (hstep : s.step a = some t) :
    t.initial = s.initial ∧ ((t.written = s.written ∧ t.read = s.read) ∨
      (∃ elem, t.written = s.written ++ [elem] ∧ t.read = s.read) ∨
      ∃ elem, t.written = s.written ∧ t.read = s.read ++ [elem]) := by
  cases a with
  | producer => grind [Fifo.step, Fifo.stepProducer, Fifo.storeWrite]
  | consumer => grind [Fifo.step, Fifo.stepConsumer, Fifo.storeRead]
  | writeElem elem => grind [Fifo.step, Fifo.writeElem]
  | acknowledgeWrite coms => grind [Fifo.step, Fifo.acknowledgeWrite]
  | readElem => grind [Fifo.step, Fifo.readElem]
  | acknowledgeRead => grind [Fifo.step, Fifo.acknowledgeRead]

/-- The indexed ring refines a list that is appended to by the one side and shortened from the
front by the other. -/
theorem fifo_queue_step {a : FifoAction E} (h : FifoInv d s) (hstep : s.step a = some t) :
    t.queue = s.queue ∨ (∃ elem, t.queue = s.queue ++ [elem]) ∨
      ∃ elem, s.queue = elem :: t.queue := by
  have hbefore := queue_balance h
  have hafter := queue_balance (fifo_inv_step h hstep)
  obtain ⟨hinitial, hcases⟩ := fifo_acknowledges_step hstep
  rw [hinitial] at hafter
  rcases hcases with ⟨hwritten, hread⟩ | ⟨elem, hwritten, hread⟩ | ⟨elem, hwritten, hread⟩
  · rw [hwritten, hread, hbefore] at hafter
    exact .inl (List.append_cancel_left hafter).symm
  · rw [hwritten, hread, ← List.append_assoc, hbefore, List.append_assoc] at hafter
    exact .inr (.inl ⟨elem, (List.append_cancel_left hafter).symm⟩)
  · rw [hwritten, hread, hbefore, List.append_assoc] at hafter
    exact .inr (.inr ⟨elem, List.append_cancel_left hafter⟩)

/-- The count taken from the two indices is the length of the list. -/
theorem fifo_count_queue (h : FifoInv d s) :
    (fifoGetCount s.desc.writeIndex s.desc.readIndex s.desc.wrappingValue).toNat =
      s.queue.length := by
  rw [h.wrapping, fifo_get_count_pos h.writeIndex h.readIndex h.order h.lt]
  unfold Fifo.queue Fifo.unreadSlots
  rw [List.length_map, window_length]

theorem fifo_inv_opened (d : FifoDesc) (slots : Nat → E) (hfull : d.fifoFullValue < d.wrappingValue)
    (hread : d.readIndex < d.wrappingValue) (hwrite : d.writeIndex < d.wrappingValue) :
    FifoInv d (Fifo.opened d slots) := by
  have hfullNat := UInt16.lt_iff_toNat_lt.mp hfull
  have hreadNat := UInt16.lt_iff_toNat_lt.mp hread
  have hwriteNat := UInt16.lt_iff_toNat_lt.mp hwrite
  have hcount := @fifo_get_count_toNat d.writeIndex d.readIndex d.wrappingValue hreadNat
  have hlength : (Fifo.opened d slots).initial.length =
      (fifoGetCount d.writeIndex d.readIndex d.wrappingValue).toNat := by
    show (contents _ _ _ _).length = _
    rw [contents_length, Nat.add_sub_cancel_left]
  have hwritePos : (Fifo.opened d slots).writePos = d.readIndex.toNat +
      (fifoGetCount d.writeIndex d.readIndex d.wrappingValue).toNat := by
    show _ + ((Fifo.opened d slots).initial ++ []).length = _
    rw [List.append_nil, hlength]
    rfl
  refine ⟨rfl, rfl, (Nat.mod_eq_of_lt hreadNat).symm, ?_, ?_, ?_, ?_, hlength, ?_, trivial, trivial⟩
  · rw [hwritePos, hcount]
    show d.writeIndex.toNat = _
    split_ifs with horder
    · rw [Nat.add_sub_cancel' horder, Nat.mod_eq_of_lt hwriteNat]
    · have hsum : d.readIndex.toNat + (d.wrappingValue.toNat - d.readIndex.toNat +
          d.writeIndex.toNat) = d.wrappingValue.toNat + d.writeIndex.toNat := by omega
      rw [hsum, Nat.add_mod_left, Nat.mod_eq_of_lt hwriteNat]
  · rw [hwritePos]
    exact Nat.le_add_right ..
  · rw [hwritePos, hlength]
    show _ - d.readIndex.toNat ≤ _
    omega
  · rw [hlength, hcount]
    split_ifs
    · omega
    · omega
  · rw [hwritePos]
    exact List.append_nil _

/-- The indices stay inside the ring, the elements not read stay within the larger of the full
value and what lay in the ring first, no slot is handed out to both sides, and what is read is
what was written, in order; what is not read lies in the slots. -/
theorem fifo_keeps_order (d : FifoDesc) (slots : Nat → E) (as : List (FifoAction E)) (s : Fifo E)
    (hfull : d.fifoFullValue < d.wrappingValue) (hread : d.readIndex < d.wrappingValue)
    (hwrite : d.writeIndex < d.wrappingValue)
    (hrun : run Fifo.step (Fifo.opened d slots) as = some s) :
    (s.desc.readIndex < d.wrappingValue ∧ s.desc.writeIndex < d.wrappingValue) ∧
    (s.read.length ≤ (s.initial ++ s.written).length ∧
      s.unread ≤ max d.fifoFullValue.toNat
        (fifoGetCount d.writeIndex d.readIndex d.wrappingValue).toNat) ∧
    (∀ slot, s.producer = .pointer slot → slot.toNat ∉ s.unreadSlots) ∧
    (∀ slot, s.consumer = .pointer slot → slot.toNat ∈ s.unreadSlots) ∧
    s.initial ++ s.written = s.read ++ s.unreadSlots.map s.slots := by
  have hinv : FifoInv d s :=
    run_induction (fun _ _ _ h hstep => fifo_inv_step h hstep)
      (fifo_inv_opened d slots hfull hread hwrite) hrun
  have hlt := hinv.lt
  have hpos : 0 < d.wrappingValue.toNat := by omega
  have hslots : s.unreadSlots = window d.wrappingValue.toNat s.readPos s.writePos := by
    unfold Fifo.unreadSlots
    rw [hinv.wrapping]
  have hread : s.desc.readIndex < d.wrappingValue := by
    apply UInt16.lt_iff_toNat_lt.mpr
    rw [hinv.readIndex]
    exact Nat.mod_lt _ hpos
  have hwrite : s.desc.writeIndex < d.wrappingValue := by
    apply UInt16.lt_iff_toNat_lt.mpr
    rw [hinv.writeIndex]
    exact Nat.mod_lt _ hpos
  have horder : s.read.length ≤ (s.initial ++ s.written).length :=
    Nat.add_le_add_iff_left.mp hinv.order
  have hbound := hinv.bound
  rw [hinv.start] at hbound
  refine ⟨⟨hread, hwrite⟩, ⟨horder, ?_⟩, ?_, ?_, ?_⟩
  · have hunread : s.unread = s.writePos - s.readPos := (Nat.add_sub_add_left ..).symm
    rw [hunread]
    exact hbound
  · intro slot hpc
    have hknows := hinv.producer
    rw [hpc] at hknows
    rw [hslots, hknows.1]
    exact next_notMem_window hinv.order hlt
  · intro slot hpc
    have hknows := hinv.consumer
    rw [hpc] at hknows
    rw [hslots, hknows.1]
    exact first_mem_window hknows.2
  · exact queue_balance hinv

/-- Three slots, at most two elements; the indices start at the end of the ring. -/
def sampleDesc : FifoDesc := ⟨2, 2, 2, 3⟩

/-- The producer writes 10 and 11, wrapping around, while the consumer reads the first. -/
def sampleTransfer : List (FifoAction Nat) :=
  [.producer, .producer, .producer, .writeElem 10, .acknowledgeWrite false, .consumer, .producer,
    .producer, .producer, .consumer, .consumer, .consumer, .consumer, .consumer, .producer,
    .producer, .producer, .readElem, .writeElem 11, .acknowledgeWrite true, .producer, .producer,
    .acknowledgeRead, .consumer]

theorem fifo_keeps_order_sample : ∃ s,
    run Fifo.step (Fifo.opened sampleDesc fun _ => 0) sampleTransfer = some s ∧
    s.read = [10] ∧ s.written = [10, 11] ∧ s.initial ++ s.written = s.read ++ [11] := by
  have hrun : ∃ s, run Fifo.step (Fifo.opened sampleDesc fun _ => 0) sampleTransfer = some s ∧
      s.read = [10] ∧ s.written = [10, 11] ∧ s.unreadSlots.map s.slots = [11] :=
    ⟨_, rfl, rfl, rfl, rfl⟩
  obtain ⟨s, hs, hread, hwritten, hslots⟩ := hrun
  obtain ⟨-, -, -, -, horder⟩ := fifo_keeps_order sampleDesc (fun _ => 0) sampleTransfer s
    (by decide) (by decide) (by decide) hs
  rw [hslots] at horder
  exact ⟨s, hs, hread, hwritten, horder⟩

/-- Room for one element, and three in the ring to begin with. -/
theorem full_value_exceeded : ∃ d : FifoDesc, d.fifoFullValue < d.wrappingValue ∧
    d.readIndex < d.wrappingValue ∧ d.writeIndex < d.wrappingValue ∧
    d.fifoFullValue.toNat < (Fifo.opened d fun _ => 0).unread :=
  ⟨⟨1, 0, 3, 4⟩, by decide, by decide, by decide, by decide⟩

end Invariant

end Codinalte.Mpc
