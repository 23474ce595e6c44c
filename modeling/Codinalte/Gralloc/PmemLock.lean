import Codinalte.Gralloc.LockWord
import Codinalte.Gralloc.Layout
import Mathlib.Logic.Function.Basic

/-! The lock word of a pmem buffer: every thread that is in `gralloc_lock_pmem` or in
`gralloc_unlock_pmem`, one access to what the threads share at a time. -/

namespace Codinalte.Gralloc

/-- `usage & (GRALLOC_USAGE_SW_WRITE_MASK | GRALLOC_USAGE_HW_RENDER)`. -/
def Usage.forWrite (usage : Usage) : Bool := usage.swWrite || usage.hwRender

/-- The identifiers of threads are positive. -/
def gettid (thread : Nat) : Nat := thread + 1

/-- Where a thread is; `busy` is the return of `-EBUSY`, `locked` and `unlocked` are the others. -/
inductive LockPc where
  | idle
  | locking (usage : Usage)
  | lockSwap (usage : Usage) (current new : BitVec 32)
  | granted (usage : Usage) (current new : BitVec 32)
  | testMapped (usage : Usage) (current : BitVec 32)
  | atMapLock (usage : Usage)
  | inMapLock (usage : Usage)
  | mapping (usage : Usage)
  | markMapped (usage : Usage)
  | leaveMapLock (err : Int)
  | readBase (err : Int)
  | busy
  | locked (err : Int) (vaddr : Option Nat)
  | unlocking
  | readOwner (current : BitVec 32)
  | clearOwner (current : BitVec 32)
  | unlockSwap (current new : BitVec 32)
  | unlocked (err : Int)

def LockPc.atRest : LockPc → Bool
  | .idle | .busy | .locked _ _ | .unlocked _ => true
  | _ => false

/-- The fields of the handle that are used, and `sMapLock`. The last four fields are records: the
locks that are granted and not yet released, with what they are for; those of calls whose mapping
failed; how often the buffer was marked as mapped; and whether the last call of a thread has written
`lockState` or `writeOwner`. -/
structure PmemHandle where
  lockState : BitVec 32
  writeOwner : Nat
  baseAddr : Nat
  offset : Nat
  framebuffer : Bool
  mapLock : Option Nat
  pc : Nat → LockPc
  holders : List (Nat × Bool)
  failed : List (Nat × Bool)
  mappings : Nat
  changed : Nat → Bool

/-- The handle as it is before the first lock, whatever the process that created it. -/
def PmemHandle.start (lockState : BitVec 32) (writeOwner baseAddr offset : Nat) (framebuffer : Bool) :
    PmemHandle where
  lockState := lockState
  writeOwner := writeOwner
  baseAddr := baseAddr
  offset := offset
  framebuffer := framebuffer
  mapLock := none
  pc := fun _ => .idle
  holders := []
  failed := []
  mappings := 0
  changed := fun _ => false

namespace PmemHandle

/-- `gralloc_register_buffer_pmem`; `own` says that the process created the handle. -/
def registerBuffer (s : PmemHandle) (own : Bool) : PmemHandle :=
  if own then s else { s with baseAddr := 0, lockState := 0, writeOwner := 0 }

def goto (s : PmemHandle) (k : Nat) (pc : LockPc) : PmemHandle :=
  { s with pc := Function.update s.pc k pc }

def change (s : PmemHandle) (k : Nat) : PmemHandle :=
  { s with changed := Function.update s.changed k true }

/-- The head of the loop: `lockState` is read, and tested. -/
def lockLoad (s : PmemHandle) (k : Nat) (usage : Usage) : PmemHandle :=
  let current := s.lockState
  if lockedForWrite current then s.goto k .busy
  else if readCount current ≠ 0 ∧ usage.forWrite then s.goto k .busy
  else
    let new := if usage.forWrite then current ||| lockStateWrite else current
    s.goto k (.lockSwap usage current (new + 1))

def swapForLock (s : PmemHandle) (k : Nat) (usage : Usage) (current new : BitVec 32) : PmemHandle :=
  if s.lockState = current then
    ({ s with lockState := new, holders := (k, usage.forWrite) :: s.holders }.change k).goto k
      (.granted usage current new)
  else s.goto k (.locking usage)

def storeOwner (s : PmemHandle) (k : Nat) (usage : Usage) (current new : BitVec 32) : PmemHandle :=
  if lockedForWrite new then
    ({ s with writeOwner := gettid k }.change k).goto k (.testMapped usage current)
  else s.goto k (.testMapped usage current)

def testMapped (s : PmemHandle) (k : Nat) (usage : Usage) (current : BitVec 32) : PmemHandle :=
  if usage.software then
    -- the word as it was before the swap; the test is made again under `sMapLock`
    if isMapped current then s.goto k (.readBase 0) else s.goto k (.atMapLock usage)
  else s.goto k (.locked 0 none)

/-- `gralloc_map`; `mmap` is what the call of `mmap` gives. `*vaddr` is set once more at the end. -/
def grallocMap (s : PmemHandle) (k : Nat) (usage : Usage) (mmap : Except Int Nat) : PmemHandle :=
  let result := if s.framebuffer then .ok s.baseAddr
    else mmap.map fun address => (address + s.offset) % 4294967296
  match result with
  | .ok address => { s with baseAddr := address }.goto k (.markMapped usage)
  | .error errno =>
    if -errno = 0 then s.goto k (.markMapped usage)
    -- the call gives an error back and leaves its count in the word
    else { s with
        holders := s.holders.erase (k, usage.forWrite)
        failed := (k, usage.forWrite) :: s.failed }.goto k (.leaveMapLock (-errno))

def markMapped (s : PmemHandle) (k : Nat) : PmemHandle :=
  ({ s with lockState := s.lockState ||| lockStateMapped, mappings := s.mappings + 1 }.change k).goto k
    (.leaveMapLock 0)

/-- What follows the test of `LOCK_STATE_WRITE` in `gralloc_unlock_pmem`. -/
def testCount (s : PmemHandle) (k : Nat) (current new : BitVec 32) : PmemHandle :=
  if readCount new = 0 then s.goto k (.unlocked (-einval))
  else s.goto k (.unlockSwap current (new - 1))

def unlockLoad (s : PmemHandle) (k : Nat) : PmemHandle :=
  let current := s.lockState
  if lockedForWrite current then s.goto k (.readOwner current)
  else s.testCount k current current

def readOwner (s : PmemHandle) (k : Nat) (current : BitVec 32) : PmemHandle :=
  if s.writeOwner = gettid k then s.goto k (.clearOwner current)
  -- a lock for write of another thread keeps its flag, and loses a count
  else s.testCount k current current

def clearOwner (s : PmemHandle) (k : Nat) (current : BitVec 32) : PmemHandle :=
  ({ s with writeOwner := 0 }.change k).testCount k current (current &&& ~~~lockStateWrite)

/-- The lock that is released was for write when this is the call that takes the flag away. -/
def swapForUnlock (s : PmemHandle) (k : Nat) (current new : BitVec 32) : PmemHandle :=
  if s.lockState = current then
    ({ s with
      lockState := new
      holders := s.holders.erase (k, lockedForWrite current && !lockedForWrite new) }.change k).goto k
        (.unlocked 0)
  else s.goto k .unlocking

/-- A thread goes on by one access; `mmap` is used where it maps the buffer. -/
def advance (s : PmemHandle) (k : Nat) (mmap : Except Int Nat) : Option PmemHandle :=
  match s.pc k with
  | .locking usage => some (s.lockLoad k usage)
  | .lockSwap usage current new => some (s.swapForLock k usage current new)
  | .granted usage current new => some (s.storeOwner k usage current new)
  | .testMapped usage current => some (s.testMapped k usage current)
  | .atMapLock usage =>
    if s.mapLock = none then some ({ s with mapLock := some k }.goto k (.inMapLock usage)) else none
  | .inMapLock usage =>
    some (if isMapped s.lockState then s.goto k (.leaveMapLock 0) else s.goto k (.mapping usage))
  | .mapping usage => some (s.grallocMap k usage mmap)
  | .markMapped _ => some (s.markMapped k)
  | .leaveMapLock err => some ({ s with mapLock := none }.goto k (.readBase err))
  | .readBase err => some (s.goto k (.locked err (some s.baseAddr)))
  | .unlocking => some (s.unlockLoad k)
  | .readOwner current => some (s.readOwner k current)
  | .clearOwner current => some (s.clearOwner k current)
  | .unlockSwap current new => some (s.swapForUnlock k current new)
  | _ => none

end PmemHandle

inductive LockAction where
  | lock (thread : Nat) (usage : Usage)
  | unlock (thread : Nat)
  | advance (thread : Nat) (mmap : Except Int Nat)

/-- A thread unlocks only what it has locked. -/
def PmemHandle.step (s : PmemHandle) : LockAction → Option PmemHandle
  | .lock k usage =>
    if (s.pc k).atRest then
      some ({ s with changed := Function.update s.changed k false }.goto k (.locking usage))
    else none
  | .unlock k =>
    if (s.pc k).atRest ∧ (∃ w, (k, w) ∈ s.holders) then
      some ({ s with changed := Function.update s.changed k false }.goto k .unlocking)
    else none
  | .advance k mmap => s.advance k mmap

end Codinalte.Gralloc
