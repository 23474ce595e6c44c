import Codinalte.Gralloc.PmemLock
import Codinalte.Lib.Machine

/-! Posting a buffer to the framebuffer, between locks and unlocks of other clients. The calls of
`gralloc_lock` and `gralloc_unlock` are one step each. -/

namespace Codinalte.Gralloc
open Codinalte.Machine

/-- What `gralloc_lock` and `fb_post` tell apart; a handle that wraps a buffer counts no locks. -/
inductive HandleKind where
  | invalid
  | framebuffer
  | pmem
  | hwmem
  | wrapper
deriving DecidableEq

structure PostHandle where
  kind : HandleKind
  lockState : BitVec 32
  writeOwner : Nat
  lockCnt : Nat
deriving DecidableEq

/-- Whether a call outside the module succeeds: what `gralloc_lock` does with a hwmem buffer, the
mapping of a pmem buffer, and the frame that is sent to the display. -/
structure PostOutcome where
  hwmem : Bool
  mapped : Bool
  sent : Bool
deriving DecidableEq

namespace PostHandle

/-- `gralloc_lock_pmem`; there is no handle where it returns `-EBUSY`. -/
def lockPmem (h : PostHandle) (thread : Nat) (usage : Usage) (mapped : Bool) : Option PostHandle :=
  let current := h.lockState
  if lockedForWrite current then none
  else if readCount current ≠ 0 ∧ usage.forWrite then none
  else
    let new := (if usage.forWrite then current ||| lockStateWrite else current) + 1
    let owner := if lockedForWrite new then gettid thread else h.writeOwner
    -- a mapping that fails gives an error back, and leaves its count in the word
    let new :=
      if usage.software && !isMapped current && mapped then new ||| lockStateMapped else new
    some { h with lockState := new, writeOwner := owner }

/-- `gralloc_unlock_pmem`, and whether a lock is released by it. -/
def unlockPmem (h : PostHandle) (thread : Nat) : Bool × PostHandle :=
  let current := h.lockState
  let owner := lockedForWrite current && h.writeOwner == gettid thread
  let h := if owner then { h with writeOwner := 0 } else h
  let new := if owner then current &&& ~~~lockStateWrite else current
  if readCount new = 0 then (false, h) else (true, { h with lockState := new - 1 })

/-- The handle with one lock more, if the call takes one. -/
def lock (h : PostHandle) (thread : Nat) (usage : Usage) (outcome : PostOutcome) :
    Option PostHandle :=
  match h.kind with
  | .framebuffer | .pmem => h.lockPmem thread usage outcome.mapped
  | .hwmem => if outcome.hwmem then some { h with lockCnt := h.lockCnt + 1 } else none
  | .wrapper | .invalid => none

def unlock (h : PostHandle) (thread : Nat) : Bool × PostHandle :=
  match h.kind with
  | .framebuffer | .pmem => h.unlockPmem thread
  | .hwmem => (h.lockCnt != 0, { h with lockCnt := h.lockCnt - 1 })
  | .wrapper | .invalid => (false, h)

end PostHandle

inductive Client where
  | fbPost
  | other (thread : Nat)
deriving DecidableEq

/-- Where `fb_post` is; `copy` is the branch for a buffer that is not one of the framebuffer. -/
inductive PostPc where
  | idle
  | release (buffer : Nat)
  | lockPosted (buffer : Nat)
  | send (buffer : Nat)
  | copyLockFramebuffer (buffer : Nat)
  | copyLock (buffer : Nat)
  | copyUnlock (buffer : Nat)
  | copyUnlockFramebuffer
deriving DecidableEq

/-- The handles, the one that the framebuffer is mapped with, the thread that posts, and
`currentBuffer`. The last two fields are records: the locks that are taken and not yet released,
with what they are for, and whether a client has released one that it did not hold. -/
structure Poster where
  handle : Nat → PostHandle
  framebuffer : Nat
  thread : Nat
  currentBuffer : Option Nat
  pc : PostPc
  holders : Nat → List (Client × Bool)
  stolen : Bool

namespace Poster

def threadOf (s : Poster) : Client → Nat
  | .fbPost => s.thread
  | .other thread => thread

def lockBy (s : Poster) (client : Client) (buffer : Nat) (usage : Usage) (outcome : PostOutcome) :
    Poster :=
  match (s.handle buffer).lock (s.threadOf client) usage outcome with
  | none => s
  | some h =>
    { s with
      handle := Function.update s.handle buffer h
      holders := Function.update s.holders buffer ((client, usage.forWrite) :: s.holders buffer) }

def unlockBy (s : Poster) (client : Client) (buffer : Nat) : Poster :=
  let (released, h) := (s.handle buffer).unlock (s.threadOf client)
  let s := { s with handle := Function.update s.handle buffer h }
  if released then
    match (s.holders buffer).find? (·.1 = client) with
    | some hold =>
      { s with holders := Function.update s.holders buffer ((s.holders buffer).erase hold) }
    | none =>
      { s with
        holders := Function.update s.holders buffer (s.holders buffer).tail
        stolen := true }
  else s

end Poster

/-- `PRIV_USAGE_LOCKED_FOR_POST`, `GRALLOC_USAGE_SW_WRITE_RARELY` and
`GRALLOC_USAGE_SW_READ_RARELY`. -/
def lockedForPost : Usage := ⟨false, false, false, false, false, false, false, false⟩
def swWriteRarely : Usage := ⟨false, true, false, false, false, false, false, false⟩
def swReadRarely : Usage := ⟨true, false, false, false, false, false, false, false⟩

inductive PostAction where
  | post (buffer : Nat)
  | advance (outcome : PostOutcome)
  | lock (thread buffer : Nat) (usage : Usage) (outcome : PostOutcome)
  | unlock (thread buffer : Nat)

namespace Poster

/-- The buffer that is shown is released before the next one is locked. -/
def releaseCurrent (s : Poster) : Poster :=
  match s.currentBuffer with
  | some current => { s.unlockBy .fbPost current with currentBuffer := none }
  | none => s

/-- `fb_post` goes on by one call; what the calls return is not looked at. -/
def advance (s : Poster) (outcome : PostOutcome) : Option Poster :=
  match s.pc with
  | .idle => none
  | .release buffer =>
    let posted := (s.handle buffer).kind = .framebuffer
    some { s.releaseCurrent with
      pc := if posted then .lockPosted buffer else .copyLockFramebuffer buffer }
  | .lockPosted buffer =>
    some { s.lockBy .fbPost buffer lockedForPost outcome with pc := .send buffer }
  | .send buffer =>
    -- a frame that is not sent is only logged
    some { s with currentBuffer := some buffer, pc := .idle }
  | .copyLockFramebuffer buffer =>
    some { s.lockBy .fbPost s.framebuffer swWriteRarely outcome with pc := .copyLock buffer }
  | .copyLock buffer =>
    some { s.lockBy .fbPost buffer swReadRarely outcome with pc := .copyUnlock buffer }
  | .copyUnlock buffer =>
    some { s.unlockBy .fbPost buffer with pc := .copyUnlockFramebuffer }
  | .copyUnlockFramebuffer => some { s.unlockBy .fbPost s.framebuffer with pc := .idle }

/-- Another client unlocks only what it has locked. -/
def step (s : Poster) : PostAction → Option Poster
  | .post buffer =>
    if s.pc = .idle then
      if (s.handle buffer).kind = .invalid then some s else some { s with pc := .release buffer }
    else none
  | .advance outcome => s.advance outcome
  | .lock thread buffer usage outcome => some (s.lockBy (.other thread) buffer usage outcome)
  | .unlock thread buffer =>
    if ((s.holders buffer).find? (·.1 = .other thread)).isSome then
      some (s.unlockBy (.other thread) buffer)
    else none

end Poster

end Codinalte.Gralloc
