import Mathlib.Data.Option.Basic
import Mathlib.Logic.Function.Basic

/-! The interaction hint of the power module: threads that open the boostpulse file under the lock
of the module, write to it without the lock, and close it where the write has failed. Other code of
the process opens and closes descriptors all the while, `sysfs_read` and `sysfs_write` among it. -/

namespace Codinalte.Power

inductive PowerHint where
  | vsync
  | interaction
  | other
deriving DecidableEq

/-- What the two `strncmp` find in `governor`. -/
inductive Governor where
  | ondemand
  | interactive
  | other
deriving DecidableEq

/-- A governor with a boostpulse file. -/
def Governor.hasBoostpulse : Governor → Bool
  | .ondemand => true
  | .interactive => true
  | .other => false

/-- Who has opened a descriptor. -/
inductive Owner where
  | boostpulse
  | others
deriving DecidableEq

inductive FdOp where
  | opened
  | wrote (buf : String)
  | closed
deriving DecidableEq

/-- A call on a descriptor, and whose it was at that time. -/
structure FdUse where
  op : FdOp
  fd : Int
  owner : Option Owner
deriving DecidableEq

/-- Where a thread stands in `cm_power_hint`; from `testing` to `unlocking` and from `closing` to
`leaving` it has the lock. -/
inductive HintPc where
  | idle
  | locking
  | testing
  | readGovernor
  | opening (governor : Governor)
  | unlocking
  | returning
  | reading
  | writing (fd : Int)
  | relocking
  | closing
  | clearing
  | leaving
deriving DecidableEq

def HintPc.holdsLock : HintPc → Bool
  | .testing | .readGovernor | .opening _ | .unlocking | .closing | .clearing | .leaving => true
  | .idle | .locking | .returning | .reading | .writing _ | .relocking => false

/-- What the outside answers to the step of a thread. -/
inductive Outcome where
  | go
  | governor (result : Option Governor)
  | descriptor (result : Option Int)
  | written (ok : Bool)

inductive HintAction (T : Type) where
  | hint (thread : T) (hint : PowerHint) (data : Int)
  | step (thread : T) (outcome : Outcome)
  | otherOpen (fd : Int)
  | otherClose (fd : Int)

/-- `struct cm_power_module` with the descriptors of the process and the threads. -/
structure CmPowerModule (T : Type) where
  lock : Option T
  boostpulse_fd : Int
  boostpulse_warned : Bool
  table : Int → Option Owner
  pc : T → HintPc
  data : T → Int
  uses : List FdUse

namespace CmPowerModule
variable {T : Type}

/-- The other code has opened the descriptors of `opened` before. -/
def start (opened : List Int) : CmPowerModule T where
  lock := none
  boostpulse_fd := -1
  boostpulse_warned := false
  table fd := if 0 ≤ fd ∧ fd ∈ opened then some .others else none
  pc _ := .idle
  data _ := 0
  uses := []

/-- `data` is NULL where it is 0. -/
def duration (data : Int) : Int := if data ≠ 0 then data else 1

variable [DecidableEq T]

def goTo (s : CmPowerModule T) (i : T) (pc : HintPc) : CmPowerModule T :=
  { s with pc := Function.update s.pc i pc }

def acquire (s : CmPowerModule T) (i : T) (pc : HintPc) : Option (CmPowerModule T) :=
  if s.lock = none then some { s with lock := some i, pc := Function.update s.pc i pc } else none

def release (s : CmPowerModule T) (i : T) (pc : HintPc) : CmPowerModule T :=
  { s with lock := none, pc := Function.update s.pc i pc }

omit [DecidableEq T] in
/-- `open` gives a number that is not in use, or fails; for other governors it is not called. -/
def openBoostpulse (s : CmPowerModule T) (governor : Governor) :
    Option Int → Option (CmPowerModule T)
  | none =>
    some { s with
      boostpulse_fd := if governor.hasBoostpulse then -1 else s.boostpulse_fd
      boostpulse_warned := true }
  | some fd =>
    if governor.hasBoostpulse ∧ 0 ≤ fd ∧ s.table fd = none then
      some { s with
        boostpulse_fd := fd
        table := Function.update s.table fd (some .boostpulse)
        uses := s.uses ++ [⟨.opened, fd, none⟩] }
    else none

/-- A write on a number that is not open fails. -/
def writeBoostpulse (s : CmPowerModule T) (i : T) (fd : Int) (ok : Bool) :
    Option (CmPowerModule T) :=
  if ok ∧ s.table fd = none then none
  else some
    { s with
      uses := s.uses ++ [⟨.wrote (toString (duration (s.data i))), fd, s.table fd⟩]
      pc := Function.update s.pc i (if ok then .idle else .relocking) }

def closeBoostpulse (s : CmPowerModule T) (i : T) : CmPowerModule T :=
  { s with
    table := Function.update s.table s.boostpulse_fd none
    uses := s.uses ++ [⟨.closed, s.boostpulse_fd, s.table s.boostpulse_fd⟩]
    pc := Function.update s.pc i .clearing }

def clearBoostpulse (s : CmPowerModule T) (i : T) : CmPowerModule T :=
  { s with
    boostpulse_fd := -1
    boostpulse_warned := false
    pc := Function.update s.pc i .leaving }

/-- The next step of a thread; `none` where it waits, or the outcome does not fit the step. -/
def stepThread (s : CmPowerModule T) (i : T) (outcome : Outcome) : Option (CmPowerModule T) :=
  match s.pc i, outcome with
  | .locking, .go => s.acquire i .testing
  | .testing, .go => some (s.goTo i (if s.boostpulse_fd < 0 then .readGovernor else .unlocking))
  | .readGovernor, .governor none => some ({ s with boostpulse_warned := true }.goTo i .unlocking)
  | .readGovernor, .governor (some governor) => some (s.goTo i (.opening governor))
  | .opening governor, .descriptor result =>
    (s.openBoostpulse governor result).map fun t => t.goTo i .unlocking
  | .unlocking, .go => some (s.release i .returning)
  | .returning, .go => some (s.goTo i (if 0 ≤ s.boostpulse_fd then .reading else .idle))
  | .reading, .go => some (s.goTo i (.writing s.boostpulse_fd))
  | .writing fd, .written ok => s.writeBoostpulse i fd ok
  | .relocking, .go => s.acquire i .closing
  | .closing, .go => some (s.closeBoostpulse i)
  | .clearing, .go => some (s.clearBoostpulse i)
  | .leaving, .go => some (s.release i .idle)
  | _, _ => none

/-- `cm_power_hint` does something for an interaction only. -/
def callHint (s : CmPowerModule T) (i : T) (hint : PowerHint) (data : Int) :
    Option (CmPowerModule T) :=
  if s.pc i = .idle then
    match hint with
    | .interaction => some
      { s with pc := Function.update s.pc i .locking, data := Function.update s.data i data }
    | .vsync => some s
    | .other => some s
  else none

def step (s : CmPowerModule T) : HintAction T → Option (CmPowerModule T)
  | .hint i hint data => s.callHint i hint data
  | .step i outcome => s.stepThread i outcome
  | .otherOpen fd =>
    if 0 ≤ fd ∧ s.table fd = none then
      some { s with table := Function.update s.table fd (some .others) }
    else none
  | .otherClose fd =>
    if s.table fd = some .others then some { s with table := Function.update s.table fd none }
    else none

end CmPowerModule
end Codinalte.Power
