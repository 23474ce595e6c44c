import Codinalte.Lib.Machine

/-! The bindings of a component to the user: the calls that bind and unbind, the consumer of the
channel, and the skeleton contexts that the messages carry the address of. Each system call and each
access to a skeleton context is a step. -/

namespace Codinalte.CmProxy.UserBindings

def MAX_COMMUNICATION_FIFO_SIZE : Nat := 256

inductive CmError where
  | ok
  | invalidParameter
  | noMoreMemory
  | bindingComponentNotFound
  | mpcNotResponding
  | other
deriving DecidableEq

abbrev Address := Nat

/-- `t_nmf_dsp_arm_this`; a field that was not yet written is `none`. `owner` is the call that
allocated it. -/
structure Skeleton (C J : Type) where
  owner : Nat
  mpc2hostId : Option Nat
  clientContext : Option C
  jumpMethods : Option J
deriving DecidableEq

structure BindArguments (C : Type) where
  channel : Bool
  client : Nat
  requiredItfClientName : Option String
  clientContext : C
  fifosize : Nat
deriving DecidableEq

/-- What a call of `CM_BindComponentToUserR` does next. -/
inductive BindStage where
  | requiredFiles
  | alloc
  | getSkel (skelthis : Address)
  | openComponents (skelthis : Address)
  | bindToCore (skelthis : Address)
  | storeId (skelthis : Address) (mpc2hostId : Nat)
  | storeContext (skelthis : Address)
  | closeComponents
  | free (skelthis : Address) (error : CmError)
  /-- returned an error before there was a skeleton context -/
  | refused (error : CmError)
  | failed (error : CmError)
  | bound
deriving DecidableEq

/-- `jumpMethods` is the table that was found for the type of the required interface. -/
structure BindCall (C J : Type) where
  arguments : BindArguments C
  jumpMethods : Option J
  stage : BindStage
deriving DecidableEq

structure UnbindArguments where
  client : Nat
  requiredItfClientName : Option String
  clientContext : Bool
deriving DecidableEq

/-- What a call of `CM_UnbindComponentToUserR` does next; `binding` is the call that had bound. -/
inductive UnbindStage where
  | unbindFromCore
  | readContext (binding : Nat) (skelthis : Address)
  | free (binding : Nat) (skelthis : Address)
  | returned (error : CmError)
  | unbound (binding : Nat)
deriving DecidableEq

structure UnbindCall where
  arguments : UnbindArguments
  stage : UnbindStage
deriving DecidableEq

/-- An interface message, with the call that had bound, or one of a service. -/
inductive Message where
  | itf (binding : Nat) (THIS : Address) (methodIndex : Nat)
  | service
deriving DecidableEq

/-- What the consumer does next: get a message, read the context of the message it got, or execute
it. -/
inductive Consumer where
  | getMessage
  | readContext (message : Message)
  | executeMessage (message : Message)
deriving DecidableEq

inductive Fault where
  | freed
  | unwritten
deriving DecidableEq

inductive Freer where
  | bind
  | unbind (u : Nat)
deriving DecidableEq

/-- `registered` is what the driver passes on in the messages of a binding. The contexts that
`CM_GetMessage` returned, the tables that messages were executed with, and the frees are recorded
with the binding; `faults` are the accesses to what was freed or not yet written. -/
structure State (C J : Type) where
  heap : Address → Option (Skeleton C J)
  binds : Nat → Option (BindCall C J)
  unbinds : Nat → Option UnbindCall
  registered : Nat → Option Address
  consumer : Consumer
  returned : List (Nat × Option C)
  executed : List (Nat × Option J)
  freed : List (Nat × Freer)
  faults : List Fault

inductive BindAction (J : Type) where
  | getRequiredComponentFiles (error : CmError)
  | alloc (skelthis : Option Address)
  | getItfSkelInitFct (jumpMethods : Except CmError J)
  | openComponents (error : CmError)
  | bindComponentToCMCore (answer : Except CmError Nat)
  | storeId
  | storeContext
  | closeComponents
  | free

inductive UnbindAction where
  | unbindComponentToCMCore (error : CmError) (binding : Nat)
  | readContext
  | free

/-- `getMessage` has the binding and the method of an interface message. -/
inductive ConsumerAction where
  | getMessage (itf : Option (Nat × Nat))
  | readContext
  | executeMessage

inductive Action (C J : Type) where
  | startBind (b : Nat) (arguments : BindArguments C)
  | startUnbind (u : Nat) (arguments : UnbindArguments)
  | bind (b : Nat) (action : BindAction J)
  | unbind (u : Nat) (action : UnbindAction)
  | consume (action : ConsumerAction)

variable {C J : Type}

namespace State

def init : State C J where
  heap := fun _ => none
  binds := fun _ => none
  unbinds := fun _ => none
  registered := fun _ => none
  consumer := .getMessage
  returned := []
  executed := []
  freed := []
  faults := []

def fault (s : State C J) (f : Fault) : State C J := { s with faults := s.faults ++ [f] }

/-- A field of a skeleton context is read. -/
def read {α : Type} (s : State C J) (p : Address) (field : Skeleton C J → Option α) :
    Option α × State C J :=
  match s.heap p with
  | none => (none, s.fault .freed)
  | some sk =>
    match field sk with
    | none => (none, s.fault .unwritten)
    | some x => (some x, s)

def write (s : State C J) (p : Address) (f : Skeleton C J → Skeleton C J) : State C J :=
  match s.heap p with
  | none => s.fault .freed
  | some sk => { s with heap := Function.update s.heap p (some (f sk)) }

/-- `OSAL_Free(skelthis)` -/
def free (s : State C J) (p : Address) (freer : Freer) : State C J :=
  match s.heap p with
  | none => s.fault .freed
  | some sk =>
    { s with heap := Function.update s.heap p none, freed := s.freed ++ [(sk.owner, freer)] }

def setBind (s : State C J) (b : Nat) (call : BindCall C J) : State C J :=
  { s with binds := Function.update s.binds b (some call) }

def setUnbind (s : State C J) (u : Nat) (call : UnbindCall) : State C J :=
  { s with unbinds := Function.update s.unbinds u (some call) }

def register (s : State C J) (b : Nat) (p : Option Address) : State C J :=
  { s with registered := Function.update s.registered b p }

end State

def BindArguments.sane (a : BindArguments C) : Bool :=
  a.client != 0 && a.requiredItfClientName.isSome && a.fifosize != 0 &&
    decide (a.fifosize ≤ MAX_COMMUNICATION_FIFO_SIZE) && a.channel

def UnbindArguments.sane (a : UnbindArguments) : Bool :=
  a.client != 0 && a.requiredItfClientName.isSome

def BindCall.go (call : BindCall C J) (stage : BindStage) : BindCall C J :=
  { call with stage := stage }

def UnbindCall.go (call : UnbindCall) (stage : UnbindStage) : UnbindCall :=
  { call with stage := stage }

/-- The next step of `CM_BindComponentToUserR`. -/
def bindStep (s : State C J) (b : Nat) (call : BindCall C J) :
    BindStage → BindAction J → Option (State C J)
  | .requiredFiles, .getRequiredComponentFiles error =>
    some (s.setBind b (call.go (if error = .ok then .alloc else .refused error)))
  | .alloc, .alloc none => some (s.setBind b (call.go (.refused .noMoreMemory)))
  | .alloc, .alloc (some p) =>
    if s.heap p = none ∧ p ≠ 0 then
      some ({ s with heap := Function.update s.heap p (some ⟨b, none, none, none⟩) }.setBind b
        (call.go (.getSkel p)))
    else none
  | .getSkel p, .getItfSkelInitFct (.error error) => some (s.setBind b (call.go (.free p error)))
  | .getSkel p, .getItfSkelInitFct (.ok table) =>
    some ((s.write p fun sk => { sk with jumpMethods := some table }).setBind b
      ⟨call.arguments, some table, .openComponents p⟩)
  | .openComponents p, .openComponents error =>
    some (s.setBind b (call.go
      (if error = .ok then .bindToCore p else .free p .bindingComponentNotFound)))
  | .bindToCore p, .bindComponentToCMCore (.error error) =>
    some (s.setBind b (call.go (.free p error)))
  | .bindToCore p, .bindComponentToCMCore (.ok mpc2hostId) =>
    some ((s.register b (some p)).setBind b (call.go (.storeId p mpc2hostId)))
  | .storeId p mpc2hostId, .storeId =>
    some ((s.write p fun sk => { sk with mpc2hostId := some mpc2hostId }).setBind b
      (call.go (.storeContext p)))
  | .storeContext p, .storeContext =>
    some ((s.write p fun sk =>
      { sk with clientContext := some call.arguments.clientContext }).setBind b
        (call.go .closeComponents))
  | .closeComponents, .closeComponents => some (s.setBind b (call.go .bound))
  | .free p error, .free => some ((s.free p .bind).setBind b (call.go (.failed error)))
  | _, _ => none

/-- The next step of `CM_UnbindComponentToUserR`. The driver undoes the binding of the required
interface where it answers with either of the two errors. -/
def unbindStep (s : State C J) (u : Nat) (call : UnbindCall) :
    UnbindStage → UnbindAction → Option (State C J)
  | .unbindFromCore, .unbindComponentToCMCore error b =>
    if error = .ok ∨ error = .mpcNotResponding then
      match s.registered b, s.binds b with
      | some p, some bind =>
        if bind.arguments.client = call.arguments.client ∧
            bind.arguments.requiredItfClientName = call.arguments.requiredItfClientName then
          some ((s.register b none).setUnbind u
            (call.go (if call.arguments.clientContext then .readContext b p else .free b p)))
        else none
      | _, _ => none
    else some (s.setUnbind u (call.go (.returned error)))
  | .readContext b p, .readContext =>
    some ((s.read p Skeleton.clientContext).2.setUnbind u (call.go (.free b p)))
  | .free b p, .free => some ((s.free p (.unbind u)).setUnbind u (call.go (.unbound b)))
  | _, _ => none

/-- The next step of `CM_GetMessage` and `CM_ExecuteMessage`. -/
def consumerStep (s : State C J) : Consumer → ConsumerAction → Option (State C J)
  | .getMessage, .getMessage none => some { s with consumer := .executeMessage .service }
  | .getMessage, .getMessage (some (b, methodIndex)) =>
    (s.registered b).map fun p => { s with consumer := .readContext (.itf b p methodIndex) }
  | .readContext (.itf b p methodIndex), .readContext =>
    let r := s.read p Skeleton.clientContext
    some { r.2 with
      consumer := .executeMessage (.itf b p methodIndex), returned := s.returned ++ [(b, r.1)] }
  | .executeMessage (.itf b p _), .executeMessage =>
    let r := s.read p Skeleton.jumpMethods
    some { r.2 with consumer := .getMessage, executed := s.executed ++ [(b, r.1)] }
  | .executeMessage .service, .executeMessage => some { s with consumer := .getMessage }
  | _, _ => none

/-- Calls have different numbers. -/
def step (s : State C J) : Action C J → Option (State C J)
  | .startBind b arguments =>
    if s.binds b = none then
      some (s.setBind b ⟨arguments, none,
        if arguments.sane then .requiredFiles else .refused .invalidParameter⟩)
    else none
  | .startUnbind u arguments =>
    if s.unbinds u = none then
      some (s.setUnbind u ⟨arguments,
        if arguments.sane then .unbindFromCore else .returned .invalidParameter⟩)
    else none
  | .bind b action => (s.binds b).bind fun call => bindStep s b call call.stage action
  | .unbind u action => (s.unbinds u).bind fun call => unbindStep s u call call.stage action
  | .consume action => consumerStep s s.consumer action

end Codinalte.CmProxy.UserBindings
