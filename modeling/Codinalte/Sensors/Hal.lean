import Codinalte.Sensors.MessageQueue

/-! The sensor module: `m_poll_activate` calls one after the other, the threads that poll the
accelerometer and the magnetometer, one reader in `m_poll`, and the other threads that queue events.
What a thread does with `sensordata_mutex` held is one step. -/

namespace Codinalte.Sensors
open Codinalte.Machine Codinalte.Coalesce

/-- The physical sensors with a counter, an exit flag and a polling thread of their own. -/
inductive Polled where
  | acc | mag
deriving DecidableEq

def Polled.sensor : Polled → SensorId
  | .acc => .accelerometer
  | .mag => .magneticField

/-- The threads that only queue events here. -/
inductive OtherThread where
  | orientation | proximity
deriving DecidableEq

def OtherThread.sensor : OtherThread → SensorId
  | .orientation => .orientation
  | .proximity => .proximity

/-- Where a thread stands in `acc_getdata` or `mag_getdata`. -/
inductive ThreadPc (V : Type) where
  | absent
  | testExit
  | asleep
  | queueing (values : V)
  | exited

def ThreadPc.live {V : Type} : ThreadPc V → Bool
  | .absent | .exited => false
  | _ => true

inductive ReaderPc where
  | idle | waiting | woken
deriving DecidableEq

/-- Where `m_poll_activate` stands; `rest` are the sensors it still has to activate. -/
inductive ActivatePc where
  | idle
  | next (enable : Bool) (rest : List Polled)
  | flagCleared (p : Polled) (rest : List Polled)
  | threadCreated (p : Polled) (created : Bool) (rest : List Polled)
  | stopping (p : Polled) (rest : List Polled)
  | proximity (enable : Bool)
  | countOpen
deriving DecidableEq

/-- `told`, `queuedBy` and `history` are records: the threads that were there when their exit flag
was set, how many events each has queued, and the calls on the queue. -/
structure Hal (V : Type) where
  queue : MessageQueue V
  reader : ReaderPc
  activator : ActivatePc
  count : Polled → Nat
  countProx : Nat
  exitFlag : Polled → Bool
  thread : Polled → Nat → ThreadPc V
  created : Polled → Nat
  told : Polled → Nat → Bool
  queuedBy : Polled → Nat → Nat
  history : List (QueueCall (SensorsEvent V))

/-- What the slots hold at first is of no matter. -/
def Hal.start {V : Type} (slot : SensorsEvent V) : Hal V where
  queue := { sensorData := fun _ => slot, length := 0 }
  reader := .idle
  activator := .idle
  count := fun _ => 0
  countProx := 0
  exitFlag := fun _ => false
  thread := fun _ _ => .absent
  created := fun _ => 0
  told := fun _ _ => false
  queuedBy := fun _ _ => 0
  history := []

/-- `activate` begins a call, and `activator` takes its next step, where a thread may be created.
The read of a thread gives values or fails. -/
inductive HalAction (V : Type) where
  | activate (handle : Int) (enabled : Bool)
  | activator (created : Bool)
  | thread (p : Polled) (i : Nat) (read : Option V)
  | other (t : OtherThread) (values : V)
  | poll
  | spuriousWakeUp
  | reader

def countUp (count : Nat) : Nat := (count + 1) % 4294967296

namespace Hal
variable {V : Type}

def addQueue (s : Hal V) (event : SensorsEvent V) : Hal V :=
  let (isNew, queue) := s.queue.addQueue event.sensor event
  { s with
    queue := queue
    -- the signal wakes the reader if it waits
    reader := if isNew ∧ queue.length = 1 ∧ s.reader = .waiting then .woken else s.reader
    history := s.history ++ [.put event] }

/-- The rest of `m_poll` after the wait, with or without an event in the queue. -/
def takeEvent (s : Hal V) : Hal V :=
  { s with
    queue := s.queue.takeFirst.2
    reader := .idle
    history := s.history ++ [.take s.queue.takeFirst.1] }

def poll (s : Hal V) : Hal V :=
  if s.queue.length = 0 then { s with reader := .waiting } else s.takeEvent

def setThread (s : Hal V) (p : Polled) (i : Nat) (pc : ThreadPc V) : Hal V :=
  { s with thread := Function.update s.thread p (Function.update (s.thread p) i pc) }

def setCount (s : Hal V) (p : Polled) (value : Nat) (pc : ActivatePc) : Hal V :=
  { s with count := Function.update s.count p value, activator := pc }

/-- The switch over the handle. -/
def activateStart (handle : Int) (enabled : Bool) : ActivatePc :=
  if handle = SensorId.orientation.handle then .next enabled [.acc, .mag]
  else if handle = SensorId.accelerometer.handle then .next enabled [.acc]
  else if handle = SensorId.magneticField.handle then .next enabled [.mag]
  else if handle = SensorId.proximity.handle then .proximity enabled
  else .countOpen

/-- The first steps of `activate_acc` or `activate_mag`. -/
def activateNext (s : Hal V) (enable : Bool) (p : Polled) (rest : List Polled) : Hal V :=
  if enable then
    if s.count p = 0 then
      { s with exitFlag := Function.update s.exitFlag p false, activator := .flagCleared p rest }
    else s.setCount p (countUp (s.count p)) (.next enable rest)
  else if s.count p = 0 then { s with activator := .next enable rest }
  else s.setCount p (s.count p - 1) (if s.count p = 1 then .stopping p rest else .next enable rest)

/-- `pthread_create`, which fails without a thread. -/
def createThread (s : Hal V) (p : Polled) (created : Bool) (rest : List Polled) : Hal V :=
  if created then
    { s.setThread p (s.created p) .testExit with
      created := Function.update s.created p (s.created p + 1)
      activator := .threadCreated p true rest }
  else { s with activator := .threadCreated p false rest }

def setExit (s : Hal V) (p : Polled) (rest : List Polled) : Hal V :=
  { s with
    exitFlag := Function.update s.exitFlag p true
    told := Function.update s.told p fun i => s.told p i || (s.thread p i).live
    activator := .next false rest }

def activateProx (s : Hal V) (enable : Bool) : Hal V :=
  { s with
    countProx := if enable then countUp s.countProx else s.countProx - 1
    activator := .countOpen }

/-- No status of the activations is `-ENODEV`, so the open sensors are always counted. -/
def countOpenSensors (s : Hal V) : Hal V :=
  if (s.count .acc + s.count .mag + s.countProx) % 4294967296 = 0 then
    { s with queue := s.queue.reset, activator := .idle, history := s.history ++ [.reset] }
  else { s with activator := .idle }

def stepActivator (s : Hal V) (created : Bool) : Option (Hal V) :=
  match s.activator with
  | .idle => none
  | .next enable (p :: rest) => some (s.activateNext enable p rest)
  | .next _ [] => some { s with activator := .countOpen }
  | .flagCleared p rest => some (s.createThread p created rest)
  -- where the thread was not created activate_orientation goes no further
  | .threadCreated p ok rest =>
    some (s.setCount p (countUp (s.count p)) (.next true (if ok then rest else [])))
  | .stopping p rest => some (s.setExit p rest)
  | .proximity enable => some (s.activateProx enable)
  | .countOpen => some s.countOpenSensors

def stepThread (s : Hal V) (p : Polled) (i : Nat) (read : Option V) : Option (Hal V) :=
  match s.thread p i with
  | .absent | .exited => none
  | .testExit => some (s.setThread p i (if s.exitFlag p then .exited else .asleep))
  | .asleep =>
    match read with
    | none => some (s.setThread p i .exited)
    | some values => some (s.setThread p i (.queueing values))
  | .queueing values => some
    { (s.addQueue ⟨p.sensor.handle, values⟩).setThread p i .testExit with
      queuedBy := Function.update s.queuedBy p
        (Function.update (s.queuedBy p) i (s.queuedBy p i + 1)) }

def step (s : Hal V) : HalAction V → Option (Hal V)
  | .activate handle enabled =>
    if s.activator = .idle then some { s with activator := activateStart handle enabled } else none
  | .activator created => s.stepActivator created
  | .thread p i read => s.stepThread p i read
  | .other t values => some (s.addQueue ⟨t.sensor.handle, values⟩)
  | .poll => if s.reader = .idle then some s.poll else none
  | .spuriousWakeUp => if s.reader = .waiting then some { s with reader := .woken } else none
  -- no loop: after the wait the length is not looked at again
  | .reader => if s.reader = .woken then some s.takeEvent else none

end Hal

end Codinalte.Sensors
