import Codinalte.Lib.Coalesce
import Mathlib.Data.List.Range
import Mathlib.Logic.Function.Basic

/-! The message queue of the sensor module: an array of events and a length. On the entries in use
its operations are those of a queue with one entry for each sensor. -/

namespace Codinalte.Sensors
open Codinalte.Coalesce

/-- The sensors that have a thread. -/
inductive SensorId where
  | accelerometer | magneticField | orientation | proximity
deriving DecidableEq

def SensorId.handle : SensorId → Int
  | .accelerometer => 0
  | .magneticField => 1
  | .orientation => 2
  | .proximity => 8

/-- `struct sensors_event_t`; `values` stands for the readings. -/
structure SensorsEvent (V : Type) where
  sensor : Int
  values : V
deriving DecidableEq

/-- The array has eight slots, and what lies behind it has the later indices. -/
structure MessageQueue (V : Type) where
  sensorData : Nat → SensorsEvent V
  length : Nat

def queueSlots : Nat := 8

namespace MessageQueue
variable {V : Type}

/-- Whether the event is a new entry comes first. -/
def addQueue (sensorType : Int) (data : SensorsEvent V) (q : MessageQueue V) :
    Bool × MessageQueue V :=
  match (List.range q.length).find? fun i => (q.sensorData i).sensor == sensorType with
  | some i => (false, { q with sensorData := Function.update q.sensorData i data })
  | none => (true,
    { sensorData := Function.update q.sensorData q.length data, length := q.length + 1 })

/-- What `m_poll` does once it has waited, whether there is an event or not. -/
def takeFirst (q : MessageQueue V) : SensorsEvent V × MessageQueue V :=
  (q.sensorData 0,
    { sensorData := fun i => if i < q.length - 1 then q.sensorData (i + 1) else q.sensorData i
      length := if q.length > 0 then q.length - 1 else q.length })

def reset (q : MessageQueue V) : MessageQueue V := { q with length := 0 }

/-- The entries in use. -/
def contents (q : MessageQueue V) : List (SensorsEvent V) := (List.range q.length).map q.sensorData

theorem contents_length (q : MessageQueue V) : q.contents.length = q.length := by
  rw [contents, List.length_map, List.length_range]

/-- Writing to the first of some indices that holds the key is `put` on what they hold. -/
theorem map_update_find (data : SensorsEvent V) (slots : Nat → SensorsEvent V) (indices : List Nat)
    (hnodup : indices.Nodup) {i : Nat}
    (hfind : indices.find? (fun i => (slots i).sensor == data.sensor) = some i) :
    indices.map (Function.update slots i data) =
      put SensorsEvent.sensor data (indices.map slots) := by
  induction indices with
  | nil => cases hfind
  | cons j indices ih =>
    rw [List.nodup_cons] at hnodup
    rw [List.map_cons, List.map_cons]
    unfold put
    by_cases hj : (slots j).sensor = data.sensor
    · have hij : j = i := by
        rw [List.find?_cons_of_pos (by simpa using hj)] at hfind
        exact Option.some.inj hfind
      subst hij
      rw [if_pos hj, Function.update_self]
      congr 1
      apply List.map_congr_left
      intro other hother
      apply Function.update_of_ne
      rintro rfl
      exact hnodup.1 hother
    · rw [List.find?_cons_of_neg (by simpa using hj)] at hfind
      have hij : j ≠ i := by
        rintro rfl
        exact hnodup.1 (List.mem_of_find?_eq_some hfind)
      rw [if_neg hj, Function.update_of_ne hij, ih hnodup.2 hfind]

theorem put_of_new {data : SensorsEvent V} {xs : List (SensorsEvent V)}
    (hnew : ∀ x ∈ xs, x.sensor ≠ data.sensor) :
    put SensorsEvent.sensor data xs = xs ++ [data] := by
  induction xs with
  | nil => rfl
  | cons x xs ih =>
    unfold put
    rw [if_neg (hnew x (List.mem_cons_self ..)), ih fun y hy => hnew y (List.mem_cons_of_mem _ hy)]
    rfl

theorem contents_add_queue (data : SensorsEvent V) (q : MessageQueue V) :
    (q.addQueue data.sensor data).2.contents = put SensorsEvent.sensor data q.contents := by
  unfold addQueue
  cases hfind : (List.range q.length).find? fun i => (q.sensorData i).sensor == data.sensor with
  | some i => exact map_update_find data q.sensorData _ List.nodup_range hfind
  | none =>
    rw [List.find?_eq_none] at hfind
    rw [put_of_new]
    · show (List.range (q.length + 1)).map (Function.update q.sensorData q.length data) = _
      rw [List.range_succ, List.map_append, List.map_singleton, Function.update_self]
      congr 1
      apply List.map_congr_left
      intro i hi
      exact Function.update_of_ne (List.mem_range.mp hi).ne _ _
    · intro x hx
      obtain ⟨i, hi, rfl⟩ := List.mem_map.mp hx
      simpa using hfind i hi

theorem contents_take_first (q : MessageQueue V) (hpos : 0 < q.length) :
    q.contents = q.takeFirst.1 :: q.takeFirst.2.contents := by
  obtain ⟨n, hn⟩ : ∃ n, q.length = n + 1 := ⟨q.length - 1, by omega⟩
  unfold contents takeFirst
  rw [if_pos hpos, hn, List.range_succ_eq_map, List.map_cons, List.map_map]
  congr 1
  apply List.map_congr_left
  intro i hi
  have hlt : i < n + 1 - 1 := List.mem_range.mp hi
  simp only [Function.comp, if_pos hlt]

end MessageQueue

end Codinalte.Sensors
