import Codinalte.Sensors.Hal
import Mathlib.Data.List.Perm.Subperm
import Mathlib.Tactic.SplitIfs

/-! What `m_poll` returns against what the sensor threads queue, over every run of the sensor
module in which the reader never goes on with an empty queue. -/

namespace Codinalte.Sensors
open Codinalte.Machine Codinalte.Coalesce

namespace Hal
variable {V : Type}

/-- The reader takes the mutex back from its wait only when there is an event. -/
def wakesToEvent (s : Hal V) : HalAction V → Bool
  | .reader => s.reader != .woken || decide (0 < s.queue.length)
  | _ => true

/-- What a step does to the queue and its record. -/
inductive QueueStep (s t : Hal V) : Prop where
  | keep (queue : t.queue = s.queue) (history : t.history = s.history)
  | add (sensor : SensorId) (values : V)
      (queue : t.queue = (s.addQueue ⟨sensor.handle, values⟩).queue)
      (history : t.history = s.history ++ [.put ⟨sensor.handle, values⟩])
  | take (pos : 0 < s.queue.length) (queue : t.queue = s.takeEvent.queue)
      (history : t.history = s.history ++ [.take s.queue.takeFirst.1])
  | reset (queue : t.queue = s.queue.reset) (history : t.history = s.history ++ [.reset])

variable {s t : Hal V}

theorem activator_queue_step {created : Bool} (h : s.stepActivator created = some t) :
    QueueStep s t := by
  unfold stepActivator at h
  split at h
  · cases h
  · cases h
    unfold activateNext setCount
    split_ifs <;> exact .keep rfl rfl
  · cases h
    exact .keep rfl rfl
  · cases h
    unfold createThread
    split_ifs <;> exact .keep rfl rfl
  · cases h
    exact .keep rfl rfl
  · cases h
    exact .keep rfl rfl
  · cases h
    exact .keep rfl rfl
  · cases h
    unfold countOpenSensors
    split_ifs
    · exact .reset rfl rfl
    · exact .keep rfl rfl

theorem thread_queue_step {p : Polled} {i : Nat} {read : Option V}
    (h : s.stepThread p i read = some t) : QueueStep s t := by
  unfold stepThread at h
  split at h
  · cases h
  · cases h
  · cases h
    exact .keep rfl rfl
  · split at h <;> cases h <;> exact .keep rfl rfl
  next values hvalues =>
    cases h
    exact .add p.sensor values rfl rfl

theorem queue_step {a : HalAction V} (hok : s.wakesToEvent a = true) (h : s.step a = some t) :
    QueueStep s t := by
  cases a with
  | activate handle enabled =>
    obtain ⟨-, heq⟩ := Option.ite_none_right_eq_some.mp h
    cases heq
    exact .keep rfl rfl
  | activator created => exact activator_queue_step h
  | thread p i read => exact thread_queue_step h
  | other thread values =>
    cases h
    exact .add thread.sensor values rfl rfl
  | poll =>
    obtain ⟨-, heq⟩ := Option.ite_none_right_eq_some.mp h
    cases heq
    unfold poll
    split_ifs with hlength
    · exact .keep rfl rfl
    · exact .take (Nat.pos_of_ne_zero hlength) rfl rfl
  | spuriousWakeUp =>
    obtain ⟨-, heq⟩ := Option.ite_none_right_eq_some.mp h
    cases heq
    exact .keep rfl rfl
  | reader =>
    obtain ⟨hwoken, heq⟩ := Option.ite_none_right_eq_some.mp h
    cases heq
    simp only [wakesToEvent, hwoken, bne_self_eq_false, Bool.false_or, decide_eq_true_eq] at hok
    exact .take hok rfl rfl

end Hal

variable {V : Type} [DecidableEq V]

/-- The queue is what its calls make of one entry for each sensor, and every entry is of a sensor
that has a thread. -/
structure QueueInv (s : Hal V) : Prop where
  calls : run (step SensorsEvent.sensor) [] s.history = some s.queue.contents
  sensors : ∀ event ∈ s.queue.contents, ∃ sensor : SensorId, event.sensor = sensor.handle

theorem queue_inv_start (slot : SensorsEvent V) : QueueInv (Hal.start slot) :=
  ⟨rfl, fun _ hevent => by cases hevent⟩

theorem queue_inv_step {s t : Hal V} (hinv : QueueInv s) (h : Hal.QueueStep s t) :
    QueueInv t := by
  cases h with
  | keep hqueue hhistory =>
    refine ⟨?_, ?_⟩
    · rw [hqueue, hhistory]
      exact hinv.calls
    · rw [hqueue]
      exact hinv.sensors
  | add sensor values hqueue hhistory =>
    have hcontents : t.queue.contents =
        put SensorsEvent.sensor ⟨sensor.handle, values⟩ s.queue.contents := by
      rw [hqueue]
      exact MessageQueue.contents_add_queue ⟨sensor.handle, values⟩ s.queue
    refine ⟨?_, ?_⟩
    · rw [hhistory, hcontents]
      exact run_snoc hinv.calls rfl
    · intro event hevent
      rw [hcontents] at hevent
      rcases mem_put (run_nodup hinv.calls) hevent with rfl | ⟨hmem, -⟩
      · exact ⟨sensor, rfl⟩
      · exact hinv.sensors event hmem
  | take hpos hqueue hhistory =>
    have hcontents : s.queue.contents = s.queue.takeFirst.1 :: t.queue.contents := by
      rw [hqueue]
      exact MessageQueue.contents_take_first s.queue hpos
    refine ⟨?_, ?_⟩
    · rw [hhistory]
      refine run_snoc hinv.calls ?_
      rw [hcontents]
      exact if_pos rfl
    · intro event hevent
      apply hinv.sensors event
      rw [hcontents]
      exact List.mem_cons_of_mem _ hevent
  | reset hqueue hhistory =>
    refine ⟨?_, ?_⟩
    · rw [hhistory, hqueue]
      exact run_snoc hinv.calls (step_reset _)
    · rw [hqueue]
      intro event hevent
      cases hevent

theorem queue_inv_run {slot : SensorsEvent V} {as : List (HalAction V)} {s : Hal V}
    (hrun : run Hal.step (.start slot) as = some s)
    (hok : Meets Hal.step (fun s a => s.wakesToEvent a = true) (.start slot) as) : QueueInv s := by
  refine run_induction_of_meets ?_ (queue_inv_start slot) hok hrun
  intro s a t hinv hok hstep
  exact queue_inv_step hinv (Hal.queue_step hok hstep)

/-- The four sensors leave half of the slots free. -/
theorem queue_length_le {s : Hal V} (hinv : QueueInv s) : s.queue.length ≤ queueSlots := by
  have hsub : s.queue.contents.map SensorsEvent.sensor ⊆ [0, 1, 2, 8] := by
    intro handle hhandle
    obtain ⟨event, hevent, rfl⟩ := List.mem_map.mp hhandle
    obtain ⟨sensor, hsensor⟩ := hinv.sensors event hevent
    rw [hsensor]
    cases sensor with
    | accelerometer | magneticField | orientation | proximity => decide
  have hle := (List.subperm_of_subset (run_nodup hinv.calls) hsub).length_le
  rw [List.length_map, MessageQueue.contents_length] at hle
  exact hle.trans (by decide)

theorem take_of_run {before after : List (QueueCall (SensorsEvent V))} {event : SensorsEvent V}
    {xs : List (SensorsEvent V)}
    (h : run (step SensorsEvent.sensor) [] (before ++ .take event :: after) = some xs) :
    ∃ rest, run (step SensorsEvent.sensor) [] before = some (event :: rest) := by
  rw [run_append] at h
  obtain ⟨queued, hqueued, hrest⟩ := Option.bind_eq_some_iff.mp h
  obtain ⟨rest, hstep, -⟩ := run_cons_eq_some.mp hrest
  cases queued with
  | nil => cases hstep
  | cons x queued =>
    obtain ⟨rfl, -⟩ := Option.ite_none_right_eq_some.mp hstep
    exact ⟨queued, hqueued⟩

/-- In every run in which no wake-up finds the queue empty, the queue holds one entry for each of
some sensors and fits its slots, what is taken is at its front, each event is taken at most as often
as it was queued, and what is left is the newest of its sensor. -/
theorem sensor_events_delivered (slot : SensorsEvent V) (as : List (HalAction V)) (s : Hal V)
    (hrun : run Hal.step (.start slot) as = some s)
    (hok : Meets Hal.step (fun s a => s.wakesToEvent a = true) (.start slot) as) :
    run (step SensorsEvent.sensor) [] s.history = some s.queue.contents ∧
      (s.queue.contents.map SensorsEvent.sensor).Nodup ∧ s.queue.length ≤ queueSlots ∧
      (∀ before event after, s.history = before ++ .take event :: after →
        ∃ rest, run (step SensorsEvent.sensor) [] before = some (event :: rest)) ∧
      (∀ event, s.queue.contents.count event + s.history.count (.take event) ≤
        s.history.count (.put event)) ∧
      ∀ event ∈ s.queue.contents,
        newest SensorsEvent.sensor event.sensor s.history = some event := by
  have hinv := queue_inv_run hrun hok
  refine ⟨hinv.calls, run_nodup hinv.calls, queue_length_le hinv, ?_, run_count hinv.calls, ?_⟩
  · intro before event after hhistory
    have hcalls := hinv.calls
    rw [hhistory] at hcalls
    exact take_of_run hcalls
  · intro event hevent
    exact run_newest hinv.calls hevent

/-- The accelerometer is enabled, its thread queues two events, and the reader waits before the
first and takes the second. -/
def samplePoll : List (HalAction Nat) :=
  [.poll, .activate 0 true, .activator true, .activator true, .activator true, .activator true,
    .activator true, .thread .acc 0 none, .thread .acc 0 (some 7), .thread .acc 0 none,
    .thread .acc 0 none, .thread .acc 0 (some 9), .thread .acc 0 none, .other .proximity 5, .reader]

theorem sensor_events_sample : ∃ s, run Hal.step (.start ⟨0, 0⟩) samplePoll = some s ∧
    s.history = [.put ⟨0, 7⟩, .put ⟨0, 9⟩, .put ⟨8, 5⟩, .take ⟨0, 9⟩] ∧
    s.queue.length ≤ queueSlots ∧
    ∀ event ∈ s.queue.contents, newest SensorsEvent.sensor event.sensor s.history = some event := by
  have hrun : ∃ s, run Hal.step (.start ⟨0, 0⟩) samplePoll = some s ∧
      s.history = [.put ⟨0, 7⟩, .put ⟨0, 9⟩, .put ⟨8, 5⟩, .take ⟨0, 9⟩] := ⟨_, rfl, rfl⟩
  obtain ⟨s, hs, hhistory⟩ := hrun
  obtain ⟨-, -, hlength, -, -, hnewest⟩ :=
    sensor_events_delivered ⟨0, 0⟩ samplePoll s hs (by decide)
  exact ⟨s, hs, hhistory, hlength, hnewest⟩

/-- The first event of the proximity sensor is taken, the next wait ends without one, and the same
event is returned again. -/
theorem event_returned_twice : ∃ s, run Hal.step (.start ⟨0, 0⟩)
      [.activate 8 true, .activator true, .other .proximity 5, .activator true, .poll, .poll,
        .spuriousWakeUp, .reader] = some s ∧
    s.history = [.put ⟨8, 5⟩, .take ⟨8, 5⟩, .take (⟨8, 5⟩ : SensorsEvent Nat)] ∧
    ∀ before, s.history = before ++ [.take ⟨8, 5⟩] →
      run (step SensorsEvent.sensor) [] before = some [] := by
  refine ⟨_, rfl, rfl, ?_⟩
  intro before hbefore
  have heq : before = [.put ⟨8, 5⟩, .take ⟨8, 5⟩] := by
    have hdrop := congrArg List.dropLast hbefore
    rw [List.dropLast_concat] at hdrop
    exact hdrop.symm
  rw [heq]
  rfl

end Codinalte.Sensors
