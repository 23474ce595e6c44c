import Codinalte.Lib.Count
import Codinalte.Lib.Machine

/-! A callback channel of the host execution engine: a service queue, a message queue and the
semaphore that counts what is in them. Threads push messages, dispatch service messages and ask
for a flush message; one consumer takes a token and then looks at one queue after the other. -/

namespace Codinalte.HostEE
open Codinalte.Machine Codinalte.Count

structure CallbackEvent where
  clientContext : Nat
  pReaction : Nat
deriving DecidableEq

structure ServiceMessage where
  serviceType : Nat
  channel : Nat
  data : List Nat
deriving DecidableEq

structure Service where
  handler : Nat
  contextHandler : Nat
  refCounter : Nat
deriving DecidableEq

/-- What `EE_GetMessage` gives back: `NMF_OK` with one of the two kinds of messages,
`NMF_FLUSH_MESSAGE`, or `NMF_NO_MESSAGE`. -/
inductive GetMessageResult where
  | service (message : ServiceMessage)
  | message (event : CallbackEvent)
  | flushMessage
  | noMessage
deriving DecidableEq

/-- Where a thread stands in `nmfPushMessageInChannel`, `nmfPushServiceMessage` or
`EE_FlushChannel`. -/
inductive ThreadPc where
  | idle
  | messagePushed
  | dispatching (message : ServiceMessage)
  | servicePushed
  | flushing
  | unlocking
deriving DecidableEq

/-- Where the consumer stands in `EE_GetMessage`. With `noService` it has found the service queue
empty after `looked` service messages had been pushed. -/
inductive ConsumerPc where
  | idle
  | holdsToken
  | noService (looked : Nat)
deriving DecidableEq

inductive Taker where
  | getMessage
  | removeMessage
deriving DecidableEq

/-- `pushed`, `dispatched`, `taken` and `results` record what went into the two queues, who took
each regular message and what the consumer got. -/
structure Channel (T : Type) where
  handle : Nat
  isShared : Bool
  refCounter : Nat
  sem : Nat
  service : List ServiceMessage
  message : List CallbackEvent
  serviceCallbackList : List Service
  channelListLock : Bool
  thread : T → ThreadPc
  consumer : ConsumerPc
  pushed : List CallbackEvent
  dispatched : List ServiceMessage
  taken : List (Taker × CallbackEvent)
  results : List GetMessageResult
  flushCalls : Nat
  flushGenerated : Nat

def Channel.created (T : Type) (handle : Nat) (isShared : Bool) : Channel T where
  handle := handle
  isShared := isShared
  refCounter := 1
  sem := 0
  service := []
  message := []
  serviceCallbackList := []
  channelListLock := false
  thread := fun _ => .idle
  consumer := .idle
  pushed := []
  dispatched := []
  taken := []
  results := []
  flushCalls := 0
  flushGenerated := 0

inductive ChannelAction (T : Type) where
  | createChannel
  | closeChannel
  | registerService (handler contextHandler : Nat) (allocated : Bool)
  | unregisterService (handler contextHandler : Nat)
  | pushMessage (t : T) (event : CallbackEvent)
  | pushServiceMessage (t : T) (message : ServiceMessage)
  | flushChannel (t : T)
  | thread (t : T) (allocated : Bool)
  | removeMessage
  | getMessage (blockable : Bool)
  | consumer

/-- `list.addNotMatching` with `matchingServiceAdd`. -/
def addService (handler contextHandler : Nat) : List Service → List Service
  | [] => [⟨handler, contextHandler, 1⟩]
  | x :: xs =>
    if x.handler = handler ∧ x.contextHandler = contextHandler then
      { x with refCounter := x.refCounter + 1 } :: xs
    else x :: addService handler contextHandler xs

/-- `list.removeMatching` with `matchingServiceRemove`. -/
def removeService (handler contextHandler : Nat) : List Service → List Service
  | [] => []
  | x :: xs =>
    if x.handler = handler ∧ x.contextHandler = contextHandler then
      if x.refCounter - 1 = 0 then xs
      else { x with refCounter := x.refCounter - 1 } :: removeService handler contextHandler xs
    else x :: removeService handler contextHandler xs

variable {T : Type} [DecidableEq T]

namespace Channel

def setThread (s : Channel T) (t : T) (pc : ThreadPc) : Channel T :=
  { s with thread := Function.update s.thread t pc }

def semV (s : Channel T) : Channel T := { s with sem := s.sem + 1 }

/-- Without memory the function returns before `sem.V(channelListLock)`. -/
def registerService (s : Channel T) (handler contextHandler : Nat) (allocated : Bool) :
    Channel T :=
  if allocated then
    { s with serviceCallbackList := addService handler contextHandler s.serviceCallbackList }
  else { s with channelListLock := true }

def unregisterService (s : Channel T) (handler contextHandler : Nat) : Channel T :=
  { s with serviceCallbackList := removeService handler contextHandler s.serviceCallbackList }

def pushMessage (s : Channel T) (t : T) (event : CallbackEvent) : Channel T :=
  { s.setThread t .messagePushed with
    message := s.message ++ [event]
    pushed := s.pushed ++ [event] }

def lockFor (s : Channel T) (t : T) (pc : ThreadPc) : Channel T :=
  { s.setThread t pc with channelListLock := true }

/-- `executeServiceDispatching` on this channel: the clone with its channel filled in. -/
def pushClone (s : Channel T) (t : T) (message : ServiceMessage) : Channel T :=
  { s.setThread t .servicePushed with
    service := s.service ++ [{ message with channel := s.handle }]
    dispatched := s.dispatched ++ [{ message with channel := s.handle }] }

def generateFlush (s : Channel T) (t : T) : Channel T :=
  { s.semV.setThread t .unlocking with flushGenerated := s.flushGenerated + 1 }

def unlock (s : Channel T) (t : T) : Channel T :=
  { s.setThread t .idle with channelListLock := false }

def stepThread (s : Channel T) (t : T) (allocated : Bool) : Option (Channel T) :=
  match s.thread t with
  | .idle => none
  | .messagePushed => some (s.semV.setThread t .idle)
  | .dispatching message =>
    if s.serviceCallbackList.length = 0 ∨ allocated = false then some (s.setThread t .unlocking)
    else some (s.pushClone t message)
  | .servicePushed => some (s.semV.setThread t .unlocking)
  | .flushing =>
    if s.refCounter = 1 then some (s.generateFlush t) else some (s.setThread t .unlocking)
  | .unlocking => some (s.unlock t)

/-- `nmfQueuePop` on the message queue. -/
def takeMessage (s : Channel T) (taker : Taker) (event : CallbackEvent)
    (rest : List CallbackEvent) : Channel T :=
  { s with message := rest, taken := s.taken ++ [(taker, event)] }

def removeMessage (s : Channel T) : Channel T :=
  match s.message with
  | event :: rest => s.takeMessage .removeMessage event rest
  | [] => s

def takeToken (s : Channel T) : Channel T :=
  { s with sem := s.sem - 1, consumer := .holdsToken }

/-- `EE_GetMessage` returns. -/
def giveBack (s : Channel T) (result : GetMessageResult) : Channel T :=
  { s with consumer := .idle, results := s.results ++ [result] }

def getMessage (s : Channel T) (blockable : Bool) : Option (Channel T) :=
  if s.sem ≠ 0 then some s.takeToken
  else if blockable then none
  else some (s.giveBack .noMessage)

def stepConsumer (s : Channel T) : Option (Channel T) :=
  match s.consumer with
  | .idle => none
  | .holdsToken =>
    match s.service with
    | message :: rest => some ({ s with service := rest }.giveBack (.service message))
    | [] => some { s with consumer := .noService s.dispatched.length }
  | .noService _ =>
    match s.message with
    | event :: rest => some ((s.takeMessage .getMessage event rest).giveBack (.message event))
    | [] => some (s.giveBack .flushMessage)

/-- The consumer is outside `EE_GetMessage` while it executes a message. -/
def step (s : Channel T) : ChannelAction T → Option (Channel T)
  | .createChannel =>
    if s.channelListLock = false ∧ s.isShared = true then
      some { s with refCounter := s.refCounter + 1 }
    else none
  | .closeChannel =>
    if s.channelListLock = false ∧ s.isShared = true ∧ s.refCounter > 1 then
      some { s with refCounter := s.refCounter - 1 }
    else none
  | .registerService handler contextHandler allocated =>
    if s.channelListLock = false then some (s.registerService handler contextHandler allocated)
    else none
  | .unregisterService handler contextHandler =>
    if s.channelListLock = false then some (s.unregisterService handler contextHandler) else none
  | .pushMessage t event => if s.thread t = .idle then some (s.pushMessage t event) else none
  | .pushServiceMessage t message =>
    if s.thread t = .idle ∧ s.channelListLock = false then
      some (s.lockFor t (.dispatching message))
    else none
  | .flushChannel t =>
    if s.thread t = .idle ∧ s.channelListLock = false then
      some { s.lockFor t .flushing with flushCalls := s.flushCalls + 1 }
    else none
  | .thread t allocated => s.stepThread t allocated
  | .removeMessage => some s.removeMessage
  | .getMessage blockable => if s.consumer = .idle then s.getMessage blockable else none
  | .consumer => s.stepConsumer

end Channel

/-- The thread has put a message into a queue and has not done its `sem.V` yet. -/
def ThreadPc.owesToken : ThreadPc → Bool
  | .messagePushed | .servicePushed => true
  | _ => false

namespace Channel

def queued (s : Channel T) : Nat := s.message.length + s.service.length

/-- The tokens taken by a call of `EE_GetMessage` that has not returned. -/
def held (s : Channel T) : Nat := if s.consumer = .idle then 0 else 1

/-- The pushes between queue and semaphore. -/
def inProgress [Fintype T] (s : Channel T) : Nat :=
  countIf (fun _ pc => pc.owesToken = true) s.thread

def flushing [Fintype T] (s : Channel T) : Nat :=
  countIf (fun _ pc => pc = ThreadPc.flushing) s.thread

def takenBy (s : Channel T) (taker : Taker) : List CallbackEvent :=
  (s.taken.filter fun x => x.1 = taker).map Prod.snd

def flushResults (s : Channel T) : Nat := s.results.count .flushMessage

end Channel

/-- The regular messages, and the service messages, among the results of `EE_GetMessage`. -/
def GetMessageResult.event? : GetMessageResult → Option CallbackEvent
  | .message event => some event
  | _ => none

def GetMessageResult.service? : GetMessageResult → Option ServiceMessage
  | .service clone => some clone
  | _ => none

/-- The four ways a step goes on with the channel's registry or its queues. -/
theorem channel_step_cases {s t : Channel T} {a : ChannelAction T} (h : s.step a = some t) :
    (∃ refCounter services lock, t = { s with
      refCounter := refCounter, serviceCallbackList := services, channelListLock := lock }) ∨
    (∃ w event, s.thread w = .idle ∧ t = s.pushMessage w event) ∨
    (∃ w message, s.thread w = .idle ∧ t = s.lockFor w (.dispatching message)) ∨
    (∃ w, s.thread w = .idle ∧ t = { s.lockFor w .flushing with flushCalls := s.flushCalls + 1 }) ∨
    (∃ w allocated, s.stepThread w allocated = some t) ∨
    t = s.removeMessage ∨
    (s.consumer = .idle ∧ s.sem ≠ 0 ∧ t = s.takeToken) ∨
    (s.consumer = .idle ∧ t = s.giveBack .noMessage) ∨
    s.stepConsumer = some t := by
  cases a with
  | createChannel =>
    obtain ⟨-, heq⟩ := Option.ite_none_right_eq_some.mp h
    cases heq
    exact .inl ⟨_, _, _, rfl⟩
  | closeChannel =>
    obtain ⟨-, heq⟩ := Option.ite_none_right_eq_some.mp h
    cases heq
    exact .inl ⟨_, _, _, rfl⟩
  | registerService handler contextHandler allocated =>
    obtain ⟨-, heq⟩ := Option.ite_none_right_eq_some.mp h
    cases heq
    unfold Channel.registerService
    split_ifs
    · exact .inl ⟨_, _, _, rfl⟩
    · exact .inl ⟨_, _, _, rfl⟩
  | unregisterService handler contextHandler =>
    obtain ⟨-, heq⟩ := Option.ite_none_right_eq_some.mp h
    cases heq
    exact .inl ⟨_, _, _, rfl⟩
  | pushMessage w event =>
    obtain ⟨hidle, heq⟩ := Option.ite_none_right_eq_some.mp h
    cases heq
    exact .inr (.inl ⟨w, event, hidle, rfl⟩)
  | pushServiceMessage w message =>
    obtain ⟨hidle, heq⟩ := Option.ite_none_right_eq_some.mp h
    cases heq
    exact .inr (.inr (.inl ⟨w, message, hidle.1, rfl⟩))
  | flushChannel w =>
    obtain ⟨hidle, heq⟩ := Option.ite_none_right_eq_some.mp h
    cases heq
    exact .inr (.inr (.inr (.inl ⟨w, hidle.1, rfl⟩)))
  | thread w allocated => exact .inr (.inr (.inr (.inr (.inl ⟨w, allocated, h⟩))))
  | removeMessage =>
    cases h
    exact .inr (.inr (.inr (.inr (.inr (.inl rfl)))))
  | getMessage blockable =>
    obtain ⟨hidle, hget⟩ := Option.ite_none_right_eq_some.mp h
    unfold Channel.getMessage at hget
    split_ifs at hget with hsem hblock
    · cases hget
      exact .inr (.inr (.inr (.inr (.inr (.inr (.inl ⟨hidle, hsem, rfl⟩))))))
    · cases hget
      exact .inr (.inr (.inr (.inr (.inr (.inr (.inr (.inl ⟨hidle, rfl⟩)))))))
  | consumer => exact .inr (.inr (.inr (.inr (.inr (.inr (.inr (.inr h)))))))

/-- Of the steps of a thread two do the `sem.V` of a message, one pushes a clone, one does the
`sem.V` of a flush, and the others only move on. -/
theorem step_thread_cases {s t : Channel T} {w : T} {allocated : Bool}
    (h : s.stepThread w allocated = some t) :
    (∃ pc, (s.thread w).owesToken = true ∧ pc.owesToken = false ∧ pc ≠ .flushing ∧
      t = s.semV.setThread w pc) ∨
    (∃ message, s.thread w = .dispatching message ∧ t = s.pushClone w message) ∨
    (s.thread w = .flushing ∧ t = s.generateFlush w) ∨
    (∃ pc lock, (s.thread w).owesToken = false ∧ pc.owesToken = false ∧ pc ≠ .flushing ∧
      t = { s.setThread w pc with channelListLock := lock }) := by
  unfold Channel.stepThread at h
  split at h
  · cases h
  · next hpc =>
    cases h
    exact .inl ⟨.idle, by rw [hpc]; rfl, rfl, by decide, rfl⟩
  · next message hpc =>
    split_ifs at h
    · cases h
      exact .inr (.inr (.inr ⟨.unlocking, _, by rw [hpc]; rfl, rfl, by decide, rfl⟩))
    · cases h
      exact .inr (.inl ⟨message, hpc, rfl⟩)
  · next hpc =>
    cases h
    exact .inl ⟨.unlocking, by rw [hpc]; rfl, rfl, by decide, rfl⟩
  · next hpc =>
    split_ifs at h
    · cases h
      exact .inr (.inr (.inl ⟨hpc, rfl⟩))
    · cases h
      exact .inr (.inr (.inr ⟨.unlocking, _, by rw [hpc]; rfl, rfl, by decide, rfl⟩))
  · next hpc =>
    cases h
    exact .inr (.inr (.inr ⟨.idle, false, by rw [hpc]; rfl, rfl, by decide, rfl⟩))

omit [DecidableEq T] in
theorem step_consumer_cases {s t : Channel T} (h : s.stepConsumer = some t) :
    (∃ message rest, s.consumer = .holdsToken ∧ s.service = message :: rest ∧
      t = { s with service := rest }.giveBack (.service message)) ∨
    (s.consumer = .holdsToken ∧ s.service = [] ∧
      t = { s with consumer := .noService s.dispatched.length }) ∨
    (∃ looked event rest, s.consumer = .noService looked ∧ s.message = event :: rest ∧
      t = (s.takeMessage .getMessage event rest).giveBack (.message event)) ∨
    (∃ looked, s.consumer = .noService looked ∧ s.message = [] ∧
      t = s.giveBack .flushMessage) := by
  unfold Channel.stepConsumer at h
  split at h
  · cases h
  · next hpc =>
    split at h
    · next message rest hservice =>
      cases h
      exact .inl ⟨message, rest, hpc, hservice, rfl⟩
    · next hservice =>
      cases h
      exact .inr (.inl ⟨hpc, hservice, rfl⟩)
  · next looked hpc =>
    split at h
    · next event rest hmessage =>
      cases h
      exact .inr (.inr (.inl ⟨looked, event, rest, hpc, hmessage, rfl⟩))
    · next hmessage =>
      cases h
      exact .inr (.inr (.inr ⟨looked, hpc, hmessage, rfl⟩))

/-- Every message is in its queue or was taken from its front, and what `EE_GetMessage` took it
returned. A service message in the queue behind the back of `EE_GetMessage` came after its look. -/
structure ChannelOrder (s : Channel T) : Prop where
  regular : s.pushed = s.taken.map Prod.snd ++ s.message
  returned : s.results.filterMap GetMessageResult.event? = s.takenBy .getMessage
  services : s.dispatched = s.results.filterMap GetMessageResult.service? ++ s.service
  looked : ∀ n, s.consumer = .noService n → s.service = s.dispatched.drop n ∧
    n ≤ s.dispatched.length

section Order
variable {s t : Channel T}

omit [DecidableEq T] in
theorem channel_order_created (handle : Nat) (isShared : Bool) :
    ChannelOrder (Channel.created T handle isShared) where
  regular := rfl
  returned := rfl
  services := rfl
  looked := by
    intro n hn
    cases hn

theorem channel_order_thread (h : ChannelOrder s) {w : T} {allocated : Bool}
    (hw : s.stepThread w allocated = some t) : ChannelOrder t := by
  rcases step_thread_cases hw with ⟨pc, -, -, -, rfl⟩ | ⟨message, hpc, rfl⟩ | ⟨-, rfl⟩ |
    ⟨pc, lock, -, -, -, rfl⟩
  · exact ⟨h.regular, h.returned, h.services, h.looked⟩
  · refine ⟨h.regular, h.returned, ?_, ?_⟩
    · show s.dispatched ++ _ = _ ++ (s.service ++ _)
      rw [h.services, List.append_assoc]
      rfl
    · intro n hn
      obtain ⟨hdrop, hle⟩ := h.looked n hn
      refine ⟨?_, ?_⟩
      · show s.service ++ _ = List.drop n (s.dispatched ++ _)
        rw [List.drop_append_of_le_length hle, hdrop]
      · show n ≤ (s.dispatched ++ _).length
        rw [List.length_append]
        omega
  · exact ⟨h.regular, h.returned, h.services, h.looked⟩
  · exact ⟨h.regular, h.returned, h.services, h.looked⟩

omit [DecidableEq T] in
theorem channel_order_remove (h : ChannelOrder s) : ChannelOrder s.removeMessage := by
  unfold Channel.removeMessage
  split
  · next event rest hmessage =>
    refine ⟨?_, ?_, h.services, h.looked⟩
    · show s.pushed = (s.taken ++ _).map Prod.snd ++ rest
      rw [h.regular, hmessage, List.map_append, List.append_assoc]
      rfl
    · show _ = ((s.taken ++ [(Taker.removeMessage, event)]).filter _).map Prod.snd
      rw [List.filter_append, List.map_append]
      exact h.returned.trans (List.append_nil _).symm
  · exact h

omit [DecidableEq T] in
/-- A result that carries no message. -/
theorem channel_order_give_back (h : ChannelOrder s) {result : GetMessageResult}
    (hevent : result.event? = none) (hservice : result.service? = none) :
    ChannelOrder (s.giveBack result) := by
  refine ⟨h.regular, ?_, ?_, ?_⟩
  · show (s.results ++ [result]).filterMap _ = _
    rw [List.filterMap_append, List.filterMap_cons_none hevent]
    exact (List.append_nil _).trans h.returned
  · show s.dispatched = (s.results ++ [result]).filterMap _ ++ s.service
    rw [List.filterMap_append, List.filterMap_cons_none hservice]
    exact h.services.trans (congrArg (· ++ s.service) (List.append_nil _).symm)
  · intro n hn
    cases hn

omit [DecidableEq T] in
theorem channel_order_consumer (h : ChannelOrder s) (hc : s.stepConsumer = some t) :
    ChannelOrder t := by
  rcases step_consumer_cases hc with ⟨message, rest, -, hservice, rfl⟩ | ⟨-, hservice, rfl⟩ |
    ⟨looked, event, rest, -, hmessage, rfl⟩ | ⟨looked, -, hmessage, rfl⟩
  · refine ⟨h.regular, ?_, ?_, ?_⟩
    · show (s.results ++ _).filterMap _ = _
      rw [List.filterMap_append]
      exact (List.append_nil _).trans h.returned
    · show s.dispatched = (s.results ++ _).filterMap _ ++ rest
      rw [h.services, hservice, List.filterMap_append, List.append_assoc]
      rfl
    · intro n hn
      cases hn
  · refine ⟨h.regular, h.returned, h.services, ?_⟩
    intro n hn
    cases hn
    exact ⟨hservice.trans (List.drop_length ..).symm, le_refl _⟩
  · refine ⟨?_, ?_, ?_, ?_⟩
    · show s.pushed = (s.taken ++ _).map Prod.snd ++ rest
      rw [h.regular, hmessage, List.map_append, List.append_assoc]
      rfl
    · show (s.results ++ _).filterMap _ =
        ((s.taken ++ [(Taker.getMessage, event)]).filter _).map Prod.snd
      rw [List.filterMap_append, List.filter_append, List.map_append, h.returned]
      rfl
    · show s.dispatched = (s.results ++ _).filterMap _ ++ s.service
      rw [List.filterMap_append]
      exact h.services.trans (congrArg (· ++ s.service) (List.append_nil _).symm)
    · intro n hn
      cases hn
  · exact channel_order_give_back h rfl rfl

theorem channel_order_step {a : ChannelAction T} (h : ChannelOrder s) (hstep : s.step a = some t) :
    ChannelOrder t := by
  rcases channel_step_cases hstep with ⟨refCounter, services, lock, rfl⟩ | ⟨w, event, -, rfl⟩ |
    ⟨w, message, -, rfl⟩ | ⟨w, -, rfl⟩ | ⟨w, allocated, hw⟩ | rfl | ⟨-, -, rfl⟩ | ⟨-, rfl⟩ | hc
  · exact ⟨h.regular, h.returned, h.services, h.looked⟩
  · refine ⟨?_, h.returned, h.services, h.looked⟩
    show s.pushed ++ _ = _ ++ (s.message ++ _)
    rw [h.regular, List.append_assoc]
    rfl
  · exact ⟨h.regular, h.returned, h.services, h.looked⟩
  · exact ⟨h.regular, h.returned, h.services, h.looked⟩
  · exact channel_order_thread h hw
  · exact channel_order_remove h
  · refine ⟨h.regular, h.returned, h.services, ?_⟩
    intro n hn
    cases hn
  · exact channel_order_give_back h rfl rfl
  · exact channel_order_consumer h hc

end Order

/-- Tokens against messages: nothing is queued without its token, and the tokens beyond the queued
messages are those of flush messages asked for and not yet returned, and of removed messages. -/
structure TokenInv [Fintype T] (s : Channel T) : Prop where
  balance : s.sem + s.held + s.inProgress + s.flushResults =
    s.queued + (s.takenBy .removeMessage).length + s.flushGenerated
  covered : s.queued ≤ s.sem + s.held + s.inProgress
  coveredService : ∀ n, s.consumer = .noService n → s.service.length ≤ s.sem + s.inProgress
  requested : s.flushGenerated + s.flushing ≤ s.flushCalls

section Tokens
variable [Fintype T] {s t : Channel T}

omit [DecidableEq T] in
theorem token_inv_created (handle : Nat) (isShared : Bool) :
    TokenInv (Channel.created T handle isShared) := by
  have hprogress : (Channel.created T handle isShared).inProgress = 0 :=
    Finset.card_eq_zero.mpr (Finset.filter_eq_empty_iff.mpr fun _ _ h => by cases h)
  have hflushing : (Channel.created T handle isShared).flushing = 0 :=
    Finset.card_eq_zero.mpr (Finset.filter_eq_empty_iff.mpr fun _ _ h => by cases h)
  refine ⟨?_, Nat.zero_le _, ?_, ?_⟩
  · rw [hprogress]
    rfl
  · intro n hn
    cases hn
  · rw [hflushing]
    rfl

theorem in_progress_keep {w : T} {pc : ThreadPc}
    (h : pc.owesToken = (s.thread w).owesToken) : (s.setThread w pc).inProgress = s.inProgress :=
  count_update_keep (by rw [h])

theorem flushing_keep {w : T} {pc : ThreadPc} (hold : s.thread w ≠ .flushing)
    (hnew : pc ≠ .flushing) : (s.setThread w pc).flushing = s.flushing :=
  count_update_keep (iff_of_false hnew hold)

theorem in_progress_enter {w : T} {pc : ThreadPc} (hold : (s.thread w).owesToken = false)
    (hnew : pc.owesToken = true) : (s.setThread w pc).inProgress = s.inProgress + 1 :=
  count_update_enter (by rw [hold]; decide) hnew

theorem in_progress_leave {w : T} {pc : ThreadPc} (hold : (s.thread w).owesToken = true)
    (hnew : pc.owesToken = false) : (s.setThread w pc).inProgress + 1 = s.inProgress :=
  count_update_leave hold (by rw [hnew]; decide)

theorem flushing_leave_le {w : T} {pc : ThreadPc} (hnew : pc ≠ .flushing) :
    (s.setThread w pc).flushing ≤ s.flushing := by
  by_cases hold : s.thread w = .flushing
  · have hleave : (s.setThread w pc).flushing + 1 = s.flushing :=
      count_update_leave (P := fun _ pc => pc = ThreadPc.flushing) hold hnew
    omega
  · exact (flushing_keep hold hnew).le

theorem token_push_message (h : TokenInv s) {w : T} (event : CallbackEvent)
    (hidle : s.thread w = .idle) : TokenInv (s.pushMessage w event) := by
  have hprogress : (s.pushMessage w event).inProgress = s.inProgress + 1 :=
    in_progress_enter (by rw [hidle]; rfl) rfl
  have hflushing : (s.pushMessage w event).flushing = s.flushing :=
    flushing_keep (by rw [hidle]; decide) (by decide)
  have hqueued : (s.pushMessage w event).queued = s.queued + 1 := by
    show (s.message ++ [event]).length + s.service.length = _
    rw [List.length_append, List.length_singleton, Channel.queued]
    omega
  have hbalance := h.balance
  have hcovered := h.covered
  refine ⟨?_, ?_, ?_, ?_⟩
  · rw [hprogress, hqueued]
    show s.sem + s.held + _ + s.flushResults = _ + (s.takenBy _).length + s.flushGenerated
    omega
  · rw [hprogress, hqueued]
    show _ ≤ s.sem + s.held + _
    omega
  · intro n hn
    rw [hprogress]
    show s.service.length ≤ s.sem + _
    have hservice := h.coveredService n hn
    omega
  · rw [hflushing]
    exact h.requested

theorem token_push_clone (h : TokenInv s) {w : T} (message : ServiceMessage)
    (hpc : s.thread w = .dispatching message) : TokenInv (s.pushClone w message) := by
  have hprogress : (s.pushClone w message).inProgress = s.inProgress + 1 :=
    in_progress_enter (by rw [hpc]; rfl) rfl
  have hflushing : (s.pushClone w message).flushing = s.flushing :=
    flushing_keep (by rw [hpc]; exact ThreadPc.noConfusion) (by decide)
  have hlength : (s.pushClone w message).service.length = s.service.length + 1 :=
    List.length_append ..
  have hqueued : (s.pushClone w message).queued = s.queued + 1 := by
    show s.message.length + (s.pushClone w message).service.length = _
    rw [hlength]
    rfl
  have hbalance := h.balance
  have hcovered := h.covered
  refine ⟨?_, ?_, ?_, ?_⟩
  · rw [hprogress, hqueued]
    show s.sem + s.held + _ + s.flushResults = _ + (s.takenBy _).length + s.flushGenerated
    omega
  · rw [hprogress, hqueued]
    show _ ≤ s.sem + s.held + _
    omega
  · intro n hn
    rw [hprogress, hlength]
    show _ ≤ s.sem + _
    have hservice := h.coveredService n hn
    omega
  · rw [hflushing]
    exact h.requested

/-- The `sem.V` after a push. -/
theorem token_posted (h : TokenInv s) {w : T} {pc : ThreadPc}
    (hold : (s.thread w).owesToken = true) (hnew : pc.owesToken = false) (hpc : pc ≠ .flushing) :
    TokenInv (s.semV.setThread w pc) := by
  have hprogress : (s.semV.setThread w pc).inProgress + 1 = s.inProgress :=
    in_progress_leave (s := s.semV) hold hnew
  have hflushing : (s.semV.setThread w pc).flushing ≤ s.flushing :=
    flushing_leave_le (s := s.semV) hpc
  have hbalance := h.balance
  have hcovered := h.covered
  have hrequested := h.requested
  refine ⟨?_, ?_, ?_, ?_⟩
  · show s.sem + 1 + s.held + _ + s.flushResults =
      s.queued + (s.takenBy _).length + s.flushGenerated
    omega
  · show s.queued ≤ s.sem + 1 + s.held + _
    omega
  · intro n hn
    have hservice := h.coveredService n hn
    show s.service.length ≤ s.sem + 1 + _
    omega
  · show s.flushGenerated + _ ≤ s.flushCalls
    omega

theorem token_generate_flush (h : TokenInv s) {w : T} (hpc : s.thread w = .flushing) :
    TokenInv (s.generateFlush w) := by
  have hprogress : (s.generateFlush w).inProgress = s.inProgress :=
    in_progress_keep (s := s.semV) (by show _ = (s.thread w).owesToken; rw [hpc]; rfl)
  have hflushing : (s.generateFlush w).flushing + 1 = s.flushing :=
    count_update_leave (P := fun _ pc => pc = ThreadPc.flushing) hpc (by decide)
  have hbalance := h.balance
  have hcovered := h.covered
  have hrequested := h.requested
  refine ⟨?_, ?_, ?_, ?_⟩
  · rw [hprogress]
    show s.sem + 1 + s.held + _ + s.flushResults =
      s.queued + (s.takenBy _).length + (s.flushGenerated + 1)
    omega
  · rw [hprogress]
    show s.queued ≤ s.sem + 1 + s.held + _
    omega
  · intro n hn
    rw [hprogress]
    have hservice := h.coveredService n hn
    show s.service.length ≤ s.sem + 1 + _
    omega
  · show s.flushGenerated + 1 + _ ≤ s.flushCalls
    omega

/-- A thread goes on without touching the queues or the semaphore. -/
theorem token_moved (h : TokenInv s) {w : T} {pc : ThreadPc} (lock : Bool)
    (hold : (s.thread w).owesToken = false) (hnew : pc.owesToken = false) (hpc : pc ≠ .flushing) :
    TokenInv { s.setThread w pc with channelListLock := lock } := by
  have hprogress : (s.setThread w pc).inProgress = s.inProgress :=
    in_progress_keep (hnew.trans hold.symm)
  have hflushing := flushing_leave_le (s := s) (w := w) hpc
  have hrequested := h.requested
  refine ⟨?_, ?_, ?_, ?_⟩
  · show s.sem + s.held + (s.setThread w pc).inProgress + _ = _
    rw [hprogress]
    exact h.balance
  · show s.queued ≤ s.sem + s.held + (s.setThread w pc).inProgress
    rw [hprogress]
    exact h.covered
  · intro n hn
    show s.service.length ≤ s.sem + (s.setThread w pc).inProgress
    rw [hprogress]
    exact h.coveredService n hn
  · show s.flushGenerated + (s.setThread w pc).flushing ≤ s.flushCalls
    omega

theorem token_flush_call (h : TokenInv s) {w : T} (hidle : s.thread w = .idle) :
    TokenInv { s.lockFor w .flushing with flushCalls := s.flushCalls + 1 } := by
  have hprogress : (s.setThread w .flushing).inProgress = s.inProgress :=
    in_progress_keep (by rw [hidle]; rfl)
  have hflushing : (s.setThread w .flushing).flushing = s.flushing + 1 :=
    count_update_enter (P := fun _ pc => pc = ThreadPc.flushing) (by rw [hidle]; decide) rfl
  have hrequested := h.requested
  refine ⟨?_, ?_, ?_, ?_⟩
  · show s.sem + s.held + (s.setThread w _).inProgress + _ = _
    rw [hprogress]
    exact h.balance
  · show s.queued ≤ s.sem + s.held + (s.setThread w _).inProgress
    rw [hprogress]
    exact h.covered
  · intro n hn
    show s.service.length ≤ s.sem + (s.setThread w _).inProgress
    rw [hprogress]
    exact h.coveredService n hn
  · show s.flushGenerated + (s.setThread w _).flushing ≤ s.flushCalls + 1
    omega

theorem token_thread (h : TokenInv s) {w : T} {allocated : Bool}
    (hw : s.stepThread w allocated = some t) : TokenInv t := by
  rcases step_thread_cases hw with ⟨pc, hold, hnew, hpc, rfl⟩ | ⟨message, hpc, rfl⟩ | ⟨hpc, rfl⟩ |
    ⟨pc, lock, hold, hnew, hpc, rfl⟩
  · exact token_posted h hold hnew hpc
  · exact token_push_clone h message hpc
  · exact token_generate_flush h hpc
  · exact token_moved h lock hold hnew hpc

omit [DecidableEq T] in
/-- A removed message leaves its token behind. -/
theorem token_remove (h : TokenInv s) : TokenInv s.removeMessage := by
  unfold Channel.removeMessage
  split
  · next event rest hmessage =>
    have hqueued : s.queued = rest.length + 1 + s.service.length := by
      rw [Channel.queued, hmessage, List.length_cons]
    have hremoved : ((s.takeMessage .removeMessage event rest).takenBy .removeMessage).length =
        (s.takenBy .removeMessage).length + 1 := by
      show (((s.taken ++ [(Taker.removeMessage, event)]).filter _).map _).length = _
      rw [List.filter_append, List.map_append, List.length_append]
      rfl
    have hbalance := h.balance
    have hcovered := h.covered
    refine ⟨?_, ?_, h.coveredService, h.requested⟩
    · rw [hremoved]
      show s.sem + s.held + s.inProgress + s.flushResults =
        rest.length + s.service.length + _ + s.flushGenerated
      omega
    · show rest.length + s.service.length ≤ s.sem + s.held + s.inProgress
      omega
  · exact h

omit [DecidableEq T] in
theorem token_take (h : TokenInv s) (hidle : s.consumer = .idle) (hsem : s.sem ≠ 0) :
    TokenInv s.takeToken := by
  have hheld : s.held = 0 := if_pos hidle
  have hbalance := h.balance
  have hcovered := h.covered
  refine ⟨?_, ?_, ?_, h.requested⟩
  · show s.sem - 1 + 1 + s.inProgress + s.flushResults =
      s.queued + (s.takenBy _).length + s.flushGenerated
    omega
  · show s.queued ≤ s.sem - 1 + 1 + s.inProgress
    omega
  · intro n hn
    cases hn

omit [DecidableEq T] in
theorem token_no_message (h : TokenInv s) (hidle : s.consumer = .idle) :
    TokenInv (s.giveBack .noMessage) := by
  have hheld : s.held = 0 := if_pos hidle
  have hresults : (s.giveBack .noMessage).flushResults = s.flushResults :=
    List.count_append.trans (Nat.add_zero _)
  have hbalance := h.balance
  have hcovered := h.covered
  refine ⟨?_, ?_, ?_, h.requested⟩
  · rw [hresults]
    show s.sem + 0 + s.inProgress + _ = s.queued + (s.takenBy _).length + s.flushGenerated
    omega
  · show s.queued ≤ s.sem + 0 + s.inProgress
    omega
  · intro n hn
    cases hn

omit [DecidableEq T] in
/-- Every return of the consumer is paid with the token it held. -/
theorem token_consumer (h : TokenInv s) (hc : s.stepConsumer = some t) : TokenInv t := by
  have hbalance := h.balance
  have hcovered := h.covered
  rcases step_consumer_cases hc with ⟨message, rest, hpc, hservice, rfl⟩ | ⟨hpc, hservice, rfl⟩ |
    ⟨looked, event, rest, hpc, hmessage, rfl⟩ | ⟨looked, hpc, hmessage, rfl⟩
  · have hheld : s.held = 1 := if_neg (by rw [hpc]; decide)
    have hqueued : s.queued = s.message.length + (rest.length + 1) := by
      rw [Channel.queued, hservice, List.length_cons]
    have hresults : (s.giveBack (.service message)).flushResults = s.flushResults :=
      List.count_append.trans (Nat.add_zero _)
    refine ⟨?_, ?_, ?_, h.requested⟩
    · show s.sem + 0 + s.inProgress + (s.giveBack (.service message)).flushResults =
        s.message.length + rest.length + (s.takenBy _).length + s.flushGenerated
      omega
    · show s.message.length + rest.length ≤ s.sem + 0 + s.inProgress
      omega
    · intro n hn
      cases hn
  · have hheld : s.held = 1 := if_neg (by rw [hpc]; decide)
    refine ⟨?_, ?_, ?_, h.requested⟩
    · show s.sem + 1 + s.inProgress + s.flushResults =
        s.queued + (s.takenBy _).length + s.flushGenerated
      omega
    · show s.queued ≤ s.sem + 1 + s.inProgress
      omega
    · intro n hn
      show s.service.length ≤ _
      rw [hservice]
      exact Nat.zero_le _
  · have hheld : s.held = 1 := if_neg (by rw [hpc]; exact ConsumerPc.noConfusion)
    have hqueued : s.queued = rest.length + 1 + s.service.length := by
      rw [Channel.queued, hmessage, List.length_cons]
    have hresults : (s.giveBack (.message event)).flushResults = s.flushResults :=
      List.count_append.trans (Nat.add_zero _)
    have hremoved : (s.takeMessage .getMessage event rest).takenBy .removeMessage =
        s.takenBy .removeMessage := by
      show ((s.taken ++ [(Taker.getMessage, event)]).filter _).map _ = _
      rw [List.filter_append, List.map_append]
      exact List.append_nil _
    refine ⟨?_, ?_, ?_, h.requested⟩
    · show s.sem + 0 + s.inProgress + (s.giveBack (.message event)).flushResults =
        rest.length + s.service.length +
          ((s.takeMessage .getMessage event rest).takenBy .removeMessage).length + s.flushGenerated
      rw [hremoved]
      omega
    · show rest.length + s.service.length ≤ s.sem + 0 + s.inProgress
      omega
    · intro n hn
      cases hn
  · have hheld : s.held = 1 := if_neg (by rw [hpc]; exact ConsumerPc.noConfusion)
    have hqueued : s.queued = s.service.length := by
      rw [Channel.queued, hmessage]
      exact Nat.zero_add _
    have hresults : (s.giveBack .flushMessage).flushResults = s.flushResults + 1 :=
      List.count_append
    have hservice := h.coveredService looked hpc
    refine ⟨?_, ?_, ?_, h.requested⟩
    · rw [hresults]
      show s.sem + 0 + s.inProgress + _ = s.queued + (s.takenBy _).length + s.flushGenerated
      omega
    · show s.queued ≤ s.sem + 0 + s.inProgress
      omega
    · intro n hn
      cases hn

theorem token_inv_step {a : ChannelAction T} (h : TokenInv s) (hstep : s.step a = some t) :
    TokenInv t := by
  rcases channel_step_cases hstep with ⟨refCounter, services, lock, rfl⟩ | ⟨w, event, hidle, rfl⟩ |
    ⟨w, message, hidle, rfl⟩ | ⟨w, hidle, rfl⟩ | ⟨w, allocated, hw⟩ | rfl | ⟨hidle, hsem, rfl⟩ |
    ⟨hidle, rfl⟩ | hc
  · exact ⟨h.balance, h.covered, h.coveredService, h.requested⟩
  · exact token_push_message h event hidle
  · exact token_moved h true (by rw [hidle]; rfl) rfl ThreadPc.noConfusion
  · exact token_flush_call h hidle
  · exact token_thread h hw
  · exact token_remove h
  · exact token_take h hidle hsem
  · exact token_no_message h hidle
  · exact token_consumer h hc

theorem channel_inv_run {handle : Nat} {isShared : Bool} {as : List (ChannelAction T)}
    (h : run Channel.step (Channel.created T handle isShared) as = some s) :
    ChannelOrder s ∧ TokenInv s := by
  refine run_induction (P := fun s => ChannelOrder s ∧ TokenInv s) ?_ ?_ h
  · rintro s a t ⟨horder, htokens⟩ hstep
    exact ⟨channel_order_step horder hstep, token_inv_step htokens hstep⟩
  · exact ⟨channel_order_created handle isShared, token_inv_created handle isShared⟩

omit [Fintype T] [DecidableEq T] in
/-- Once it has its token `EE_GetMessage` does not wait. -/
theorem consumer_goes_on (hpc : s.consumer ≠ .idle) : s.stepConsumer ≠ none := by
  unfold Channel.stepConsumer
  split
  · next hidle => exact absurd hidle hpc
  · split
    · exact Option.some_ne_none _
    · exact Option.some_ne_none _
  · split
    · exact Option.some_ne_none _
    · exact Option.some_ne_none _

theorem blocked_consumer_drained (h : TokenInv s) (hidle : s.consumer = .idle)
    (hblocked : s.step (.getMessage true) = none) (hdone : s.inProgress = 0) :
    s.message = [] ∧ s.service = [] := by
  have hheld : s.held = 0 := if_pos hidle
  have hsem : s.sem = 0 := by
    by_contra hne
    have hget : s.step (.getMessage true) = some s.takeToken := (if_pos hidle).trans (if_pos hne)
    rw [hget] at hblocked
    cases hblocked
  have hcovered := h.covered
  unfold Channel.queued at hcovered
  constructor
  · apply List.eq_nil_of_length_eq_zero
    omega
  · apply List.eq_nil_of_length_eq_zero
    omega

omit [Fintype T] [DecidableEq T] in
/-- A result other than a service message is given back only after a look at the service queue
that found it empty. -/
theorem result_after_look (h : ChannelOrder s) (hc : s.stepConsumer = some t)
    {result : GetMessageResult} (hresult : t.results = s.results ++ [result])
    (hservice : result.service? = none) :
    (∃ looked, s.consumer = .noService looked ∧ s.service = s.dispatched.drop looked) ∧
      (result = .flushMessage → s.message = []) := by
  rcases step_consumer_cases hc with ⟨message, rest, -, -, rfl⟩ | ⟨-, -, rfl⟩ |
    ⟨looked, event, rest, hpc, -, rfl⟩ | ⟨looked, hpc, hmessage, rfl⟩
  · have heq : [GetMessageResult.service message] = [result] := List.append_cancel_left hresult
    cases heq
    cases hservice
  · have hlength := congrArg List.length hresult
    rw [List.length_append] at hlength
    exact absurd hlength (Nat.ne_of_lt (Nat.lt_succ_self _))
  · have heq : [GetMessageResult.message event] = [result] := List.append_cancel_left hresult
    cases heq
    refine ⟨⟨looked, hpc, (h.looked looked hpc).1⟩, ?_⟩
    intro hflush
    cases hflush
  · exact ⟨⟨looked, hpc, (h.looked looked hpc).1⟩, fun _ => hmessage⟩

/-- Every message is queued or has been taken once, in pushing order, and what was taken and not
removed has been returned. Service messages go before regular ones that wait at the same time, up
to those pushed after `EE_GetMessage` has looked. While no message has been removed the tokens
are those of the messages and of the flush messages asked for. -/
theorem channel_messages_returned (handle : Nat) (isShared : Bool) (as : List (ChannelAction T))
    (s : Channel T) (hrun : run Channel.step (Channel.created T handle isShared) as = some s) :
    (s.pushed = s.taken.map Prod.snd ++ s.message ∧
      s.results.filterMap GetMessageResult.event? = s.takenBy .getMessage ∧
      s.dispatched = s.results.filterMap GetMessageResult.service? ++ s.service) ∧
    (s.queued ≤ s.sem + s.held + s.inProgress ∧
      (s.consumer ≠ .idle → s.stepConsumer ≠ none) ∧
      (s.consumer = .idle → s.step (.getMessage true) = none → s.inProgress = 0 →
        s.message = [] ∧ s.service = [])) ∧
    (∀ t result, s.stepConsumer = some t → t.results = s.results ++ [result] →
      result.service? = none →
      (∃ looked, s.consumer = .noService looked ∧ s.service = s.dispatched.drop looked) ∧
        (result = .flushMessage → s.message = [])) ∧
    (s.takenBy .removeMessage = [] →
      s.sem + s.held + s.inProgress = s.queued + (s.flushGenerated - s.flushResults) ∧
        s.flushResults ≤ s.flushGenerated ∧ s.flushGenerated ≤ s.flushCalls) := by
  obtain ⟨horder, htokens⟩ := channel_inv_run hrun
  refine ⟨⟨horder.regular, horder.returned, horder.services⟩,
    ⟨htokens.covered, consumer_goes_on, blocked_consumer_drained htokens⟩, ?_, ?_⟩
  · intro t result hc hresult hservice
    exact result_after_look horder hc hresult hservice
  · intro hremoved
    have hbalance := htokens.balance
    have hcovered := htokens.covered
    have hrequested := htokens.requested
    rw [hremoved, List.length_nil] at hbalance
    omega

/-- A regular message, a service message with one listener and a flush are asked for in this
order by two threads; the consumer calls `EE_GetMessage` three times. -/
def sampleTraffic : List (ChannelAction Bool) :=
  [.pushMessage false ⟨7, 1⟩, .thread false true, .registerService 3 4 true,
    .pushServiceMessage true ⟨9, 0, [5]⟩, .thread true true, .thread true true, .thread true true,
    .flushChannel false, .thread false true, .getMessage true, .consumer,
    .getMessage true, .consumer, .consumer, .getMessage true, .consumer]

theorem channel_messages_returned_sample : ∃ s,
    run Channel.step (Channel.created Bool 6 false) sampleTraffic = some s ∧
    s.results = [.service ⟨9, 6, [5]⟩, .message ⟨7, 1⟩] ∧
    s.sem + s.held + s.inProgress = s.queued + (s.flushGenerated - s.flushResults) := by
  have hrun : ∃ s, run Channel.step (Channel.created Bool 6 false) sampleTraffic = some s ∧
      s.results = [.service ⟨9, 6, [5]⟩, .message ⟨7, 1⟩] ∧ s.takenBy .removeMessage = [] :=
    ⟨_, rfl, rfl, rfl⟩
  obtain ⟨s, hs, hresults, hremoved⟩ := hrun
  obtain ⟨-, -, -, htokens⟩ := channel_messages_returned 6 false sampleTraffic s hs
  exact ⟨s, hs, hresults, (htokens hremoved).1⟩

/-- The consumer has taken the token of a flush and found no service message when one is pushed:
there is a message more than tokens until the `sem.V`, and the flush message is returned while
the service message waits. -/
theorem flush_with_service_waiting : ∃ s t : Channel (Fin 2),
    run Channel.step (Channel.created (Fin 2) 6 false)
      [.registerService 3 4 true, .flushChannel 0, .thread 0 true, .thread 0 true,
        .getMessage true, .consumer, .pushServiceMessage 1 ⟨9, 0, [5]⟩, .thread 1 true] = some s ∧
    s.sem + s.held ≠ s.queued + (s.flushGenerated - s.flushResults) ∧
    s.step .consumer = some t ∧ t.results = [.flushMessage] ∧ t.service = [⟨9, 6, [5]⟩] :=
  ⟨_, _, rfl, by decide, rfl, rfl, rfl⟩

end Tokens

end Codinalte.HostEE
