import Codinalte.Lib.Machine
import Codinalte.Lib.Places
import Codinalte.Ril.PreferredNetwork

/-! Every message comes back once, with the answer to the request of its own call, over any order
of calls, broadcasts, answers and handler messages in which no call takes a handler that is busy,
no older request overtakes the last one, and the modem refuses no request of a handler. -/

namespace Codinalte.Ril
open Codinalte.Machine Codinalte.Places

namespace RilState

/-- Nothing is on its way: no request, no broadcast to come, no message to handle. -/
def Quiet (s : RilState) : Prop :=
  s.mRequestsList = [] ∧
    ∀ h < s.created, (s.handlers h).registrations = 0 ∧ (s.handlers h).queue = []

instance (s : RilState) : Decidable s.Quiet :=
  inferInstanceAs (Decidable (_ ∧ ∀ h < s.created, _))

/-- A message is sent back once at most, with the answer to a request of its own with its network
type. At rest all messages are back, the last type sent is the last one asked for, and mobile data
is on. -/
structure Answered (s : RilState) : Prop where
  once : (s.replies.map Reply.response).Nodup
  ownRequest : (s.replies.map Reply.serial).Nodup
  answerOnce : (s.answers.map Prod.fst).Nodup
  ownType : ∀ r ∈ s.replies, ∃ networkType, s.asked[r.response]? = some networkType ∧
    s.sent[r.serial]? = some networkType ∧ (r.serial, r.error) ∈ s.answers
  typesAsked : ∀ networkType ∈ s.sent, networkType ∈ s.asked
  running : s.crashed = false
  atRest : s.Quiet → (∀ response < s.asked.length, response ∈ s.replies.map Reply.response) ∧
    s.sent.getLast? = s.asked.getLast? ∧ s.dataSwitchedOff = false

/-- The request of the last call still waits for its broadcast. -/
def LastWaits (s : RilState) : Prop :=
  ∃ h < s.created, (s.handlers h).registrations ≠ 0 ∧
    (s.handlers h).mNetworktypeResponse = some (s.asked.length - 1)

instance (s : RilState) : Decidable s.LastWaits :=
  inferInstanceAs (Decidable (∃ h < s.created, _ ∧ _))

/-- A call over the handler finds it idle. A broadcast makes a handler send the type that was asked
for last, unless the request for that is still to be sent. The answer that a handler passes on is
no error. -/
def Undisturbed (s : RilState) : RilEvent → Prop
  | .setPreferredNetworkType _ active mobileDataEnabled =>
    needReconnect active mobileDataEnabled = true →
      ∀ h ∈ s.mSamsungu8500RILHandler, (s.handlers h).mNetworktypeResponse = none
  | .broadcast h intent => intent.connectivityAction = true → intent.noConnectivity = true →
    s.asked.getLast? = some (s.handlers h).mDesiredNetworkType ∨ s.LastWaits
  | .solicited _ _ => True
  | .message h => ∀ msg ∈ (s.handlers h).queue.head?, msg.2 = 0

instance (s : RilState) : ∀ event, Decidable (s.Undisturbed event)
  | .setPreferredNetworkType _ _ _ => inferInstanceAs (Decidable (_ → _))
  | .broadcast _ _ => inferInstanceAs (Decidable (_ → _ → _))
  | .solicited _ _ => .isTrue trivial
  | .message _ => inferInstanceAs (Decidable (∀ _ ∈ _, _))

/-- Where the messages of the calls are. -/
def callers (s : RilState) : List Nat := s.mRequestsList.filterMap fun rr =>
  match rr.mResult with
  | .caller response => some response
  | .handler _ => none

def responses (s : RilState) : Place Nat Unit Unit → List Nat :=
  spread (fun h => (s.handlers h).mNetworktypeResponse.toList) (fun _ => s.callers)
    fun _ => s.replies.map Reply.response

/-- Where the requests are: with the modem, in a message to a handler, or done. -/
def serials (s : RilState) : Place Nat Unit Unit → List Nat :=
  spread (fun h => (s.handlers h).queue.map Prod.fst)
    (fun _ => s.mRequestsList.map RilRequest.mSerial) fun _ => s.replies.map Reply.serial

def requestsOf (s : RilState) (h : Nat) : List RilRequest :=
  s.mRequestsList.filter fun rr => rr.mResult = .handler h

/-- What a handler is about: nothing, or one call, from the registration of its receiver over the
request to the answer. -/
inductive Phase (s : RilState) (h : Nat) : Prop
  | idle (hresponse : (s.handlers h).mNetworktypeResponse = none)
      (hregistrations : (s.handlers h).registrations = 0) (hqueue : (s.handlers h).queue = [])
      (hrequests : s.requestsOf h = [])
  | waiting (response : Nat)
      (hresponse : (s.handlers h).mNetworktypeResponse = some response)
      (hregistrations : (s.handlers h).registrations = 1) (hqueue : (s.handlers h).queue = [])
      (hrequests : s.requestsOf h = [])
      (htype : s.asked[response]? = some (s.handlers h).mDesiredNetworkType)
  | sent (response : Nat) (rr : RilRequest)
      (hresponse : (s.handlers h).mNetworktypeResponse = some response)
      (hregistrations : (s.handlers h).registrations = 0) (hqueue : (s.handlers h).queue = [])
      (hrequests : s.requestsOf h = [rr])
      (htype : s.asked[response]? = some rr.networkType)
  | answered (response serial : Nat) (error networkType : Int)
      (hresponse : (s.handlers h).mNetworktypeResponse = some response)
      (hregistrations : (s.handlers h).registrations = 0)
      (hqueue : (s.handlers h).queue = [(serial, error)]) (hrequests : s.requestsOf h = [])
      (htype : s.asked[response]? = some networkType) (hsent : s.sent[serial]? = some networkType)
      (hanswer : (serial, error) ∈ s.answers)

structure Inv (s : RilState) : Prop where
  responses : Kept s.responses (List.range s.asked.length)
  serials : Kept s.serials (List.range s.sent.length)
  phase : ∀ h, Phase s h
  fresh : ∀ h, s.created ≤ h → (s.handlers h).mNetworktypeResponse = none
  current : ∀ h ∈ s.mSamsungu8500RILHandler, h < s.created
  requests : ∀ rr ∈ s.mRequestsList, s.sent[rr.mSerial]? = some rr.networkType ∧
    rr.mSerial ∉ s.answers.map Prod.fst ∧
    ∀ response, rr.mResult = .caller response → s.asked[response]? = some rr.networkType
  answerOnce : (s.answers.map Prod.fst).Nodup
  answered : ∀ answer ∈ s.answers, answer.1 < s.sent.length
  ownType : ∀ r ∈ s.replies, ∃ networkType, s.asked[r.response]? = some networkType ∧
    s.sent[r.serial]? = some networkType ∧ (r.serial, r.error) ∈ s.answers
  typesAsked : ∀ networkType ∈ s.sent, networkType ∈ s.asked
  last : s.sent.getLast? = s.asked.getLast? ∨ s.LastWaits
  data : s.dataSwitchedOff = true → ∃ h, (s.handlers h).mNetworktypeResponse ≠ none
  running : s.crashed = false

section Phases
variable {s t : RilState} {h : Nat}

theorem Phase.congr (hphase : Phase s h) (hhandler : t.handlers h = s.handlers h)
    (hrequests : t.requestsOf h = s.requestsOf h)
    (hasked : ∀ (m : Nat) (x : Int), s.asked[m]? = some x → t.asked[m]? = some x)
    (hsent : ∀ (k : Nat) (x : Int), s.sent[k]? = some x → t.sent[k]? = some x)
    (hanswers : ∀ p ∈ s.answers, p ∈ t.answers) : Phase t h := by
  cases hphase with
  | idle hr hreg hq hreqs =>
    refine .idle ?_ ?_ ?_ (hrequests.trans hreqs)
    · rw [hhandler, hr]
    · rw [hhandler, hreg]
    · rw [hhandler, hq]
  | waiting m hr hreg hq hreqs htype =>
    refine .waiting m ?_ ?_ ?_ (hrequests.trans hreqs) ?_
    · rw [hhandler, hr]
    · rw [hhandler, hreg]
    · rw [hhandler, hq]
    · rw [hhandler]
      exact hasked m _ htype
  | sent m rr hr hreg hq hreqs htype =>
    refine .sent m rr ?_ ?_ ?_ (hrequests.trans hreqs) (hasked m _ htype)
    · rw [hhandler, hr]
    · rw [hhandler, hreg]
    · rw [hhandler, hq]
  | answered m k e x hr hreg hq hreqs htype hsnt hans =>
    refine .answered m k e x ?_ ?_ ?_ (hrequests.trans hreqs) (hasked m _ htype)
      (hsent k _ hsnt) (hanswers _ hans)
    · rw [hhandler, hr]
    · rw [hhandler, hreg]
    · rw [hhandler, hq]

theorem Phase.of_idle (hphase : Phase s h) (hresponse : (s.handlers h).mNetworktypeResponse = none) :
    (s.handlers h).registrations = 0 ∧ (s.handlers h).queue = [] ∧ s.requestsOf h = [] := by
  cases hphase with
  | idle _ hreg hq hreqs => exact ⟨hreg, hq, hreqs⟩
  | waiting _ hr | sent _ _ hr | answered _ _ _ _ hr =>
    rw [hresponse] at hr
    cases hr

/-- Only a handler that waits for its broadcast has a receiver registered. -/
theorem Phase.of_registered (hphase : Phase s h) (hreg : (s.handlers h).registrations ≠ 0) :
    ∃ response, (s.handlers h).mNetworktypeResponse = some response ∧
      (s.handlers h).queue = [] ∧ s.requestsOf h = [] ∧
      s.asked[response]? = some (s.handlers h).mDesiredNetworkType := by
  cases hphase with
  | waiting m hr _ hq hreqs htype => exact ⟨m, hr, hq, hreqs, htype⟩
  | idle _ hzero | sent _ _ _ hzero | answered _ _ _ _ _ hzero => exact absurd hzero hreg

theorem Phase.of_request (hphase : Phase s h) {rr : RilRequest} (hmem : rr ∈ s.requestsOf h) :
    ∃ response, (s.handlers h).mNetworktypeResponse = some response ∧
      (s.handlers h).registrations = 0 ∧ (s.handlers h).queue = [] ∧ s.requestsOf h = [rr] ∧
      s.asked[response]? = some rr.networkType := by
  cases hphase with
  | sent m rr' hr hreg hq hreqs htype =>
    rw [hreqs, List.mem_singleton] at hmem
    subst hmem
    exact ⟨m, hr, hreg, hq, hreqs, htype⟩
  | idle _ _ _ hreqs | waiting _ _ _ _ hreqs | answered _ _ _ _ _ _ _ hreqs =>
    rw [hreqs] at hmem
    cases hmem

theorem Phase.of_message (hphase : Phase s h) {msg : Nat × Int} {queue : List (Nat × Int)}
    (hqueue : (s.handlers h).queue = msg :: queue) :
    ∃ response networkType, (s.handlers h).mNetworktypeResponse = some response ∧
      (s.handlers h).registrations = 0 ∧ queue = [] ∧ s.requestsOf h = [] ∧
      s.asked[response]? = some networkType ∧ s.sent[msg.1]? = some networkType ∧
      msg ∈ s.answers := by
  cases hphase with
  | answered m k e x hr hreg hq hreqs htype hsnt hans =>
    rw [hqueue] at hq
    cases hq
    exact ⟨m, x, hr, hreg, rfl, hreqs, htype, hsnt, hans⟩
  | idle _ _ hq | waiting _ _ _ hq | sent _ _ _ _ hq =>
    rw [hqueue] at hq
    cases hq

end Phases

section Contents
variable (s : RilState) (h : Nat)

@[simp] theorem handlers_self (handler : ConnectivityHandler) :
    (s.setHandler h handler).handlers h = handler := Function.update_self ..

theorem handlers_of_ne {h k : Nat} (handler : ConnectivityHandler) (hk : k ≠ h) :
    (s.setHandler h handler).handlers k = s.handlers k := Function.update_of_ne hk ..

theorem response_setHandler (handler : ConnectivityHandler)
    (hsame : handler.mNetworktypeResponse = (s.handlers h).mNetworktypeResponse) (k : Nat) :
    ((s.setHandler h handler).handlers k).mNetworktypeResponse =
      (s.handlers k).mNetworktypeResponse := by
  by_cases hk : k = h
  · rw [hk, handlers_self, hsame]
  · rw [handlers_of_ne s handler hk]

/-- What a change of one handler does to its own place. -/
theorem own_update {α : Type} (handlers : Nat → ConnectivityHandler) (handler : ConnectivityHandler)
    (f : ConnectivityHandler → List α) :
    (fun k => f (Function.update handlers h handler k)) =
      Function.update (fun k => f (handlers k)) h (f handler) := by
  funext k
  by_cases hk : k = h
  · subst hk
    rw [Function.update_self, Function.update_self]
  · rw [Function.update_of_ne hk, Function.update_of_ne hk]

theorem unit_update {α : Type} (l l' : List α) :
    (fun _ : Unit => l') = Function.update (fun _ => l) () l' := by
  funext u
  exact (Function.update_self (β := fun _ => List α) () l' fun _ => l).symm

theorem responses_handler (handler : ConnectivityHandler) :
    (s.setHandler h handler).responses =
      Function.update s.responses (.own h) handler.mNetworktypeResponse.toList := by
  show spread (fun k => (Function.update s.handlers h handler k).mNetworktypeResponse.toList) _ _ = _
  rw [own_update h s.handlers handler fun x => x.mNetworktypeResponse.toList]
  exact spread_own ..

theorem serials_handler (handler : ConnectivityHandler) :
    (s.setHandler h handler).serials =
      Function.update s.serials (.own h) (handler.queue.map Prod.fst) := by
  show spread (fun k => (Function.update s.handlers h handler k).queue.map Prod.fst) _ _ = _
  rw [own_update h s.handlers handler fun x => x.queue.map Prod.fst]
  exact spread_own ..

/-- Where the handler keeps what counts, nothing moves. -/
theorem responses_handler_same (handler : ConnectivityHandler)
    (hsame : handler.mNetworktypeResponse = (s.handlers h).mNetworktypeResponse) :
    (s.setHandler h handler).responses = s.responses := by
  rw [responses_handler, hsame]
  exact Function.update_eq_self ..

theorem serials_handler_same (handler : ConnectivityHandler)
    (hsame : handler.queue = (s.handlers h).queue) :
    (s.setHandler h handler).serials = s.serials := by
  rw [serials_handler, hsame]
  exact Function.update_eq_self ..

theorem responses_requests (mRequestsList : List RilRequest) :
    { s with mRequestsList }.responses =
      Function.update s.responses (.shared ()) { s with mRequestsList }.callers := by
  have hshared := unit_update s.callers { s with mRequestsList }.callers
  exact (congrArg (fun shared => spread _ shared _) hshared).trans (spread_shared ..)

theorem serials_requests (mRequestsList : List RilRequest) :
    { s with mRequestsList }.serials =
      Function.update s.serials (.shared ()) (mRequestsList.map RilRequest.mSerial) := by
  have hshared := unit_update (s.mRequestsList.map RilRequest.mSerial)
    (mRequestsList.map RilRequest.mSerial)
  exact (congrArg (fun shared => spread _ shared _) hshared).trans (spread_shared ..)

theorem responses_replies (replies : List Reply) :
    { s with replies }.responses =
      Function.update s.responses (.hands ()) (replies.map Reply.response) := by
  have hhands := unit_update (s.replies.map Reply.response) (replies.map Reply.response)
  exact (congrArg (spread _ _) hhands).trans (spread_hands ..)

theorem serials_replies (replies : List Reply) :
    { s with replies }.serials =
      Function.update s.serials (.hands ()) (replies.map Reply.serial) := by
  have hhands := unit_update (s.replies.map Reply.serial) (replies.map Reply.serial)
  exact (congrArg (spread _ _) hhands).trans (spread_hands ..)

theorem responses_send_caller (networkType : Int) (response : Nat) :
    (s.sendPreferedNetworktype networkType (.caller response)).responses =
      Function.update s.responses (.shared ()) (s.responses (.shared ()) ++ [response]) :=
  (responses_requests s _).trans (congrArg (Function.update _ _) List.filterMap_append)

theorem responses_send_handler (networkType : Int) :
    (s.sendPreferedNetworktype networkType (.handler h)).responses = s.responses := by
  have hcallers : (s.sendPreferedNetworktype networkType (.handler h)).callers = s.callers :=
    List.filterMap_append.trans (List.append_nil _)
  have hresponses := responses_requests s
    (s.sendPreferedNetworktype networkType (.handler h)).mRequestsList
  exact (hresponses.trans (congrArg (Function.update _ _) hcallers)).trans
    (Function.update_eq_self ..)

theorem serials_send (networkType : Int) (target : Target) :
    (s.sendPreferedNetworktype networkType target).serials =
      Function.update s.serials (.shared ()) (s.serials (.shared ()) ++ [s.sent.length]) :=
  (serials_requests s _).trans (congrArg (Function.update _ _) List.map_append)

end Contents

section Steps
variable {s t : RilState} {h : Nat}

theorem get_append {α : Type} {l : List α} {i : Nat} {x : α} (hget : l[i]? = some x)
    (l' : List α) : (l ++ l')[i]? = some x := by
  obtain ⟨hlt, -⟩ := List.getElem?_eq_some_iff.mp hget
  rwa [List.getElem?_append_left hlt]

theorem inv_start : Inv start where
  responses := by
    have hnil : start.responses = fun _ => [] := by
      funext p
      cases p <;> rfl
    rw [hnil]
    exact kept_nil
  serials := by
    have hnil : start.serials = fun _ => [] := by
      funext p
      cases p <;> rfl
    rw [hnil]
    exact kept_nil
  phase := fun _ => .idle rfl rfl rfl rfl
  fresh := fun _ _ => rfl
  current := fun h hh => absurd hh (by simp [start])
  requests := fun rr hrr => absurd hrr List.not_mem_nil
  answerOnce := List.nodup_nil
  answered := fun answer hanswer => absurd hanswer List.not_mem_nil
  ownType := fun r hr => absurd hr List.not_mem_nil
  typesAsked := fun _ hmem => absurd hmem List.not_mem_nil
  last := .inl rfl
  data := fun hdata => absurd hdata (by simp [start])
  running := rfl

/-- The replies are as good as before where no call, request or answer is taken back. -/
theorem Inv.ownType_mono (hinv : Inv s)
    (hasked : ∀ (m : Nat) (x : Int), s.asked[m]? = some x → t.asked[m]? = some x)
    (hsent : ∀ (k : Nat) (x : Int), s.sent[k]? = some x → t.sent[k]? = some x)
    (hanswers : ∀ p ∈ s.answers, p ∈ t.answers) :
    ∀ r ∈ s.replies, ∃ networkType, t.asked[r.response]? = some networkType ∧
      t.sent[r.serial]? = some networkType ∧ (r.serial, r.error) ∈ t.answers := by
  intro r hr
  obtain ⟨x, ha, hs, hans⟩ := hinv.ownType r hr
  exact ⟨x, hasked _ x ha, hsent _ x hs, hanswers _ hans⟩

section Send
variable {networkType : Int} {target : Target}

theorem kept_send (hkept : Kept s.serials (List.range s.sent.length)) :
    Kept (s.sendPreferedNetworktype networkType target).serials
      (List.range (s.sent ++ [networkType]).length) := by
  rw [serials_send, List.length_append, List.length_singleton, List.range_succ]
  exact hkept.put (by simp)

theorem Inv.requests_send (hinv : Inv s) {asked : List Int}
    (hasked : ∀ (m : Nat) (x : Int), s.asked[m]? = some x → asked[m]? = some x)
    (htarget : ∀ response, target = .caller response → asked[response]? = some networkType) :
    ∀ rr ∈ (s.sendPreferedNetworktype networkType target).mRequestsList,
      (s.sent ++ [networkType])[rr.mSerial]? = some rr.networkType ∧
      rr.mSerial ∉ s.answers.map Prod.fst ∧
      ∀ response, rr.mResult = .caller response → asked[response]? = some rr.networkType := by
  intro rr hrr
  rcases List.mem_append.mp hrr with hold | hnew
  · obtain ⟨hserial, hfresh, hcaller⟩ := hinv.requests rr hold
    exact ⟨get_append hserial _, hfresh, fun m hm => hasked _ _ (hcaller m hm)⟩
  · rw [List.mem_singleton.mp hnew]
    refine ⟨List.getElem?_concat_length, ?_, htarget⟩
    intro hmem
    obtain ⟨answer, hanswer, heq⟩ := List.mem_map.mp hmem
    have hlt := hinv.answered answer hanswer
    rw [heq] at hlt
    exact Nat.lt_irrefl _ hlt

theorem Inv.answered_send (hinv : Inv s) (networkType : Int) :
    ∀ answer ∈ s.answers, answer.1 < (s.sent ++ [networkType]).length := by
  intro answer hanswer
  rw [List.length_append]
  exact Nat.lt_add_right _ (hinv.answered answer hanswer)

end Send

/-- A call that goes to the modem at once. -/
theorem Inv.direct (hinv : Inv s) (networkType : Int) :
    Inv (({ s with mSamsungu8500RILHandler := none }.sendPreferedNetworktype networkType
      (.caller s.asked.length)).ask networkType) := by
  have hasked : ∀ (m : Nat) (x : Int), s.asked[m]? = some x →
      (s.asked ++ [networkType])[m]? = some x := fun m x hm => get_append hm _
  have hsent : ∀ (k : Nat) (x : Int), s.sent[k]? = some x →
      (s.sent ++ [networkType])[k]? = some x := fun k x hk => get_append hk _
  refine ⟨?_, kept_send hinv.serials, ?_, hinv.fresh, ?_, ?_, hinv.answerOnce,
    hinv.answered_send networkType, ?_, ?_, .inl ?_, hinv.data, hinv.running⟩
  · show Kept (s.sendPreferedNetworktype networkType (.caller s.asked.length)).responses
      (List.range (s.asked ++ [networkType]).length)
    rw [responses_send_caller, List.length_append, List.length_singleton, List.range_succ]
    exact hinv.responses.put (by simp)
  · intro h
    refine (hinv.phase h).congr rfl ?_ hasked hsent fun _ hp => hp
    show (s.mRequestsList ++ [_]).filter _ = _
    rw [List.filter_append]
    exact List.append_nil _
  · intro h hcurrent
    cases hcurrent
  · refine hinv.requests_send hasked fun m hm => ?_
    cases hm
    exact List.getElem?_concat_length
  · exact hinv.ownType_mono hasked hsent fun _ hp => hp
  · intro x hx
    rcases List.mem_append.mp hx with hold | hnew
    · exact List.mem_append_left _ (hinv.typesAsked x hold)
    · exact List.mem_append_right _ hnew
  · show (s.sent ++ [networkType]).getLast? = (s.asked ++ [networkType]).getLast?
    rw [List.getLast?_concat, List.getLast?_concat]

/-- A handler that is new, or was there. -/
theorem Inv.ensureHandler (hinv : Inv s)
    (hidle : ∀ h ∈ s.mSamsungu8500RILHandler, (s.handlers h).mNetworktypeResponse = none) :
    Inv s.ensureHandler.2 ∧ s.ensureHandler.1 < s.ensureHandler.2.created ∧
      (s.ensureHandler.2.handlers s.ensureHandler.1).mNetworktypeResponse = none := by
  unfold RilState.ensureHandler
  cases hcurrent : s.mSamsungu8500RILHandler with
  | some h => exact ⟨hinv, hinv.current h hcurrent, hidle h hcurrent⟩
  | none =>
    have hfresh := hinv.fresh s.created (Nat.le_refl _)
    obtain ⟨-, hqueue, hrequests⟩ := (hinv.phase s.created).of_idle hfresh
    have hself := handlers_self s s.created .new
    have hother : ∀ h, h ≠ s.created → (s.setHandler s.created .new).handlers h = s.handlers h :=
      fun h hne => handlers_of_ne s .new hne
    have hsame := response_setHandler s s.created .new hfresh.symm
    refine ⟨⟨?_, ?_, ?_, ?_, ?_, hinv.requests, hinv.answerOnce, hinv.answered, hinv.ownType,
      hinv.typesAsked, hinv.last.imp id ?_, ?_, hinv.running⟩, Nat.lt_succ_self _, ?_⟩
    · show Kept (s.setHandler s.created .new).responses _
      rw [responses_handler_same s s.created .new hfresh.symm]
      exact hinv.responses
    · show Kept (s.setHandler s.created .new).serials _
      rw [serials_handler_same s s.created .new hqueue.symm]
      exact hinv.serials
    · intro h
      by_cases hh : h = s.created
      · rw [hh]
        refine .idle ?_ ?_ ?_ hrequests
        · exact congrArg ConnectivityHandler.mNetworktypeResponse hself
        · exact congrArg ConnectivityHandler.registrations hself
        · exact congrArg ConnectivityHandler.queue hself
      · exact (hinv.phase h).congr (hother h hh) rfl (fun _ _ hm => hm) (fun _ _ hk => hk)
          fun _ hp => hp
    · intro h hle
      exact (hsame h).trans (hinv.fresh h (Nat.le_of_succ_le hle))
    · intro h hh
      cases hh
      exact Nat.lt_succ_self _
    · rintro ⟨h, hlt, hregistered, hresponse⟩
      refine ⟨h, Nat.lt_succ_of_lt hlt, ?_, (hsame h).trans hresponse⟩
      intro hzero
      have hkept := congrArg ConnectivityHandler.registrations (hother h (Nat.ne_of_lt hlt))
      exact hregistered (hkept.symm.trans hzero)
    · intro hdata
      obtain ⟨h, hh⟩ := hinv.data hdata
      exact ⟨h, fun hnone => hh ((hsame h).symm.trans hnone)⟩
    · exact congrArg ConnectivityHandler.mNetworktypeResponse hself

/-- A call over an idle handler. -/
theorem Inv.overHandler (hinv : Inv s) (hcreated : h < s.created)
    (hidle : (s.handlers h).mNetworktypeResponse = none) (networkType : Int) :
    Inv ((s.setPreferedNetworkType h networkType s.asked.length).ask networkType) := by
  obtain ⟨hregistrations, hqueue, hrequests⟩ := (hinv.phase h).of_idle hidle
  have hasked : ∀ (m : Nat) (x : Int), s.asked[m]? = some x →
      (s.asked ++ [networkType])[m]? = some x := fun m x hm => get_append hm _
  have hself := handlers_self s h
    ((s.handlers h).setPreferedNetworkType networkType s.asked.length)
  have hresponse := congrArg ConnectivityHandler.mNetworktypeResponse hself
  refine ⟨?_, ?_, ?_, ?_, hinv.current, ?_, hinv.answerOnce, hinv.answered,
    hinv.ownType_mono hasked (fun _ _ hk => hk) fun _ hp => hp, ?_, .inr ⟨h, hcreated, ?_, ?_⟩,
    fun _ => ⟨h, fun hnone => ?_⟩, hinv.running⟩
  · show Kept (s.setHandler h _).responses (List.range (s.asked ++ [networkType]).length)
    have hempty : s.responses (.own h) = [] := congrArg Option.toList hidle
    rw [responses_handler, List.length_append, List.length_singleton, List.range_succ]
    have hput := @Kept.put _ _ s.responses (List.range s.asked.length) (.own h) s.asked.length _
      hinv.responses (by simp)
    rwa [hempty] at hput
  · show Kept (s.setHandler h _).serials _
    rw [serials_handler_same s h
      ((s.handlers h).setPreferedNetworkType networkType s.asked.length) rfl]
    exact hinv.serials
  · intro k
    by_cases hk : k = h
    · subst hk
      refine .waiting s.asked.length hresponse ?_ ?_ hrequests ?_
      · refine (congrArg ConnectivityHandler.registrations hself).trans ?_
        exact congrArg (· + 1) hregistrations
      · exact (congrArg ConnectivityHandler.queue hself).trans hqueue
      · refine List.getElem?_concat_length.trans ?_
        exact congrArg some (congrArg ConnectivityHandler.mDesiredNetworkType hself).symm
    · exact (hinv.phase k).congr (handlers_of_ne s _ hk) rfl hasked (fun _ _ hx => hx)
        fun _ hp => hp
  · intro k hle
    have hne : k ≠ h := fun heq => Nat.not_lt.mpr hle (heq ▸ hcreated)
    exact (congrArg ConnectivityHandler.mNetworktypeResponse
      (handlers_of_ne s _ hne)).trans (hinv.fresh k hle)
  · intro rr hrr
    obtain ⟨hserial, hfresh, hcaller⟩ := hinv.requests rr hrr
    exact ⟨hserial, hfresh, fun m hm => hasked _ _ (hcaller m hm)⟩
  · intro x hx
    exact List.mem_append_left _ (hinv.typesAsked x hx)
  · intro hzero
    have hregistered := congrArg ConnectivityHandler.registrations hself
    exact Nat.succ_ne_zero _ (hregistered.symm.trans hzero)
  · refine hresponse.trans ?_
    show some s.asked.length = some ((s.asked ++ [networkType]).length - 1)
    rw [List.length_append]
    rfl
  · cases hresponse.symm.trans hnone

/-- The broadcast that a handler waits for. -/
theorem Inv.receive (hinv : Inv s) (hregistered : (s.handlers h).registrations ≠ 0)
    (hlast : s.asked.getLast? = some (s.handlers h).mDesiredNetworkType ∨ s.LastWaits) :
    Inv ((s.setHandler h (s.handlers h).received).sendPreferedNetworktype
      (s.handlers h).mDesiredNetworkType (.handler h)) := by
  obtain ⟨response, hresponse, hqueue, hrequests, htype⟩ :=
    (hinv.phase h).of_registered hregistered
  have hsent : ∀ (k : Nat) (x : Int), s.sent[k]? = some x →
      (s.sent ++ [(s.handlers h).mDesiredNetworkType])[k]? = some x :=
    fun k x hk => get_append hk _
  have hself := handlers_self s h (s.handlers h).received
  have hsame := response_setHandler s h (s.handlers h).received rfl
  refine ⟨?_, ?_, ?_, ?_, hinv.current, ?_, hinv.answerOnce, hinv.answered_send _,
    hinv.ownType_mono (fun _ _ hm => hm) hsent fun _ hp => hp, ?_, ?_, ?_, hinv.running⟩
  · rw [responses_send_handler, responses_handler_same s h (s.handlers h).received rfl]
    exact hinv.responses
  · refine kept_send (s := s.setHandler h (s.handlers h).received) ?_
    rw [serials_handler_same s h (s.handlers h).received rfl]
    exact hinv.serials
  · intro k
    by_cases hk : k = h
    · subst hk
      refine .sent response ⟨s.sent.length, (s.handlers k).mDesiredNetworkType, .handler k⟩
        ((hsame k).trans hresponse) (congrArg ConnectivityHandler.registrations hself)
        ((congrArg ConnectivityHandler.queue hself).trans hqueue) ?_ htype
      show (s.mRequestsList ++ [_]).filter _ = _
      rw [List.filter_append]
      refine (congrArg (· ++ _) hrequests).trans ?_
      simp [setHandler]
    · refine (hinv.phase k).congr (handlers_of_ne s _ hk) ?_ (fun _ _ hm => hm) hsent
        fun _ hp => hp
      show (s.mRequestsList ++ [_]).filter _ = s.mRequestsList.filter _
      rw [List.filter_append]
      simp [Ne.symm hk]
  · intro k hle
    exact (hsame k).trans (hinv.fresh k hle)
  · exact hinv.requests_send (fun _ _ hm => hm) (fun m hm => by cases hm)
  · intro x hx
    rcases List.mem_append.mp hx with hold | hnew
    · exact hinv.typesAsked x hold
    · rw [List.mem_singleton.mp hnew]
      exact List.mem_of_getElem? htype
  · have hthis : s.asked.getLast? = some (s.handlers h).mDesiredNetworkType →
        (s.sent ++ [(s.handlers h).mDesiredNetworkType]).getLast? = s.asked.getLast? := by
      intro heq
      rw [heq]
      exact List.getLast?_concat
    rcases hlast with heq | ⟨k, hlt, hreg, hres⟩
    · exact .inl (hthis heq)
    · by_cases hk : k = h
      · subst hk
        rw [hresponse, Option.some.injEq] at hres
        subst hres
        refine .inl (hthis ?_)
        rw [List.getLast?_eq_getElem?]
        exact htype
      · refine .inr ⟨k, hlt, ?_, (hsame k).trans hres⟩
        intro hzero
        have hkept := congrArg ConnectivityHandler.registrations (handlers_of_ne s
          (s.handlers h).received hk)
        exact hreg (hkept.symm.trans hzero)
  · intro hdata
    obtain ⟨k, hk⟩ := hinv.data hdata
    exact ⟨k, fun hnone => hk ((hsame k).symm.trans hnone)⟩

section Answer
variable {rr : RilRequest} {serial : Nat} {error : Int}

theorem callers_perm (hmem : rr ∈ s.mRequestsList) {response : Nat}
    (hcaller : rr.mResult = .caller response) :
    s.callers.Perm (response :: { s with mRequestsList := s.mRequestsList.erase rr }.callers) := by
  have hperm := (List.perm_cons_erase hmem).filterMap fun rr : RilRequest =>
    match rr.mResult with
    | .caller response => some response
    | .handler _ => none
  rw [List.filterMap_cons, hcaller] at hperm
  exact hperm

theorem callers_erase_handler (hhandler : rr.mResult = .handler h) :
    { s with mRequestsList := s.mRequestsList.erase rr }.callers = s.callers := by
  have herase : ∀ l : List RilRequest, (l.erase rr).filterMap (fun rr => match rr.mResult with
      | .caller response => some response
      | .handler _ => none) = l.filterMap fun rr => match rr.mResult with
      | .caller response => some response
      | .handler _ => none := by
    intro l
    induction l with
    | nil => rfl
    | cons x l ih =>
      by_cases hx : x = rr
      · rw [hx, List.erase_cons_head, List.filterMap_cons, hhandler]
      · rw [List.erase_cons_tail (by simpa using hx), List.filterMap_cons, List.filterMap_cons, ih]
  exact herase s.mRequestsList

theorem serials_perm (hmem : rr ∈ s.mRequestsList) :
    (s.mRequestsList.map RilRequest.mSerial).Perm
      (rr.mSerial :: (s.mRequestsList.erase rr).map RilRequest.mSerial) :=
  (List.perm_cons_erase hmem).map RilRequest.mSerial

theorem requests_erase (hne : rr.mResult ≠ .handler h)
    (hlist : t.mRequestsList = s.mRequestsList.erase rr) : t.requestsOf h = s.requestsOf h := by
  have hnot : rr ∉ s.requestsOf h := by
    intro hmem
    exact hne (by simpa using (List.mem_filter.mp hmem).2)
  unfold requestsOf
  rw [hlist, ← List.erase_filter]
  exact List.erase_of_not_mem hnot

/-- The other requests are still to be answered. -/
theorem Inv.requests_answer (hinv : Inv s) (hmem : rr ∈ s.mRequestsList) (error : Int) :
    ∀ other ∈ s.mRequestsList.erase rr, s.sent[other.mSerial]? = some other.networkType ∧
      other.mSerial ∉ (s.answers ++ [(rr.mSerial, error)]).map Prod.fst ∧
      ∀ response, other.mResult = .caller response →
        s.asked[response]? = some other.networkType := by
  intro other hother
  obtain ⟨hserial, hfresh, hcaller⟩ := hinv.requests other (List.mem_of_mem_erase hother)
  have hnodup : (rr.mSerial :: (s.mRequestsList.erase rr).map RilRequest.mSerial).Nodup :=
    (serials_perm hmem).nodup_iff.mp (hinv.serials.once (.shared ()))
  refine ⟨hserial, ?_, hcaller⟩
  rw [List.map_append, List.mem_append, not_or]
  refine ⟨hfresh, fun heq => ?_⟩
  have hsame : other.mSerial = rr.mSerial := by simpa using heq
  apply (List.nodup_cons.mp hnodup).1
  rw [← hsame]
  exact List.mem_map_of_mem hother

theorem Inv.answers_answer (hinv : Inv s) (hmem : rr ∈ s.mRequestsList) (error : Int) :
    ((s.answers ++ [(rr.mSerial, error)]).map Prod.fst).Nodup ∧
      ∀ answer ∈ s.answers ++ [(rr.mSerial, error)], answer.1 < s.sent.length := by
  obtain ⟨hserial, hfresh, -⟩ := hinv.requests rr hmem
  refine ⟨?_, fun answer hanswer => ?_⟩
  · rw [List.map_append, List.map_singleton]
    apply hinv.answerOnce.append (List.nodup_singleton _)
    rwa [List.disjoint_singleton]
  · rcases List.mem_append.mp hanswer with hold | hnew
    · exact hinv.answered answer hold
    · rw [List.mem_singleton.mp hnew]
      exact (List.getElem?_eq_some_iff.mp hserial).1

/-- The answer to a call that went to the modem at once. -/
theorem Inv.answer_caller (hinv : Inv s) (hmem : rr ∈ s.mRequestsList) {response : Nat}
    (hcaller : rr.mResult = .caller response) (error : Int) :
    Inv { s with
      mRequestsList := s.mRequestsList.erase rr
      answers := s.answers ++ [(rr.mSerial, error)]
      replies := s.replies ++ [⟨response, error, rr.mSerial⟩] } := by
  obtain ⟨hserial, -, htype⟩ := hinv.requests rr hmem
  obtain ⟨hanswerOnce, hanswered⟩ := hinv.answers_answer hmem error
  refine ⟨?_, ?_, ?_, hinv.fresh, hinv.current, hinv.requests_answer hmem error, hanswerOnce,
    hanswered, ?_, hinv.typesAsked, hinv.last, hinv.data, hinv.running⟩
  · have hperm : (s.responses (.shared ())).Perm _ := callers_perm hmem hcaller
    have hmove := hinv.responses.move (q := .hands ()) (by simp) hperm
    have hresponses := responses_replies { s with mRequestsList := s.mRequestsList.erase rr }
      (s.replies ++ [⟨response, error, rr.mSerial⟩])
    rw [responses_requests, List.map_append] at hresponses
    show Kept (RilState.responses { s with
      mRequestsList := s.mRequestsList.erase rr
      replies := s.replies ++ [⟨response, error, rr.mSerial⟩] }) _
    rw [hresponses]
    exact hmove
  · have hperm : (s.serials (.shared ())).Perm _ := serials_perm hmem
    have hmove := hinv.serials.move (q := .hands ()) (by simp) hperm
    have hserials := serials_replies { s with mRequestsList := s.mRequestsList.erase rr }
      (s.replies ++ [⟨response, error, rr.mSerial⟩])
    rw [serials_requests, List.map_append] at hserials
    show Kept (RilState.serials { s with
      mRequestsList := s.mRequestsList.erase rr
      replies := s.replies ++ [⟨response, error, rr.mSerial⟩] }) _
    rw [hserials]
    exact hmove
  · intro k
    refine (hinv.phase k).congr rfl ?_ (fun _ _ hm => hm) (fun _ _ hk => hk)
      fun _ hp => List.mem_append_left _ hp
    exact requests_erase (by rw [hcaller]; simp) rfl
  · intro r hr
    rcases List.mem_append.mp hr with hold | hnew
    · obtain ⟨x, hasked, hsent, hanswer⟩ := hinv.ownType r hold
      exact ⟨x, hasked, hsent, List.mem_append_left _ hanswer⟩
    · rw [List.mem_singleton.mp hnew]
      exact ⟨rr.networkType, htype response hcaller, hserial,
        List.mem_append_right _ (List.mem_singleton_self _)⟩

/-- The answer to a request of a handler, which gets a message. -/
theorem Inv.answer_handler (hinv : Inv s) (hmem : rr ∈ s.mRequestsList)
    (hhandler : rr.mResult = .handler h) (error : Int) :
    Inv ({ s with
      mRequestsList := s.mRequestsList.erase rr
      answers := s.answers ++ [(rr.mSerial, error)] }.setHandler h
        ((s.handlers h).enqueue (rr.mSerial, error))) := by
  have hof : rr ∈ s.requestsOf h := List.mem_filter.mpr ⟨hmem, by simpa using hhandler⟩
  obtain ⟨response, hresponse, hregistrations, hqueue, hrequests, htype⟩ :=
    (hinv.phase h).of_request hof
  obtain ⟨hserial, -, -⟩ := hinv.requests rr hmem
  obtain ⟨hanswerOnce, hanswered⟩ := hinv.answers_answer hmem error
  have hself := handlers_self s h ((s.handlers h).enqueue (rr.mSerial, error))
  have hsame := response_setHandler s h ((s.handlers h).enqueue (rr.mSerial, error)) rfl
  refine ⟨?_, ?_, ?_, fun k hle => (hsame k).trans (hinv.fresh k hle), hinv.current,
    hinv.requests_answer hmem error, hanswerOnce, hanswered, ?_, hinv.typesAsked,
    hinv.last.imp id ?_, ?_, hinv.running⟩
  · have hresponses := responses_requests s (s.mRequestsList.erase rr)
    have hplace : Function.update s.responses (.shared ()) s.callers = s.responses :=
      Function.update_eq_self ..
    rw [callers_erase_handler hhandler, hplace] at hresponses
    have hkept := responses_handler_same { s with mRequestsList := s.mRequestsList.erase rr } h
      ((s.handlers h).enqueue (rr.mSerial, error)) rfl
    show Kept ({ s with mRequestsList := s.mRequestsList.erase rr }.setHandler h _).responses _
    rw [hkept, hresponses]
    exact hinv.responses
  · have hperm : (s.serials (.shared ())).Perm _ := serials_perm hmem
    have hmove := hinv.serials.move (q := .own h) (by simp) hperm
    have hserials := serials_handler { s with mRequestsList := s.mRequestsList.erase rr } h
      ((s.handlers h).enqueue (rr.mSerial, error))
    have hmap : ((s.handlers h).enqueue (rr.mSerial, error)).queue.map Prod.fst =
        s.serials (.own h) ++ [rr.mSerial] := List.map_append
    rw [serials_requests s (s.mRequestsList.erase rr), hmap] at hserials
    show Kept ({ s with mRequestsList := s.mRequestsList.erase rr }.setHandler h _).serials _
    rw [hserials]
    exact hmove
  · intro k
    by_cases hk : k = h
    · subst hk
      refine .answered response rr.mSerial error rr.networkType ((hsame k).trans hresponse)
        ((congrArg ConnectivityHandler.registrations hself).trans hregistrations) ?_ ?_ htype
        hserial (List.mem_append_right _ (List.mem_singleton_self _))
      · refine (congrArg ConnectivityHandler.queue hself).trans ?_
        show (s.handlers k).queue ++ [(rr.mSerial, error)] = [(rr.mSerial, error)]
        rw [hqueue]
        rfl
      · show (s.mRequestsList.erase rr).filter _ = []
        rw [← List.erase_filter]
        refine (congrArg (List.erase · rr) hrequests).trans ?_
        exact List.erase_cons_head ..
    · refine (hinv.phase k).congr (handlers_of_ne s _ hk) ?_ (fun _ _ hm => hm)
        (fun _ _ hx => hx) fun _ hp => List.mem_append_left _ hp
      refine requests_erase ?_ rfl
      rw [hhandler]
      simpa using Ne.symm hk
  · intro r hr
    obtain ⟨x, hasked, hsent, hanswer⟩ := hinv.ownType r hr
    exact ⟨x, hasked, hsent, List.mem_append_left _ hanswer⟩
  · rintro ⟨k, hlt, hregistered, hres⟩
    refine ⟨k, hlt, fun hzero => hregistered ?_, (hsame k).trans hres⟩
    by_cases hk : k = h
    · rw [hk]
      exact hregistrations
    · have hkept := congrArg ConnectivityHandler.registrations (handlers_of_ne s
        ((s.handlers h).enqueue (rr.mSerial, error)) hk)
      exact hkept.symm.trans hzero
  · intro hdata
    obtain ⟨k, hk⟩ := hinv.data hdata
    exact ⟨k, fun hnone => hk ((hsame k).symm.trans hnone)⟩

end Answer

/-- The handler gives the message of the call back. -/
theorem Inv.handle (hinv : Inv s) {msg : Nat × Int} {queue : List (Nat × Int)}
    (hqueue : (s.handlers h).queue = msg :: queue) (hok : msg.2 = 0) {response : Nat}
    (hresponse : (s.handlers h).mNetworktypeResponse = some response) :
    Inv { s.setHandler h ((s.handlers h).answered queue) with
      dataSwitchedOff := false
      replies := s.replies ++ [⟨response, 0, msg.1⟩] } := by
  obtain ⟨response', networkType, hsame, hregistrations, hrest, hrequests, htype, hsent,
    hanswer⟩ := (hinv.phase h).of_message hqueue
  rw [hresponse, Option.some.injEq] at hsame
  subst hsame hrest
  have hself := handlers_self s h ((s.handlers h).answered [])
  have hother : ∀ k, k ≠ h → (s.setHandler h ((s.handlers h).answered [])).handlers k =
      s.handlers k := fun k hk => handlers_of_ne s _ hk
  refine ⟨?_, ?_, ?_, ?_, hinv.current, hinv.requests, hinv.answerOnce, hinv.answered, ?_,
    hinv.typesAsked, hinv.last.imp id ?_, (fun hdata => by cases hdata), hinv.running⟩
  · have hperm : (s.responses (.own h)).Perm (response :: []) := by
      show (s.handlers h).mNetworktypeResponse.toList.Perm _
      rw [hresponse]
      exact List.Perm.refl _
    have hmove := hinv.responses.move (q := .hands ()) (by simp) hperm
    have hresponses := responses_replies (s.setHandler h ((s.handlers h).answered []))
      (s.replies ++ [⟨response, 0, msg.1⟩])
    rw [responses_handler, List.map_append] at hresponses
    show Kept (RilState.responses { s.setHandler h ((s.handlers h).answered []) with
      replies := s.replies ++ [⟨response, 0, msg.1⟩] }) _
    rw [hresponses]
    exact hmove
  · have hperm : (s.serials (.own h)).Perm (msg.1 :: []) := by
      show ((s.handlers h).queue.map Prod.fst).Perm _
      rw [hqueue]
      exact List.Perm.refl _
    have hmove := hinv.serials.move (q := .hands ()) (by simp) hperm
    have hserials := serials_replies (s.setHandler h ((s.handlers h).answered []))
      (s.replies ++ [⟨response, 0, msg.1⟩])
    rw [serials_handler, List.map_append] at hserials
    show Kept (RilState.serials { s.setHandler h ((s.handlers h).answered []) with
      replies := s.replies ++ [⟨response, 0, msg.1⟩] }) _
    rw [hserials]
    exact hmove
  · intro k
    by_cases hk : k = h
    · subst hk
      exact .idle (congrArg ConnectivityHandler.mNetworktypeResponse hself)
        ((congrArg ConnectivityHandler.registrations hself).trans hregistrations)
        (congrArg ConnectivityHandler.queue hself) hrequests
    · exact (hinv.phase k).congr (hother k hk) rfl (fun _ _ hm => hm) (fun _ _ hx => hx)
        fun _ hp => hp
  · intro k hle
    by_cases hk : k = h
    · rw [hk]
      exact congrArg ConnectivityHandler.mNetworktypeResponse hself
    · exact (congrArg ConnectivityHandler.mNetworktypeResponse (hother k hk)).trans
        (hinv.fresh k hle)
  · intro r hr
    rcases List.mem_append.mp hr with hold | hnew
    · exact hinv.ownType r hold
    · rw [List.mem_singleton.mp hnew]
      refine ⟨networkType, htype, hsent, ?_⟩
      rwa [show (msg.1, (0 : Int)) = msg from Prod.ext rfl hok.symm]
  · rintro ⟨k, hlt, hregistered, hres⟩
    have hk : k ≠ h := fun heq => hregistered (heq ▸ hregistrations)
    refine ⟨k, hlt, fun hzero => hregistered ?_, ?_⟩
    · exact (congrArg ConnectivityHandler.registrations (hother k hk)).symm.trans hzero
    · exact (congrArg ConnectivityHandler.mNetworktypeResponse (hother k hk)).trans hres

/-- What one event preserves. -/
theorem inv_step {event : RilEvent} (hinv : Inv s) (hok : s.Undisturbed event)
    (hstep : s.step event = some t) : Inv t := by
  unfold RilState.step at hstep
  rw [hinv.running] at hstep
  cases event with
  | setPreferredNetworkType networkType active mobileDataEnabled =>
    cases hstep
    unfold RilState.setPreferredNetworkType
    split
    next hneed =>
      obtain ⟨hinv', hcreated, hidle⟩ := hinv.ensureHandler (hok hneed)
      have hasked : s.ensureHandler.2.asked = s.asked := by
        unfold RilState.ensureHandler
        cases s.mSamsungu8500RILHandler <;> rfl
      rw [← hasked]
      exact hinv'.overHandler hcreated hidle networkType
    · exact hinv.direct networkType
  | broadcast h intent =>
    simp only [Bool.false_eq_true, if_false, onReceive] at hstep
    split at hstep
    · cases hstep
    next hregistered =>
      split at hstep
      next hno =>
        obtain ⟨haction, hconnectivity⟩ := (Bool.and_eq_true ..).mp hno
        cases hstep
        exact hinv.receive hregistered (hok haction hconnectivity)
      · cases hstep
        exact hinv
  | solicited serial error =>
    cases hstep
    unfold processSolicited
    cases hfind : s.mRequestsList.find? fun rr => rr.mSerial = serial with
    | none => exact hinv
    | some rr =>
      have hmem := List.mem_of_find?_eq_some hfind
      have hserial : rr.mSerial = serial := by simpa using List.find?_some hfind
      subst hserial
      cases hresult : rr.mResult with
      | caller response =>
        simp only [hresult]
        exact hinv.answer_caller hmem hresult error
      | handler h =>
        simp only [hresult]
        exact hinv.answer_handler hmem hresult error
  | message h =>
    simp only [Bool.false_eq_true, if_false, handleMessage] at hstep
    cases hqueue : (s.handlers h).queue with
    | nil =>
      rw [hqueue] at hstep
      cases hstep
    | cons msg queue =>
      obtain ⟨response, -, hresponse, -⟩ := (hinv.phase h).of_message hqueue
      have hzero : msg.2 = 0 := hok msg (by rw [hqueue]; rfl)
      rw [hqueue, hresponse] at hstep
      cases hstep
      exact hinv.handle hqueue hzero hresponse

theorem Inv.back (hinv : Inv s) (hquiet : s.Quiet) {response : Nat}
    (hasked : response < s.asked.length) : response ∈ s.replies.map Reply.response := by
  obtain ⟨hlist, hhandlers⟩ := hquiet
  obtain ⟨place, hplace⟩ := (hinv.responses.covered response).mp (List.mem_range.mpr hasked)
  cases place with
  | own h =>
    -- a handler with a message of a call waits for something
    exfalso
    have hmem : response ∈ (s.handlers h).mNetworktypeResponse.toList := hplace
    have hcreated : h < s.created := by
      refine Nat.lt_of_not_le fun hle => ?_
      rw [hinv.fresh h hle] at hmem
      cases hmem
    obtain ⟨hregistrations, hqueue⟩ := hhandlers h hcreated
    have hrequests : s.requestsOf h = [] := by
      unfold requestsOf
      rw [hlist]
      rfl
    cases hinv.phase h with
    | idle hnone =>
      rw [hnone] at hmem
      cases hmem
    | waiting _ _ hone =>
      rw [hregistrations] at hone
      cases hone
    | sent _ _ _ _ _ hsent =>
      rw [hrequests] at hsent
      cases hsent
    | answered _ _ _ _ _ _ hmsg =>
      rw [hqueue] at hmsg
      cases hmsg
  | shared =>
    have hmem : response ∈ s.callers := hplace
    unfold callers at hmem
    rw [hlist] at hmem
    cases hmem
  | hands => exact hplace

theorem Inv.answered_all (hinv : Inv s) : Answered s where
  once := hinv.responses.once (.hands ())
  ownRequest := hinv.serials.once (.hands ())
  answerOnce := hinv.answerOnce
  ownType := hinv.ownType
  typesAsked := hinv.typesAsked
  running := hinv.running
  atRest := by
    intro hquiet
    refine ⟨fun response hasked => hinv.back hquiet hasked, ?_, ?_⟩
    · refine hinv.last.resolve_right ?_
      rintro ⟨h, hcreated, hregistered, -⟩
      exact hregistered (hquiet.2 h hcreated).1
    · rw [← Bool.not_eq_true]
      intro hdata
      obtain ⟨h, hresponse⟩ := hinv.data hdata
      obtain ⟨response, hsome⟩ := Option.ne_none_iff_exists'.mp hresponse
      have hlive : response ∈ s.responses (.own h) := by
        show response ∈ (s.handlers h).mNetworktypeResponse.toList
        rw [hsome]
        exact List.mem_singleton_self _
      have hrange := List.mem_range.mp (hinv.responses.mem_live hlive)
      have hback : response ∈ s.responses (.hands ()) := hinv.back hquiet hrange
      cases hinv.responses.apart _ _ response hlive hback

/-- In every state of a run whose events are all undisturbed, what the callers are owed has been
kept. -/
theorem answered_of_undisturbed (events : List RilEvent) (s : RilState)
    (hok : Meets RilState.step Undisturbed start events)
    (hrun : run RilState.step start events = some s) : Answered s :=
  (run_induction_of_meets (fun _ _ _ hinv => inv_step hinv) inv_start hok hrun).answered_all

end Steps

def mobile : Option NetworkInfo := some ⟨true, true⟩

def noConnectivity : Intent := ⟨true, true⟩

/-- A call over the handler, one to the modem at once, and another over a new handler; the first
two come back before the third is done. -/
def sampleEvents : List RilEvent :=
  [.setPreferredNetworkType 3 mobile true, .broadcast 0 noConnectivity,
    .setPreferredNetworkType 7 none true, .solicited 1 2, .solicited 0 0,
    .setPreferredNetworkType 9 mobile true, .message 0, .broadcast 1 noConnectivity,
    .solicited 2 0, .message 1]

theorem answered_of_undisturbed_sample :
    ∃ s, run RilState.step start sampleEvents = some s ∧ Answered s ∧
      s.replies = [⟨1, 2, 1⟩, ⟨0, 0, 0⟩, ⟨2, 0, 2⟩] := by
  refine ⟨_, rfl, ?_, rfl⟩
  exact answered_of_undisturbed sampleEvents _ (by decide) rfl

/-- The modem refuses a request of the handler, and the caller is told that it was done. A second
call over a busy handler loses the message of the first. A call that goes to the modem at once is
overtaken by an older one. -/
theorem network_type_not_answered :
    (∃ s, run RilState.step start [.setPreferredNetworkType 3 mobile true,
        .broadcast 0 noConnectivity, .solicited 0 2, .message 0] = some s ∧
      s.answers = [(0, 2)] ∧ s.replies = [⟨0, 0, 0⟩] ∧ ¬ Answered s) ∧
    (∃ s, run RilState.step start [.setPreferredNetworkType 3 mobile true,
        .setPreferredNetworkType 7 mobile true, .broadcast 0 noConnectivity, .solicited 0 0,
        .message 0] = some s ∧ s.replies = [⟨1, 0, 0⟩] ∧ ¬ Answered s) ∧
    ∃ s, run RilState.step start [.setPreferredNetworkType 3 mobile true,
        .setPreferredNetworkType 7 none true, .broadcast 0 noConnectivity, .solicited 0 0,
        .solicited 1 0, .message 0] = some s ∧ s.asked = [3, 7] ∧ s.sent = [7, 3] ∧
      ¬ Answered s := by
  refine ⟨⟨_, rfl, rfl, rfl, fun hanswered => ?_⟩, ⟨_, rfl, rfl, fun hanswered => ?_⟩,
    ⟨_, rfl, rfl, rfl, fun hanswered => ?_⟩⟩
  · obtain ⟨networkType, -, -, hmem⟩ := hanswered.ownType ⟨0, 0, 0⟩ (List.mem_singleton_self _)
    have hne : ((0 : Nat), (0 : Int)) ∉ [((0 : Nat), (2 : Int))] := by decide
    exact hne hmem
  · have hlost : (0 : Nat) ∉ [(⟨1, 0, 0⟩ : Reply)].map Reply.response := by decide
    exact hlost ((hanswered.atRest (by decide)).1 0 (by decide))
  · have hlast : [(7 : Int), 3].getLast? ≠ [(3 : Int), 7].getLast? := by decide
    exact hlast (hanswered.atRest (by decide)).2.1

end RilState
end Codinalte.Ril
