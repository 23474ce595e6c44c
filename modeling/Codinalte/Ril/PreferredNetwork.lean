import Mathlib.Data.Option.Basic
import Mathlib.Logic.Function.Basic

/-! The preferred network type of `SamsungU8500RIL`: a request goes to the modem at once, or, while
mobile data is connected, over a handler that first switches mobile data off, waits for the
broadcast, and switches it on again when the modem has answered. The calls, the broadcasts, the
answers of the modem and the messages of the handlers come in any order. -/

namespace Codinalte.Ril

structure NetworkInfo where
  typeIsMobile : Bool
  isConnected : Bool
deriving DecidableEq

/-- `active` is the active network, or null. -/
def needReconnect (active : Option NetworkInfo) (mobileDataEnabled : Bool) : Bool :=
  match active with
  | none => false
  | some info => info.typeIsMobile && info.isConnected && mobileDataEnabled

/-- Where the answer to a request goes: back to the caller, with the message of its call, or to a
handler as `MESSAGE_SET_PREFERRED_NETWORK_TYPE`. -/
inductive Target where
  | caller (response : Nat)
  | handler (h : Nat)
deriving DecidableEq

structure RilRequest where
  mSerial : Nat
  networkType : Int
  mResult : Target
deriving DecidableEq

/-- `registrations` counts those of its receiver; `queue` holds the messages that wait for its
thread, each the answer to a request: the serial and the error. -/
structure ConnectivityHandler where
  mDesiredNetworkType : Int
  mNetworktypeResponse : Option Nat
  registrations : Nat
  queue : List (Nat × Int)
deriving DecidableEq

namespace ConnectivityHandler

def new : ConnectivityHandler := ⟨0, none, 0, []⟩

/-- `setPreferedNetworkType` of the handler; it registers the receiver once more. -/
def setPreferedNetworkType (handler : ConnectivityHandler) (networkType : Int) (response : Nat) :
    ConnectivityHandler :=
  { handler with
    mDesiredNetworkType := networkType
    mNetworktypeResponse := some response
    registrations := handler.registrations + 1 }

/-- `stopListening` takes all registrations away, and there is no desired type any more. -/
def received (handler : ConnectivityHandler) : ConnectivityHandler :=
  { handler with mDesiredNetworkType := -1, registrations := 0 }

def enqueue (handler : ConnectivityHandler) (msg : Nat × Int) : ConnectivityHandler :=
  { handler with queue := handler.queue ++ [msg] }

def answered (handler : ConnectivityHandler) (queue : List (Nat × Int)) : ConnectivityHandler :=
  { handler with mNetworktypeResponse := none, queue := queue }

end ConnectivityHandler

/-- A message that is sent back with an error, or with 0; `serial` is the request whose answer led
to it. -/
structure Reply where
  response : Nat
  error : Int
  serial : Nat
deriving DecidableEq

structure Intent where
  connectivityAction : Bool
  noConnectivity : Bool
deriving DecidableEq

/-- `asked` holds the network type of each call, whose message is the number of the call; `sent`
the network type of each request, by its serial. A handler that is no longer the current one lives
on with its thread and its receiver. -/
structure RilState where
  asked : List Int
  mSamsungu8500RILHandler : Option Nat
  created : Nat
  handlers : Nat → ConnectivityHandler
  mRequestsList : List RilRequest
  sent : List Int
  answers : List (Nat × Int)
  replies : List Reply
  dataSwitchedOff : Bool
  crashed : Bool

namespace RilState

def start : RilState where
  asked := []
  mSamsungu8500RILHandler := none
  created := 0
  handlers _ := .new
  mRequestsList := []
  sent := []
  answers := []
  replies := []
  dataSwitchedOff := false
  crashed := false

def setHandler (s : RilState) (h : Nat) (handler : ConnectivityHandler) : RilState :=
  { s with handlers := Function.update s.handlers h handler }

def sendPreferedNetworktype (s : RilState) (networkType : Int) (response : Target) : RilState :=
  { s with
    mRequestsList := s.mRequestsList ++ [⟨s.sent.length, networkType, response⟩]
    sent := s.sent ++ [networkType] }

/-- The handler takes the call and switches mobile data off. -/
def setPreferedNetworkType (s : RilState) (h : Nat) (networkType : Int) (response : Nat) :
    RilState :=
  { s.setHandler h ((s.handlers h).setPreferedNetworkType networkType response) with
    dataSwitchedOff := true }

/-- A new handler where there is none. -/
def ensureHandler (s : RilState) : Nat × RilState :=
  match s.mSamsungu8500RILHandler with
  | some h => (h, s)
  | none => (s.created,
    { s.setHandler s.created .new with
      mSamsungu8500RILHandler := some s.created
      created := s.created + 1 })

/-- The call has been made. -/
def ask (s : RilState) (networkType : Int) : RilState :=
  { s with asked := s.asked ++ [networkType] }

def setPreferredNetworkType (s : RilState) (networkType : Int) (active : Option NetworkInfo)
    (mobileDataEnabled : Bool) : RilState :=
  if needReconnect active mobileDataEnabled then
    (s.ensureHandler.2.setPreferedNetworkType s.ensureHandler.1 networkType
      s.asked.length).ask networkType
  else
    ({ s with mSamsungu8500RILHandler := none }.sendPreferedNetworktype networkType
      (.caller s.asked.length)).ask networkType

/-- A broadcast comes to the receiver of a handler for as long as it is registered. -/
def onReceive (s : RilState) (h : Nat) (intent : Intent) : Option RilState :=
  if (s.handlers h).registrations = 0 then none
  else if intent.connectivityAction && intent.noConnectivity then
    some ((s.setHandler h (s.handlers h).received).sendPreferedNetworktype
      (s.handlers h).mDesiredNetworkType (.handler h))
  else some s

/-- The answer to a request of this kind has no data; an error goes to the target as it is. -/
def processSolicited (s : RilState) (serial : Nat) (error : Int) : RilState :=
  match s.mRequestsList.find? fun rr => rr.mSerial = serial with
  | none => s
  | some rr =>
    let s := { s with
      mRequestsList := s.mRequestsList.erase rr
      answers := s.answers ++ [(serial, error)] }
    match rr.mResult with
    | .caller response => { s with replies := s.replies ++ [⟨response, error, serial⟩] }
    | .handler h => s.setHandler h ((s.handlers h).enqueue (serial, error))

/-- The handler does not look at the result in the message. -/
def handleMessage (s : RilState) (h : Nat) : Option RilState :=
  match (s.handlers h).queue with
  | [] => none
  | msg :: queue =>
    let s := { s with dataSwitchedOff := false }
    match (s.handlers h).mNetworktypeResponse with
    | none => some { s with crashed := true }
    | some response => some
      { s.setHandler h ((s.handlers h).answered queue) with
        replies := s.replies ++ [⟨response, 0, msg.1⟩] }

end RilState

inductive RilEvent where
  | setPreferredNetworkType (networkType : Int) (active : Option NetworkInfo)
    (mobileDataEnabled : Bool)
  | broadcast (h : Nat) (intent : Intent)
  | solicited (serial : Nat) (error : Int)
  | message (h : Nat)

def RilState.step (s : RilState) (event : RilEvent) : Option RilState :=
  if s.crashed then none
  else
    match event with
    | .setPreferredNetworkType networkType active mobileDataEnabled =>
      some (s.setPreferredNetworkType networkType active mobileDataEnabled)
    | .broadcast h intent => s.onReceive h intent
    | .solicited serial error => some (s.processSolicited serial error)
    | .message h => s.handleMessage h

end Codinalte.Ril
