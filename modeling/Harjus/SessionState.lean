import Harjus.Subscription
import Mathlib.Data.Finmap
import Mathlib.Data.String.Basic

/-!
# `Harjus.SessionState`: what a FIX session holds

The session layer of the engine numbers what it sends, keeps it in a store, and follows the
numbers of what it receives. The module has its messages (`flashfix/include/Message.h`, as far
as `Session` reads them), the `MemoryStore` that `Main` chooses
(`flashfix/include/MessageStore.h`), `SessionState` (`flashfix/include/SessionState.h`), and
what a session is built from: its settings, the `Application` and the data dictionary.

* A message is its header and what the session reads of its body. The content of an application
  message is of any type.
* The store holds the messages themselves, where the source holds their texts and parses them
  again.
* `State.history` records what a session hands out, to its responder and to its application, and
  where its numbers start again. What the application does may depend on all of it.

A `SEQNUM` is a natural number. The number that is expected can be set to any value by the other
side, so `incrNextTargetMsgSeqNum` starts again from 0 after the last value of `uint64_t`. The
number of the next message to send only grows by one, and the model leaves out its end.
-/

set_option autoImplicit false

namespace Harjus.Session

/-- `UtcTimeStamp`, as nanoseconds. -/
structure UtcTimeStamp where
  nanos : ℕ
  deriving DecidableEq, Repr

namespace UtcTimeStamp

/-- `DateTime::NANOS_PER_SEC`. -/
def NANOS_PER_SEC : ℕ := 1000000000

/-- `operator-`: the difference in seconds, where the nanoseconds are truncated first. -/
def sub (a b : UtcTimeStamp) : ℤ :=
  (a.nanos / NANOS_PER_SEC : ℕ) - (b.nanos / NANOS_PER_SEC : ℕ)

/-- No time passes between a time and itself. -/
@[simp] theorem sub_self (a : UtcTimeStamp) : a.sub a = 0 := by
  show ((a.nanos / NANOS_PER_SEC : ℕ) : ℤ) - (a.nanos / NANOS_PER_SEC : ℕ) = 0
  omega

end UtcTimeStamp

/-! ### Messages -/

/-- What the session layer reads of a body, by the type of the message. -/
inductive Body (α : Type) where
  | heartbeat (testReqID : Option String)
  | testRequest (testReqID : Option String)
  | resendRequest (beginSeqNo endSeqNo : Option ℕ)
  | reject (refSeqNum : Option ℕ) (refMsgType : Option String)
      (sessionRejectReason : Option ℕ) (refTagID : Option ℕ) (text : Option String)
  | sequenceReset (gapFillFlag : Option Bool) (newSeqNo : Option ℕ)
  | logout (text : Option String)
  | logon (resetSeqNumFlag : Option Bool) (heartBtInt : Option ℤ)
      (nextExpectedMsgSeqNum : Option ℕ)
  | businessMessageReject (refMsgType : String) (refSeqNum : ℕ)
      (businessRejectReason : ℕ) (text : Option String)
  | app (msgType : String) (content : α)
  deriving DecidableEq, Repr

namespace Body
variable {α : Type}

/-- `MsgType`. -/
def msgType : Body α → String
  | heartbeat _ => "0"
  | testRequest _ => "1"
  | resendRequest _ _ => "2"
  | reject _ _ _ _ _ => "3"
  | sequenceReset _ _ => "4"
  | logout _ => "5"
  | logon _ _ _ => "A"
  | businessMessageReject _ _ _ _ => "j"
  | app msgType _ => msgType

/-- `isAdminMsgType`. -/
def isAdmin : Body α → Bool
  | businessMessageReject _ _ _ _ | app _ _ => false
  | _ => true

/-- `MsgType_Logon`. -/
def isLogon : Body α → Bool
  | logon _ _ _ => true
  | _ => false

/-- `MsgType_Logout`. -/
def isLogout : Body α → Bool
  | logout _ => true
  | _ => false

/-- `MsgType_ResendRequest`. -/
def isResendRequest : Body α → Bool
  | resendRequest _ _ => true
  | _ => false

/-- `MsgType_SequenceReset`. -/
def isSequenceReset : Body α → Bool
  | sequenceReset _ _ => true
  | _ => false

/-- `MsgType_Reject`. -/
def isReject : Body α → Bool
  | reject _ _ _ _ _ => true
  | _ => false

/-- `ResetSeqNumFlag`, where it is set. -/
def resetSeqNumFlag : Body α → Bool
  | logon flag _ _ => flag.getD false
  | _ => false

end Body

/-- `Header`, as far as the session reads it. `fields` are the fields that the application
adds. -/
structure Header where
  beginString : String
  senderCompID : Option String
  targetCompID : Option String
  msgSeqNum : Option ℕ
  sendingTime : Option UtcTimeStamp
  possDupFlag : Option Bool
  origSendingTime : Option UtcTimeStamp
  fields : List (ℕ × String)
  deriving DecidableEq, Repr

/-- A header without fields, as `newMessage` makes it. -/
def Header.empty : Header := ⟨"", none, none, none, none, none, none, []⟩

/-- `Message`. -/
structure Message (α : Type) where
  header : Header
  body : Body α
  deriving DecidableEq, Repr

namespace Message
variable {α : Type}

/-- `newMessage`, with what is set on it. -/
def new (body : Body α) : Message α := ⟨.empty, body⟩

/-- The number of a message that has one. -/
def seqNum (message : Message α) : ℕ := message.header.msgSeqNum.getD 0

/-- `PossDupFlag` is set to `Y`. -/
def possDup (message : Message α) : Bool := message.header.possDupFlag.getD false

end Message

/-! ### Exceptions -/

/-- The exceptions that `Session` tells apart. `exception` is any other `std::exception`. -/
inductive Exception where
  | exception
  | messageParseError
  | requiredTagMissing (field : ℕ)
  | fieldNotFound (field : ℕ)
  | invalidTagNumber (field : ℕ)
  | noTagValue (field : ℕ)
  | tagNotDefinedForMessage (field : ℕ)
  | invalidMessageType
  | unsupportedMessageType
  | tagOutOfOrder (field : ℕ)
  | incorrectDataFormat (field : ℕ)
  | incorrectTagValue (field : ℕ)
  | repeatedTag (field : ℕ)
  | repeatingGroupCountMismatch (field : ℕ)
  | invalidMessage
  | rejectLogon (what : String)
  | unsupportedVersion
  | ioException
  deriving DecidableEq, Repr

/-! ### What a session hands out -/

/-- A call that a session makes of its responder or of its application, a reset of its store, or a
`++` of the expected number that runs over the end of `SEQNUM`. `accepted` is whether the
application returns. -/
inductive Output (α : Type) where
  | sent (message : Message α)
  | fromApp (message : Message α) (accepted : Bool)
  | fromAdmin (message : Message α) (accepted : Bool)
  | onLogon
  | onLogout
  | disconnected
  | storeReset
  | seqNumWrapped
  deriving DecidableEq, Repr

/-! ### The state -/

/-- How many values a `SEQNUM` has, which is a `uint64_t`. -/
def SEQNUM_COUNT : ℕ := 18446744073709551616

/-- `MemoryStore`. -/
structure MemoryStore (α : Type) where
  messages : Finmap fun _ : ℕ => Message α
  nextSenderMsgSeqNum : ℕ
  nextTargetMsgSeqNum : ℕ
  creationTime : UtcTimeStamp

namespace MemoryStore
variable {α : Type}

/-- The constructor, and what `reset` leaves. -/
def new (now : UtcTimeStamp) : MemoryStore α := ⟨∅, 1, 1, now⟩

/-- `MemoryStore::set`. -/
def set (store : MemoryStore α) (msgSeqNum : ℕ) (message : Message α) : MemoryStore α :=
  { store with messages := store.messages.insert msgSeqNum message }

/-- `MemoryStore::get`: from `find(begin)` on, in the order of the numbers. -/
def get (store : MemoryStore α) (beginSeqNo endSeqNo : ℕ) : List (Message α) :=
  if beginSeqNo ∈ store.messages then
    (List.range' beginSeqNo (endSeqNo + 1 - beginSeqNo)).filterMap store.messages.lookup
  else []

/-- `incrNextSenderMsgSeqNum`. -/
def incrNextSenderMsgSeqNum (store : MemoryStore α) : MemoryStore α :=
  { store with nextSenderMsgSeqNum := store.nextSenderMsgSeqNum + 1 }

/-- `incrNextTargetMsgSeqNum`. -/
def incrNextTargetMsgSeqNum (store : MemoryStore α) : MemoryStore α :=
  { store with nextTargetMsgSeqNum := (store.nextTargetMsgSeqNum + 1) % SEQNUM_COUNT }

/-- `setNextTargetMsgSeqNum`. -/
def setNextTargetMsgSeqNum (store : MemoryStore α) (num : ℕ) : MemoryStore α :=
  { store with nextTargetMsgSeqNum := num }

end MemoryStore

/-- `SessionState`, with the responder of the session. `initiate` does not change and is a
setting. -/
structure State (α : Type) where
  enabled : Bool
  receivedLogon : Bool
  sentLogout : Bool
  sentLogon : Bool
  sentReset : Bool
  receivedReset : Bool
  testRequest : ℕ
  resendRange : ℕ × ℕ
  heartBtInt : ℤ
  lastSentTime : UtcTimeStamp
  lastReceivedTime : UtcTimeStamp
  logoutReason : String
  queue : Finmap fun _ : ℕ => Message α
  store : MemoryStore α
  hasResponder : Bool
  history : List (Output α)

namespace State
variable {α : Type}

/-- A session that is built at `now`. -/
def new (heartBtInt : ℤ) (now : UtcTimeStamp) : State α where
  enabled := true
  receivedLogon := false
  sentLogout := false
  sentLogon := false
  sentReset := false
  receivedReset := false
  testRequest := 0
  resendRange := (0, 0)
  heartBtInt := heartBtInt
  lastSentTime := now
  lastReceivedTime := now
  logoutReason := ""
  queue := ∅
  store := .new now
  hasResponder := false
  history := []

/-- `isLoggedOn`. -/
def isLoggedOn (s : State α) : Bool := s.receivedLogon && s.sentLogon

/-- `resendRequested`. -/
def resendRequested (s : State α) : Bool := ¬ (s.resendRange.1 = 0 ∧ s.resendRange.2 = 0)

/-- `getExpectedSenderNum`. -/
def expectedSenderNum (s : State α) : ℕ := s.store.nextSenderMsgSeqNum

/-- `getExpectedTargetNum`. -/
def expectedTargetNum (s : State α) : ℕ := s.store.nextTargetMsgSeqNum

/-- `isTargetTooHigh`. -/
def isTargetTooHigh (s : State α) (msgSeqNum : ℕ) : Bool := s.expectedTargetNum < msgSeqNum

/-- `isTargetTooLow`. -/
def isTargetTooLow (s : State α) (msgSeqNum : ℕ) : Bool := msgSeqNum < s.expectedTargetNum

/-- `withinHeartBeat`. -/
def withinHeartBeat (s : State α) (now : UtcTimeStamp) : Bool :=
  now.sub s.lastSentTime < s.heartBtInt ∧ now.sub s.lastReceivedTime < s.heartBtInt

/-- `needHeartbeat`. -/
def needHeartbeat (s : State α) (now : UtcTimeStamp) : Bool :=
  s.heartBtInt ≤ now.sub s.lastSentTime ∧ s.testRequest = 0

end State

/-! ### What a session is built from -/

/-- The settings of a session. `isInSameRange` and `isLogonTime` are its `TimeRange`s. The
comparisons of a time with a part of the heartbeat interval are made with `double`, as
`timedOut` after so many seconds and `needTestRequest` after so many seconds and test
requests. -/
structure Settings where
  sessionID : FIX.SessionID
  initiate : Bool
  sendRedundantResendRequests : Bool
  checkCompId : Bool
  checkLatency : Bool
  maxLatency : ℤ
  logonTimeout : ℤ
  logoutTimeout : ℤ
  resetOnLogon : Bool
  resetOnLogout : Bool
  resetOnDisconnect : Bool
  persistMessages : Bool
  sendNextExpectedMsgSeqNum : Bool
  isNonStopSession : Bool
  isInSameRange : UtcTimeStamp → UtcTimeStamp → Bool
  isLogonTime : UtcTimeStamp → Bool
  timedOut : ℤ → ℤ → Bool
  needTestRequest : ℤ → ℕ → ℤ → Bool

/-- `Application`: what the callbacks do, after what the session has handed out so far.
`toAdmin` says which fields it adds to the header, `toApp` is `false` where it throws
`DoNotSend`, and `onLogon` says what it passes to `sendToTarget` if it does not throw. -/
structure Application (α : Type) where
  toAdmin : List (Output α) → Message α → List (ℕ × String)
  toApp : List (Output α) → Message α → Bool
  fromAdmin : List (Output α) → Message α → Except Exception Unit
  fromApp : List (Output α) → Message α → Except Exception Unit
  onLogon : List (Output α) → Except Exception (List (Message α))
  onLogout : List (Output α) → Except Exception Unit

/-- `Session`, as far as it does not change. `validate` is the check of the data dictionary. -/
structure Engine (α : Type) where
  settings : Settings
  application : Application α
  validate : Message α → Except Exception Unit

end Harjus.Session
