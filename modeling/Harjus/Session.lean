import Harjus.Lib.Effects
import Harjus.SessionState

/-!
# `Harjus.Session`: the session layer of the engine

`Session` (`flashfix/include/Session.h`, `flashfix/src/Session.cpp`) for a FIX 4 session: what it
does with a message, at a tick of its timer, and with a message that its application sends.

* A member function is a computation on the `State` that can throw an `Exception`. What it has
  done by then stays done.
* `nextQueued` calls `next` for the messages in the queue, and `next` calls `nextQueued`. Each
  message leaves the queue first, so the number of messages in the queue bounds the calls.
* `step` is a call from outside. An exception that leaves the session is dropped there.

The clock stands still during a call. The messages of the log and the branches for FIXT are left
out, and so are the fields that `reverseRoute` copies.
-/

set_option autoImplicit false

namespace Harjus.Session

open Harjus.Lib

variable {α : Type}

/-- A member function of a session. -/
abbrev SessionM (α β : Type) := EStateM Exception (State α) β

/-- `getField`, which throws where the field is not there. -/
def getField {β : Type} (field : ℕ) : Option β → SessionM α β
  | some value => pure value
  | none => throw (.fieldNotFound field)

/-- `if` without `else`. -/
def when (condition : Prop) [Decidable condition] (action : SessionM α Unit) : SessionM α Unit :=
  if condition then action else pure ()

/-- The result of a callback, which can throw. -/
def ofExcept {β : Type} : Except Exception β → SessionM α β
  | .ok value => pure value
  | .error e => throw e

/-- An entry of the history. -/
def emit (output : Output α) : SessionM α Unit :=
  modify fun s => { s with history := s.history ++ [output] }

section
variable (engine : Engine α) (now : UtcTimeStamp)

/-! ### Predicates on the state -/

/-- `checkSessionTime`. -/
def checkSessionTime (s : State α) : Bool :=
  engine.settings.isNonStopSession || engine.settings.isInSameRange now s.store.creationTime

/-- `shouldSendReset`. -/
def shouldSendReset (s : State α) : Bool :=
  "FIX.4.1" ≤ engine.settings.sessionID.beginString ∧
    (engine.settings.resetOnLogon ∨ engine.settings.resetOnLogout ∨
      engine.settings.resetOnDisconnect) ∧
    s.expectedSenderNum = 1 ∧ s.expectedTargetNum = 1

/-- `validLogonState`. -/
def validLogonState (s : State α) (body : Body α) : Bool :=
  (body.isLogon && s.sentReset) || s.receivedReset ||
  (body.isLogon && !s.receivedLogon) || (!body.isLogon && s.receivedLogon) ||
  (body.isLogout && s.sentLogon) ||
  (!body.isLogout && s.sentLogout) ||
  body.isSequenceReset || body.isReject

/-- `isGoodTime`. -/
def isGoodTime (sendingTime : UtcTimeStamp) : Bool :=
  !engine.settings.checkLatency || (now.sub sendingTime).natAbs ≤ engine.settings.maxLatency

/-- `isCorrectCompID`. -/
def isCorrectCompID (senderCompID targetCompID : String) : Bool :=
  !engine.settings.checkCompId ||
    engine.settings.sessionID.senderCompID = targetCompID &&
      engine.settings.sessionID.targetCompID = senderCompID

/-- `shouldSendLogon`. -/
def shouldSendLogon (s : State α) : Bool := engine.settings.initiate && !s.sentLogon

/-- `alreadySentLogon`. -/
def alreadySentLogon (s : State α) : Bool := engine.settings.initiate && s.sentLogon

/-- `logonTimedOut`. -/
def logonTimedOut (s : State α) : Bool :=
  engine.settings.logonTimeout ≤ now.sub s.lastReceivedTime

/-- `logoutTimedOut`. -/
def logoutTimedOut (s : State α) : Bool :=
  s.sentLogout && engine.settings.logoutTimeout ≤ now.sub s.lastSentTime

/-- `timedOut`. -/
def timedOut (s : State α) : Bool :=
  engine.settings.timedOut (now.sub s.lastReceivedTime) s.heartBtInt

/-- `needTestRequest`. -/
def needTestRequest (s : State α) : Bool :=
  engine.settings.needTestRequest (now.sub s.lastReceivedTime) s.testRequest s.heartBtInt

/-! ### The store and the responder -/

/-- `m_state.reset`. -/
def resetStore : SessionM α Unit := do
  emit .storeReset
  modify fun s => { s with store := .new now }

/-- `incrNextTargetMsgSeqNum`. -/
def incrNextTargetMsgSeqNum : SessionM α Unit := do
  when (SEQNUM_COUNT ≤ (← get).expectedTargetNum + 1) (emit .seqNumWrapped)
  modify fun s => { s with store := s.store.incrNextTargetMsgSeqNum }

/-- `setNextTargetMsgSeqNum`. -/
def setNextTargetMsgSeqNum (num : ℕ) : SessionM α Unit :=
  modify fun s => { s with store := s.store.setNextTargetMsgSeqNum num }

/-- The store after `persist`. -/
def persisted (store : MemoryStore α) (message : Message α) : MemoryStore α :=
  (if engine.settings.persistMessages then store.set message.seqNum message
    else store).incrNextSenderMsgSeqNum

/-- `persist`. -/
def persist (message : Message α) : SessionM α Unit :=
  modify fun s => { s with store := persisted engine s.store message }

/-- `send`, of a text to the responder. -/
def sendString (message : Message α) : SessionM α Unit := do
  when (← get).hasResponder do
    emit (.sent message)

/-- `disconnect`. -/
def disconnect : SessionM α Unit := do
  when (← get).hasResponder do
    emit .disconnected
    modify fun s => { s with hasResponder := false }
  let s ← get
  when (s.receivedLogon || s.sentLogon) do
    modify fun s => { s with receivedLogon := false, sentLogon := false }
    emit .onLogout
    ofExcept (engine.application.onLogout s.history)
  modify fun s =>
    { s with sentLogout := false, receivedReset := false, sentReset := false, queue := ∅ }
  when engine.settings.resetOnDisconnect (resetStore now)
  modify fun s => { s with resendRange := (0, 0) }

/-! ### Sending -/

/-- The header that `fill` leaves. -/
def filledHeader (s : State α) (header : Header) : Header :=
  { header with
      beginString := engine.settings.sessionID.beginString
      senderCompID := some engine.settings.sessionID.senderCompID
      targetCompID := some engine.settings.sessionID.targetCompID
      msgSeqNum := some s.expectedSenderNum
      sendingTime := some now }

/-- `fill`. -/
def fill (message : Message α) : SessionM α (Message α) := do
  modify fun s => { s with lastSentTime := now }
  return { message with header := filledHeader engine now (← get) message.header }

/-- What `sendRaw` does for a `Logon` after `toAdmin`: a `ResetSeqNumFlag` resets the store, and
the message gets the number that comes first then. -/
def resetForLogon (message : Message α) : SessionM α (Message α) := do
  if message.body.isLogon && !(← get).receivedReset then
    if message.body.resetSeqNumFlag then
      resetStore now
      let msgSeqNum := (← get).expectedSenderNum
      modify fun s => { s with sentReset := true }
      return { message with header := { message.header with msgSeqNum := some msgSeqNum } }
    else
      modify fun s => { s with sentReset := false }
      return message
  else return message

/-- A message of these types is sent before the session is logged on. -/
def sentBeforeLogon (body : Body α) : Bool :=
  body.isLogon || body.isLogout || body.isResendRequest || body.isSequenceReset

/-- The branch of `sendRaw` for administrative messages. -/
def sendAdmin (message : Message α) (num : ℕ) : SessionM α Bool := do
  let fields := engine.application.toAdmin (← get).history message
  let message ← resetForLogon now
    { message with header := { message.header with fields := message.header.fields ++ fields } }
  when (num = 0) (persist engine message)
  when (sentBeforeLogon message.body || (← get).isLoggedOn) (sendString message)
  return true

/-- The branch of `sendRaw` for application messages. -/
def sendApp (message : Message α) (num : ℕ) : SessionM α Bool := do
  let s ← get
  -- application messages are not sent if they will just be cleared
  if !s.isLoggedOn && shouldSendReset engine s then return false
  -- `DoNotSend`
  else if !engine.application.toApp s.history message then return false
  else
    when (num = 0) (persist engine message)
    when (← get).isLoggedOn (sendString message)
    return true

/-- `header.setField(MsgSeqNum(num))`. -/
def Message.setSeqNum (message : Message α) (num : ℕ) : Message α :=
  { message with header := { message.header with msgSeqNum := some num } }

/-- `sendRaw`. A `num` of 0 is none. -/
def sendRaw (message : Message α) (num : ℕ) : SessionM α Bool := do
  let message ← fill engine now message
  let message := if num = 0 then message else message.setSeqNum num
  if message.body.isAdmin then sendAdmin engine now message num
  else sendApp engine message num

/-- `send`, of a message of the application. -/
def send (message : Message α) : SessionM α Bool :=
  let header := { message.header with possDupFlag := none, origSendingTime := none }
  sendRaw engine now { message with header := header } 0

/-- What every `generate` function ends with: `fill` and `sendRaw`. -/
def fillAndSend (body : Body α) : SessionM α Unit := do
  let message ← fill engine now (.new body)
  let _ ← sendRaw engine now message 0

/-- `generateLogon`, before a logon has been received. -/
def generateLogon : SessionM α Unit := do
  when engine.settings.resetOnLogon (resetStore now)
  let s ← get
  let resetSeqNumFlag := if shouldSendReset engine s then some true else none
  let nextExpectedMsgSeqNum :=
    if engine.settings.sendNextExpectedMsgSeqNum then some s.expectedTargetNum else none
  modify fun s => { s with lastReceivedTime := now, testRequest := 0, sentLogon := true }
  fillAndSend engine now (.logon resetSeqNumFlag (some s.heartBtInt) nextExpectedMsgSeqNum)

/-- `generateLogon`, in answer to a logon with this `HeartBtInt`. -/
def generateLogonAnswer (heartBtInt : Option ℤ) : SessionM α Unit := do
  let s ← get
  let resetSeqNumFlag := if s.receivedReset then some true else none
  let heartBtInt ← getField 108 heartBtInt
  -- +1 because the incoming logon has not been counted yet
  let nextExpectedMsgSeqNum :=
    if engine.settings.sendNextExpectedMsgSeqNum then some (s.expectedTargetNum + 1) else none
  fillAndSend engine now (.logon resetSeqNumFlag (some heartBtInt) nextExpectedMsgSeqNum)
  modify fun s => { s with sentLogon := true }

/-- The `(int)` that `generateResendRequest` casts the number with, as `SEQNUM`. -/
def castInt (num : ℕ) : ℕ :=
  let low := num % 2 ^ 32
  if low < 2 ^ 31 then low else 2 ^ 64 - (2 ^ 32 - low)

/-- `generateResendRequest`. -/
def generateResendRequest (beginString : String) (msgSeqNum : ℕ) : SessionM α Unit := do
  let beginSeqNo := castInt (← get).expectedTargetNum
  let endSeqNo :=
    if "FIX.4.2" ≤ beginString then 0
    else if beginString ≤ "FIX.4.1" then 999999
    else msgSeqNum - 1
  fillAndSend engine now (.resendRequest (some beginSeqNo) (some endSeqNo))
  modify fun s => { s with resendRange := (beginSeqNo, msgSeqNum - 1) }

/-- The message of `generateSequenceReset`. -/
def gapFill (newSeqNo : ℕ) : Message α where
  header := { Header.empty with possDupFlag := some true }
  body := .sequenceReset (some true) (some newSeqNo)

/-- `generateSequenceReset`. -/
def generateSequenceReset (beginSeqNo endSeqNo : ℕ) : SessionM α Unit := do
  let message ← fill engine now (gapFill endSeqNo)
  let header := { message.header with origSendingTime := message.header.sendingTime }
  let _ ← sendRaw engine now (({ message with header := header }).setSeqNum beginSeqNo) beginSeqNo

/-- `generateHeartbeat`, with the `TestReqID` that it answers. -/
def generateHeartbeat (testReqID : Option String) : SessionM α Unit :=
  fillAndSend engine now (.heartbeat testReqID)

/-- `generateTestRequest`. -/
def generateTestRequest (id : String) : SessionM α Unit :=
  fillAndSend engine now (.testRequest (some id))

/-- `generateLogout`. -/
def generateLogout (text : String) : SessionM α Unit := do
  fillAndSend engine now (.logout (if text = "" then none else some text))
  modify fun s => { s with sentLogout := true }

/-- `reset`. -/
def reset : SessionM α Unit := do
  generateLogout engine now ""
  disconnect engine now
  resetStore now

/-! ### Rejects -/

/-- `SessionRejectReason`, as far as `Session` gives one. -/
inductive SessionRejectReason where
  | INVALID_TAG_NUMBER
  | REQUIRED_TAG_MISSING
  | TAG_NOT_DEFINED_FOR_THIS_MESSAGE_TYPE
  | TAG_SPECIFIED_WITHOUT_A_VALUE
  | VALUE_IS_INCORRECT
  | INCORRECT_DATA_FORMAT_FOR_VALUE
  | COMPID_PROBLEM
  | SENDINGTIME_ACCURACY_PROBLEM
  | INVALID_MSGTYPE
  | TAG_APPEARS_MORE_THAN_ONCE
  | TAG_SPECIFIED_OUT_OF_REQUIRED_ORDER
  | INCORRECT_NUMINGROUP_COUNT_FOR_REPEATING_GROUP
  deriving DecidableEq, Repr

namespace SessionRejectReason

/-- The number of a reason. -/
def value : SessionRejectReason → ℕ
  | INVALID_TAG_NUMBER => 0
  | REQUIRED_TAG_MISSING => 1
  | TAG_NOT_DEFINED_FOR_THIS_MESSAGE_TYPE => 2
  | TAG_SPECIFIED_WITHOUT_A_VALUE => 4
  | VALUE_IS_INCORRECT => 5
  | INCORRECT_DATA_FORMAT_FOR_VALUE => 6
  | COMPID_PROBLEM => 9
  | SENDINGTIME_ACCURACY_PROBLEM => 10
  | INVALID_MSGTYPE => 11
  | TAG_APPEARS_MORE_THAN_ONCE => 13
  | TAG_SPECIFIED_OUT_OF_REQUIRED_ORDER => 14
  | INCORRECT_NUMINGROUP_COUNT_FOR_REPEATING_GROUP => 16

/-- The text of a reason. -/
def text : SessionRejectReason → String
  | INVALID_TAG_NUMBER => "Invalid tag number"
  | REQUIRED_TAG_MISSING => "Required tag missing"
  | TAG_NOT_DEFINED_FOR_THIS_MESSAGE_TYPE => "Tag not defined for this message type"
  | TAG_SPECIFIED_WITHOUT_A_VALUE => "Tag specified without a value"
  | VALUE_IS_INCORRECT => "Value is incorrect (out of range) for this tag"
  | INCORRECT_DATA_FORMAT_FOR_VALUE => "Incorrect data format for value"
  | COMPID_PROBLEM => "CompID problem"
  | SENDINGTIME_ACCURACY_PROBLEM => "SendingTime accuracy problem"
  | INVALID_MSGTYPE => "Invalid MsgType"
  | TAG_APPEARS_MORE_THAN_ONCE => "Tag appears more than once"
  | TAG_SPECIFIED_OUT_OF_REQUIRED_ORDER => "Tag specified out of required order"
  | INCORRECT_NUMINGROUP_COUNT_FOR_REPEATING_GROUP =>
    "Incorrect NumInGroup count for repeating group"

end SessionRejectReason

/-- The body of a reject, as `generateReject` and `populateRejectReason` fill it. A `field` of 0
is none. -/
def rejectBody (message : Message α) (err : SessionRejectReason) (field : ℕ) : Body α :=
  let beginString := engine.settings.sessionID.beginString
  let hasRefMsgType : Bool := "FIX.4.2" ≤ beginString
  let hasReason : Bool :=
    beginString = "FIX.4.2" ∧ err.value ≤ SessionRejectReason.INVALID_MSGTYPE.value ∨
      "FIX.4.2" < beginString
  let withField : Bool := field ≠ 0 ∨ err = .INVALID_TAG_NUMBER
  .reject message.header.msgSeqNum
    (if hasRefMsgType && message.body.msgType ≠ "" then some message.body.msgType else none)
    (if hasRefMsgType && hasReason then some err.value else none)
    (if withField && hasRefMsgType then some field else none)
    (some (if withField && !hasRefMsgType then err.text ++ " (" ++ toString field ++ ")"
      else err.text))

/-- `generateReject`. -/
def generateReject (message : Message α) (err : SessionRejectReason) (field : ℕ) :
    SessionM α Unit := do
  let reject ← fill engine now (.new (rejectBody engine message err field))
  let s ← get
  when (!message.body.isLogon && !message.body.isSequenceReset) do
    match message.header.msgSeqNum with
    | some msgSeqNum => when (msgSeqNum = s.expectedTargetNum) incrNextTargetMsgSeqNum
    -- the value of a field without a text
    | none => throw (.incorrectDataFormat 34)
  when (!s.receivedLogon) (throw .exception)
  let _ ← sendRaw engine now reject 0

/-- `generateReject`, with a text and the `MsgSeqNum` that must be there. -/
def generateRejectText (message : Message α) (text : String) : SessionM α Unit := do
  let msgSeqNum ← getField 34 message.header.msgSeqNum
  let refMsgType :=
    if "FIX.4.2" ≤ engine.settings.sessionID.beginString then some message.body.msgType else none
  let reject ← fill engine now (.new (.reject (some msgSeqNum) refMsgType none none (some text)))
  when (!message.body.isLogon && !message.body.isSequenceReset) incrNextTargetMsgSeqNum
  let _ ← sendRaw engine now reject 0

/-- `BusinessRejectReason`, as far as `Session` gives one. -/
inductive BusinessRejectReason where
  | UNSUPPORTED_MESSAGE_TYPE
  | CONDITIONALLY_REQUIRED_FIELD_MISSING
  deriving DecidableEq, Repr

namespace BusinessRejectReason

/-- The number of a reason. -/
def value : BusinessRejectReason → ℕ
  | UNSUPPORTED_MESSAGE_TYPE => 3
  | CONDITIONALLY_REQUIRED_FIELD_MISSING => 5

/-- The text of a reason. -/
def text : BusinessRejectReason → String
  | UNSUPPORTED_MESSAGE_TYPE => "Unsupported Message Type"
  | CONDITIONALLY_REQUIRED_FIELD_MISSING => "Conditionally Required Field Missing"

end BusinessRejectReason

/-- `generateBusinessReject`. A `field` of 0 is none. -/
def generateBusinessReject (message : Message α) (err : BusinessRejectReason) (field : ℕ) :
    SessionM α Unit := do
  let msgSeqNum ← getField 34 message.header.msgSeqNum
  let text := if field = 0 then err.text else err.text ++ " (" ++ toString field ++ ")"
  let reject ← fill engine now
    (.new (.businessMessageReject message.body.msgType msgSeqNum err.value (some text)))
  incrNextTargetMsgSeqNum
  let _ ← sendRaw engine now reject 0

/-! ### Verification -/

/-- `doBadTime` and `doBadCompID`, with their reasons. -/
def rejectAndLogout (message : Message α) (err : SessionRejectReason) : SessionM α Unit := do
  generateReject engine now message err 0
  generateLogout engine now ""

/-- `doBadTime`. -/
def doBadTime (message : Message α) : SessionM α Unit :=
  rejectAndLogout engine now message .SENDINGTIME_ACCURACY_PROBLEM

/-- `doBadCompID`. -/
def doBadCompID (message : Message α) : SessionM α Unit :=
  rejectAndLogout engine now message .COMPID_PROBLEM

/-- `doPossDup`. -/
def doPossDup (message : Message α) : SessionM α Unit := do
  let sendingTime ← getField 52 message.header.sendingTime
  if message.body.isSequenceReset then pure ()
  else
    match message.header.origSendingTime with
    | none => generateReject engine now message .REQUIRED_TAG_MISSING 122
    | some origSendingTime =>
      when (sendingTime.nanos < origSendingTime.nanos) (doBadTime engine now message)

/-- `doTargetTooLow`. -/
def doTargetTooLow (message : Message α) : SessionM α Unit := do
  let msgSeqNum ← getField 34 message.header.msgSeqNum
  if !message.possDup then
    let expected := (← get).expectedTargetNum
    generateLogout engine now ("MsgSeqNum too low, expecting " ++ toString expected ++
      " but received " ++ toString msgSeqNum)
    throw .exception
  else doPossDup engine now message

/-- `m_state.queue`. -/
def queueMessage (msgSeqNum : ℕ) (message : Message α) : SessionM α Unit :=
  modify fun s => { s with queue := s.queue.insert msgSeqNum message }

/-- `doTargetTooHigh`. -/
def doTargetTooHigh (message : Message α) : SessionM α Unit := do
  let msgSeqNum ← getField 34 message.header.msgSeqNum
  queueMessage msgSeqNum message
  let s ← get
  if s.resendRequested && !engine.settings.sendRedundantResendRequests &&
      s.resendRange.1 ≤ msgSeqNum then pure ()
  else generateResendRequest engine now message.header.beginString msgSeqNum

/-- What `verify` checks of the number of a message. It is `false` where the number is too high or
too low. -/
def verifySeqNum (message : Message α) (checkTooHigh checkTooLow : Bool) (msgSeqNum : ℕ) :
    SessionM α Bool := do
  let s ← get
  if checkTooHigh && s.isTargetTooHigh msgSeqNum then
    doTargetTooHigh engine now message
    return false
  else if checkTooLow && s.isTargetTooLow msgSeqNum then
    doTargetTooLow engine now message
    return false
  else
    when ((checkTooHigh || checkTooLow) && s.resendRequested && s.resendRange.2 ≤ msgSeqNum) do
      -- the resend request has been satisfied
      modify fun s => { s with resendRange := (0, 0) }
    return true

/-- What `verify` checks of the fields of a header. -/
def verifyFields (message : Message α) (checkTooHigh checkTooLow : Bool)
    (senderCompID targetCompID : String) (sendingTime : UtcTimeStamp) (msgSeqNum : ℕ) :
    SessionM α Bool := do
  if !validLogonState (← get) message.body then throw .exception
  else if !isGoodTime engine now sendingTime then
    doBadTime engine now message
    return false
  else if !isCorrectCompID engine senderCompID targetCompID then
    doBadCompID engine now message
    return false
  else verifySeqNum engine now message checkTooHigh checkTooLow msgSeqNum

/-- The `try` block of `verify`. -/
def verifyHeader (message : Message α) (checkTooHigh checkTooLow : Bool) : SessionM α Bool := do
  let senderCompID ← getField 49 message.header.senderCompID
  let targetCompID ← getField 56 message.header.targetCompID
  let sendingTime ← getField 52 message.header.sendingTime
  let msgSeqNum ←
    (if checkTooHigh || checkTooLow then getField 34 message.header.msgSeqNum else pure 0)
  verifyFields engine now message checkTooHigh checkTooLow senderCompID targetCompID sendingTime
    msgSeqNum

/-- A callback that the session records with its outcome. -/
def callback (output : Bool → Output α) (result : Except Exception Unit) : SessionM α Unit :=
  match result with
  | .ok _ => emit (output true)
  | .error e => do
    emit (output false)
    throw e

/-- `fromCallback`. -/
def fromCallback (message : Message α) : SessionM α Unit := do
  let history := (← get).history
  if message.body.isAdmin then
    callback (.fromAdmin message) (engine.application.fromAdmin history message)
  else callback (.fromApp message) (engine.application.fromApp history message)

/-- `verify`. -/
def verify (message : Message α) (checkTooHigh checkTooLow : Bool) : SessionM α Bool := do
  let verified ← tryCatch (verifyHeader engine now message checkTooHigh checkTooLow) fun _ => do
    disconnect engine now
    return false
  if verified then
    modify fun s => { s with lastReceivedTime := now, testRequest := 0 }
    fromCallback engine message
    return true
  else return false

/-! ### Resending -/

/-- `resend`: the message with `PossDupFlag`, and whether the application lets it go. -/
def resend (message : Message α) : SessionM α (Bool × Message α) := do
  let sendingTime ← getField 52 message.header.sendingTime
  let header := { message.header with
    origSendingTime := some sendingTime
    possDupFlag := some true
    sendingTime := some now }
  let message := { message with header := header }
  return (engine.application.toApp (← get).history message, message)

/-- The variables of the loop of `generateRetransmits`. A `beginSeqNo` of 0 is none. -/
structure Retransmit where
  beginSeqNo : ℕ
  current : ℕ
  msgSeqNum : ℕ
  appMessageJustSent : Bool
  deriving DecidableEq, Repr

/-- The body of the loop of `generateRetransmits`. -/
def retransmit (r : Retransmit) (message : Message α) : SessionM α Retransmit := do
  let msgSeqNum := message.seqNum
  let beginSeqNo :=
    if r.current ≠ msgSeqNum ∧ r.beginSeqNo = 0 then r.current else r.beginSeqNo
  let orHere := if beginSeqNo = 0 then msgSeqNum else beginSeqNo
  if message.body.isAdmin then return ⟨orHere, msgSeqNum + 1, msgSeqNum, false⟩
  else
    let (resent, message) ← resend engine now message
    if resent then
      when (beginSeqNo ≠ 0) (generateSequenceReset engine now beginSeqNo msgSeqNum)
      sendString message
      return ⟨0, msgSeqNum + 1, msgSeqNum, true⟩
    else return ⟨orHere, msgSeqNum + 1, msgSeqNum, false⟩

/-- `generateRetransmits`. -/
def generateRetransmits (beginSeqNo endSeqNo : ℕ) : SessionM α Unit := do
  let messages := (← get).store.get beginSeqNo endSeqNo
  let r ← messages.foldlM (retransmit engine now) ⟨0, beginSeqNo, 0, false⟩
  when (r.beginSeqNo ≠ 0) (generateSequenceReset engine now r.beginSeqNo (r.msgSeqNum + 1))
  when (r.msgSeqNum < endSeqNo) do
    let next := (← get).expectedSenderNum
    generateSequenceReset engine now
      (if r.appMessageJustSent then r.msgSeqNum + 1 else beginSeqNo) (min (endSeqNo + 1) next)

/-- What `nextResendRequest` and `nextLogon` do with a range of numbers that have been sent. -/
def retransmitRange (beginSeqNo endSeqNo : ℕ) : SessionM α Unit := do
  if engine.settings.persistMessages then generateRetransmits engine now beginSeqNo endSeqNo
  else
    let next := (← get).expectedSenderNum
    generateSequenceReset engine now beginSeqNo (min (endSeqNo + 1) next)

/-! ### Messages by their types

`drain` is `nextQueued`. -/

variable (drain : SessionM α Unit)

/-- `nextHeartbeat` and `nextReject`, after `verify` with these checks. -/
def verifyAndCount (message : Message α) (checkTooHigh : Bool) : SessionM α Unit := do
  let verified ← verify engine now message checkTooHigh true
  when verified do
    incrNextTargetMsgSeqNum
    drain

/-- `nextHeartbeat`. -/
def nextHeartbeat (message : Message α) : SessionM α Unit :=
  verifyAndCount engine now drain message true

/-- `nextReject`. -/
def nextReject (message : Message α) : SessionM α Unit :=
  verifyAndCount engine now drain message false

/-- `nextTestRequest`. -/
def nextTestRequest (message : Message α) (testReqID : Option String) : SessionM α Unit := do
  let verified ← verify engine now message true true
  when verified do
    generateHeartbeat engine now testReqID
    incrNextTargetMsgSeqNum
    drain

/-- `nextLogout`. -/
def nextLogout (message : Message α) : SessionM α Unit := do
  let verified ← verify engine now message false false
  when verified do
    when (!(← get).sentLogout) (generateLogout engine now "")
    incrNextTargetMsgSeqNum
    when engine.settings.resetOnLogout (resetStore now)
    disconnect engine now

/-- `nextSequenceReset`. -/
def nextSequenceReset (message : Message α) (gapFillFlag : Option Bool)
    (newSeqNo : Option ℕ) : SessionM α Unit := do
  let isGapFill := gapFillFlag.getD false
  let verified ← verify engine now message isGapFill isGapFill
  when verified do
    match newSeqNo with
    | none => pure ()
    | some newSeqNo =>
      let expected := (← get).expectedTargetNum
      if expected < newSeqNo then setNextTargetMsgSeqNum newSeqNo
      else when (newSeqNo < expected) (generateReject engine now message .VALUE_IS_INCORRECT 0)

/-- The last number that `nextResendRequest` takes for an `EndSeqNo`. -/
def lastRequested (s : State α) (endSeqNo : ℕ) : ℕ :=
  let beginString := engine.settings.sessionID.beginString
  if "FIX.4.2" ≤ beginString ∧ endSeqNo = 0 ∨ beginString ≤ "FIX.4.2" ∧ endSeqNo = 999999 ∨
      s.expectedSenderNum ≤ endSeqNo then
    s.expectedSenderNum - 1
  else endSeqNo

/-- `nextResendRequest`. -/
def nextResendRequest (message : Message α) (beginSeqNo endSeqNo : Option ℕ) :
    SessionM α Unit := do
  let verified ← verify engine now message false false
  when verified do
    let beginSeqNo ← getField 7 beginSeqNo
    let endSeqNo ← getField 16 endSeqNo
    let last := lastRequested engine (← get) endSeqNo
    retransmitRange engine now beginSeqNo last
    let msgSeqNum ← getField 34 message.header.msgSeqNum
    when (msgSeqNum = (← get).expectedTargetNum) incrNextTargetMsgSeqNum

/-- The end of `nextLogon`, for the number of a logon. -/
def countLogon (message : Message α) (resetSeqNumFlag : Bool) : SessionM α Unit := do
  let msgSeqNum ← getField 34 message.header.msgSeqNum
  let s ← get
  if s.isTargetTooHigh msgSeqNum && !resetSeqNumFlag then
    if engine.settings.sendNextExpectedMsgSeqNum then
      queueMessage msgSeqNum message
      modify fun s => { s with resendRange := (s.expectedTargetNum, msgSeqNum - 1) }
    else doTargetTooHigh engine now message
  else
    incrNextTargetMsgSeqNum
    drain

/-- The call of `onLogon`, and of `sendToTarget` from there. -/
def notifyLogon : SessionM α Unit := do
  let s ← get
  when s.isLoggedOn do
    emit .onLogon
    let messages ← ofExcept (engine.application.onLogon s.history)
    messages.forM fun message => do
      let _ ← send engine now message

/-- What `nextLogon` does after `verify`. -/
def acceptLogon (message : Message α) (resetSeqNumFlag : Bool) (heartBtInt : Option ℤ)
    (nextExpectedMsgSeqNum : Option ℕ) : SessionM α Unit := do
  modify fun s => { s with receivedLogon := true }
  let expected := (← get).expectedSenderNum
  -- without the field nothing is expected
  let nextExpected := nextExpectedMsgSeqNum.getD expected
  if expected < nextExpected then
    generateLogout engine now ("NextExpectedMsgSeqNum too high, expecting " ++
      toString expected ++ " but received " ++ toString nextExpected)
    disconnect engine now
  else
    let s ← get
    when (!engine.settings.initiate || (s.receivedReset && !s.sentReset)) do
      modify fun s => { s with heartBtInt := heartBtInt.getD s.heartBtInt }
      generateLogonAnswer engine now heartBtInt
    modify fun s => { s with sentReset := false, receivedReset := false }
    countLogon engine now drain message resetSeqNumFlag
    notifyLogon engine now
    when (nextExpected < expected) do
      retransmitRange engine now nextExpected ((← get).expectedSenderNum - 1)

/-- `nextLogon`. -/
def nextLogon (message : Message α) (resetSeqNumFlag : Option Bool) (heartBtInt : Option ℤ)
    (nextExpectedMsgSeqNum : Option ℕ) : SessionM α Unit := do
  let resetSeqNumFlag := resetSeqNumFlag.getD false
  if !(← get).enabled then disconnect engine now
  else if !engine.settings.isLogonTime now then disconnect engine now
  else
    modify fun s => { s with receivedReset := resetSeqNumFlag }
    when (resetSeqNumFlag && !(← get).sentReset) (resetStore now)
    if shouldSendLogon engine (← get) && !resetSeqNumFlag then disconnect engine now
    else
      when (!engine.settings.initiate && engine.settings.resetOnLogon) (resetStore now)
      let verified ← verify engine now message false true
      when verified
        (acceptLogon engine now drain message resetSeqNumFlag heartBtInt nextExpectedMsgSeqNum)

/-! ### `next` -/

/-- `next` of a time: the timer. The exception that it catches is thrown by no modelled call. -/
def nextTimer : SessionM α Unit := do
  if !checkSessionTime engine now (← get) then reset engine now
  else
    let logonAllowed := (← get).enabled && engine.settings.isLogonTime now
    if !logonAllowed && !(← get).isLoggedOn then pure ()
    else
      let s ← get
      when (!logonAllowed && !s.sentLogout) (generateLogout engine now s.logoutReason)
      let s ← get
      if !s.receivedLogon then
        if shouldSendLogon engine s && engine.settings.isLogonTime now then
          generateLogon engine now
        else when (alreadySentLogon engine s && logonTimedOut engine now s) (disconnect engine now)
      else if s.heartBtInt = 0 then pure ()
      else
        when (logoutTimedOut engine now s) (disconnect engine now)
        let s ← get
        if s.withinHeartBeat now then pure ()
        else if timedOut engine now s then disconnect engine now
        else if needTestRequest engine now s then
          generateTestRequest engine now "TEST"
          modify fun s => { s with testRequest := s.testRequest + 1 }
        else when (s.needHeartbeat now) (generateHeartbeat engine now none)

/-- `LOGEX`. -/
def logex (action : SessionM α Unit) : SessionM α Unit := tryCatch action fun _ => pure ()

/-- The branch of `next` for an application message. -/
def nextApp (message : Message α) : SessionM α Bool := do
  let verified ← verify engine now message true true
  when verified incrNextTargetMsgSeqNum
  return verified

/-- The branch of `next` for the type of a message. -/
def nextOfType (message : Message α) : SessionM α Bool :=
  match message.body with
  | .logon resetSeqNumFlag heartBtInt nextExpectedMsgSeqNum => do
    nextLogon engine now drain message resetSeqNumFlag heartBtInt nextExpectedMsgSeqNum
    return true
  | .heartbeat _ => do
    nextHeartbeat engine now drain message
    return true
  | .testRequest testReqID => do
    nextTestRequest engine now drain message testReqID
    return true
  | .sequenceReset gapFillFlag newSeqNo => do
    nextSequenceReset engine now message gapFillFlag newSeqNo
    return true
  | .logout _ => do
    nextLogout engine now message
    return true
  | .resendRequest beginSeqNo endSeqNo => do
    nextResendRequest engine now message beginSeqNo endSeqNo
    return true
  | .reject _ _ _ _ _ => do
    nextReject engine now drain message
    return true
  | .businessMessageReject _ _ _ _ | .app _ _ => nextApp engine now message

/-- The `try` block of `next` of a message. It is `false` where `next` returns from there. -/
def dispatch (message : Message α) : SessionM α Bool := do
  if !checkSessionTime engine now (← get) then
    reset engine now
    return false
  else
    let _ ← getField 49 message.header.senderCompID
    let _ ← getField 56 message.header.targetCompID
    when (message.header.beginString ≠ engine.settings.sessionID.beginString)
      (throw .unsupportedVersion)
    ofExcept (engine.validate message)
    nextOfType engine now drain message

/-- The `catch` clauses of `next` of a message. -/
def handle (message : Message α) : Exception → SessionM α Unit
  | .messageParseError => pure ()
  | .requiredTagMissing field =>
    logex (generateReject engine now message .REQUIRED_TAG_MISSING field)
  | .fieldNotFound field => do
    if "FIX.4.2" ≤ message.header.beginString ∧ !message.body.isAdmin then
      logex (generateBusinessReject engine now message .CONDITIONALLY_REQUIRED_FIELD_MISSING field)
    else
      logex (generateReject engine now message .REQUIRED_TAG_MISSING field)
      when message.body.isLogon (disconnect engine now)
  | .invalidTagNumber field =>
    logex (generateReject engine now message .INVALID_TAG_NUMBER field)
  | .noTagValue field =>
    logex (generateReject engine now message .TAG_SPECIFIED_WITHOUT_A_VALUE field)
  | .tagNotDefinedForMessage field =>
    logex (generateReject engine now message .TAG_NOT_DEFINED_FOR_THIS_MESSAGE_TYPE field)
  | .invalidMessageType => logex (generateReject engine now message .INVALID_MSGTYPE 0)
  | .unsupportedMessageType =>
    if "FIX.4.2" ≤ message.header.beginString then
      logex (generateBusinessReject engine now message .UNSUPPORTED_MESSAGE_TYPE 0)
    else logex (generateRejectText engine now message "Unsupported message type")
  | .tagOutOfOrder field =>
    logex (generateReject engine now message .TAG_SPECIFIED_OUT_OF_REQUIRED_ORDER field)
  | .incorrectDataFormat field =>
    logex (generateReject engine now message .INCORRECT_DATA_FORMAT_FOR_VALUE field)
  | .incorrectTagValue field =>
    logex (generateReject engine now message .VALUE_IS_INCORRECT field)
  | .repeatedTag field =>
    logex (generateReject engine now message .TAG_APPEARS_MORE_THAN_ONCE field)
  | .repeatingGroupCountMismatch field =>
    logex (generateReject engine now message .INCORRECT_NUMINGROUP_COUNT_FOR_REPEATING_GROUP field)
  | .invalidMessage => pure ()
  | .rejectLogon what => do
    generateLogout engine now what
    disconnect engine now
  | .unsupportedVersion =>
    if message.body.isLogout then nextLogout engine now message
    else do
      generateLogout engine now "Incorrect BeginString"
      incrNextTargetMsgSeqNum
  | .ioException => disconnect engine now
  | .exception => throw .exception

/-- `next` of a message. -/
def next (message : Message α) (queued : Bool) : SessionM α Unit := do
  let continues ← tryCatch (dispatch engine now drain message) fun e => do
    handle engine now message e
    return true
  when continues do
    when (!queued) drain
    when (← get).isLoggedOn (nextTimer engine now)

/-- `m_state.retrieve`. -/
def retrieve (num : ℕ) : SessionM α (Option (Message α)) := do
  match (← get).queue.lookup num with
  | none => return none
  | some message =>
    modify fun s => { s with queue := s.queue.erase num }
    return some message

/-- What `nextQueued` does with a message from the queue. -/
def nextRetrieved (message : Message α) : SessionM α Unit :=
  if message.body.isLogon || message.body.isResendRequest then incrNextTargetMsgSeqNum
  else next engine now drain message true

/-- `nextQueued`, for so many messages at most. -/
def nextQueued : ℕ → SessionM α Unit
  | 0 => pure ()
  | count + 1 => do
    let retrieved ← retrieve (← get).expectedTargetNum
    match retrieved with
    | none => pure ()
    | some message =>
      nextRetrieved engine now (nextQueued count) message
      nextQueued count

/-- `nextQueued`. -/
def nextQueuedAll : SessionM α Unit := do
  nextQueued engine now (← get).queue.keys.card

/-! ### Calls from outside -/

/-- A call of a session: by its connection, by the initiator, or by the application. -/
inductive Input (α : Type) where
  | setResponder (connected : Bool)
  | next (message : Message α)
  | nextInvalid (isLogon : Bool)
  | timer
  | send (message : Message α)
  | disconnect
  | logon
  | logout (reason : String)
  deriving DecidableEq, Repr

/-- What the session does at a call. `nextInvalid` is `next` of a text that is no message. -/
def call : Input α → SessionM α Unit
  | .setResponder connected => do
    when (!checkSessionTime engine now (← get)) (reset engine now)
    modify fun s => { s with hasResponder := connected }
  | .next message => next engine now (nextQueuedAll engine now) message false
  | .nextInvalid isLogon => do
    when isLogon (disconnect engine now)
    throw .invalidMessage
  | .timer => nextTimer engine now
  | .send message => do
    let _ ← send engine now message
  | .disconnect => disconnect engine now
  | .logon => modify fun s => { s with enabled := true, logoutReason := "" }
  | .logout reason => modify fun s => { s with enabled := false, logoutReason := reason }

end

/-- The state after a call at a time, whether it returns or throws. -/
def step (engine : Engine α) (s : State α) (input : UtcTimeStamp × Input α) : State α :=
  after (call engine input.1 input.2) s

/-- The state after a run of calls. -/
def run (engine : Engine α) (s : State α) (inputs : List (UtcTimeStamp × Input α)) : State α :=
  inputs.foldl (step engine) s

/-- A run over inputs in a row goes on where the first ones ended. -/
theorem run_append (engine : Engine α) (s : State α)
    (inputs inputs' : List (UtcTimeStamp × Input α)) :
    run engine s (inputs ++ inputs') = run engine (run engine s inputs) inputs' :=
  List.foldl_append

/-! ### A session for any content -/

/-- A non-stop session with the defaults of `Session`, whose application takes and sends
everything. -/
def Engine.plain (sender target : String) : Engine α where
  settings :=
    { sessionID := ⟨"FIX.4.4", sender, target, ""⟩
      initiate := true
      sendRedundantResendRequests := false
      checkCompId := true
      checkLatency := true
      maxLatency := 120
      logonTimeout := 10
      logoutTimeout := 2
      resetOnLogon := false
      resetOnLogout := false
      resetOnDisconnect := false
      persistMessages := true
      sendNextExpectedMsgSeqNum := false
      isNonStopSession := true
      isInSameRange := fun _ _ => true
      isLogonTime := fun _ => true
      timedOut := fun _ _ => false
      needTestRequest := fun _ _ _ => false }
  application :=
    { toAdmin := fun _ _ => []
      toApp := fun _ _ => true
      fromAdmin := fun _ _ => .ok ()
      fromApp := fun _ _ => .ok ()
      onLogon := fun _ => .ok []
      onLogout := fun _ => .ok () }
  validate := fun _ => .ok ()

/-- The header of a message that is sent at 0. -/
def plainHeader (sender target : String) (num : ℕ) : Header :=
  ⟨"FIX.4.4", some sender, some target, some num, some ⟨0⟩, none, none, []⟩

/-- A logon with the number 1. -/
def plainLogon (sender target : String) : Message α :=
  ⟨plainHeader sender target 1, .logon none (some 30) none⟩

/-- A run in which a session is logged on. -/
def plainRun (peer self : String) : List (UtcTimeStamp × Input α) :=
  [(⟨0⟩, .setResponder true), (⟨0⟩, .timer), (⟨0⟩, .next (plainLogon peer self))]

end Harjus.Session
