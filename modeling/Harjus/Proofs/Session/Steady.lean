import Harjus.Lib.Reorder
import Harjus.Proofs.Session.Moves

/-!
# `Harjus.Proofs.Session.Steady`: a session that is logged on

What a session does with a message while it is logged on and in time (`Steady`), for the messages
that it counts by their numbers (`Acceptable`).

* `State.buffer`: a session as a receiver that puts messages into order (`Harjus.Lib.Reorder`).
* `fillAndSend_run`: what the session sends itself, and the state that this leaves.
* `nextTimer_run`: the timer sends at most a heartbeat.
* `verify_expected`, `verify_tooHigh` and `verify_tooLow`: the check of a message with the expected
  number, with a higher one, and with a lower one for a second time.

`Quiet` says that two states are the same for a receiver. What a session sends is quiet.
-/

set_option autoImplicit false

namespace Harjus.Session

open Harjus.Lib

variable {α : Type}

/-! ### A session as a receiver -/

/-- A body that is counted by its number, and that waits where its number is too high. -/
def Body.isCounted : Body α → Bool
  | .heartbeat _ | .testRequest _ | .sequenceReset (some true) (some _)
  | .businessMessageReject _ _ _ _ | .app _ _ => true
  | _ => false

/-- The number after a message. A gap fill says which it is. -/
def Message.nextNum (message : Message α) : ℕ :=
  match message.body with
  | .sequenceReset (some true) (some newSeqNo) => newSeqNo
  | _ => message.seqNum + 1

/-- The message of an entry that has been handed to the application, and that it has accepted. -/
def Output.handed : Output α → Option (Message α)
  | .fromApp message true => some message
  | .fromAdmin message true => some message
  | _ => none

/-- The entry for a message that the application accepts. -/
def Output.ofAccepted (message : Message α) : Output α :=
  if message.body.isAdmin then .fromAdmin message true else .fromApp message true

/-- What is handed over in an output of an accepted message. -/
@[simp] theorem handed_ofAccepted (message : Message α) :
    (Output.ofAccepted message).handed = some message := by
  unfold Output.ofAccepted
  split <;> rfl

/-- What has been handed to the application. -/
def State.handed (s : State α) : List (Message α) := s.history.filterMap Output.handed

/-- A session as a receiver: the expected number, the queue, and what has been handed over. -/
def State.buffer (s : State α) : Buffer (Message α) := ⟨s.expectedTargetNum, s.queue, s.handed⟩

/-- A message that is for a session, has a number, and is in time at any of the `times`. -/
structure Addressed (engine : Engine α) (times : Set UtcTimeStamp) (message : Message α) :
    Prop where
  beginString : message.header.beginString = engine.settings.sessionID.beginString
  senderCompID : message.header.senderCompID = some engine.settings.sessionID.targetCompID
  targetCompID : message.header.targetCompID = some engine.settings.sessionID.senderCompID
  sendingTime : ∃ time, message.header.sendingTime = some time ∧
    ∀ now ∈ times, isGoodTime engine now time
  msgSeqNum : message.header.msgSeqNum.isSome

/-- An `Addressed` message that the dictionary and the application of a session take. -/
structure Welcome (engine : Engine α) (times : Set UtcTimeStamp) (message : Message α) : Prop
    extends Addressed engine times message where
  validate : engine.validate message = .ok ()
  accepted : ∀ history, (if message.body.isAdmin then
      engine.application.fromAdmin history message
    else engine.application.fromApp history message) = .ok ()

/-- A `Welcome` message that a session counts, below the end of `SEQNUM`. -/
structure Acceptable (engine : Engine α) (times : Set UtcTimeStamp) (message : Message α) : Prop
    extends Welcome engine times message where
  counted : message.body.isCounted
  forward : message.seqNum < message.nextNum
  bounded : message.nextNum < SEQNUM_COUNT

/-- The session is logged on and stays so during `times`: they are within the session's hours, and
no two of them are so far apart that the timer asks whether the other side is still there. -/
structure Steady (engine : Engine α) (times : Set UtcTimeStamp) (s : State α) : Prop where
  enabled : s.enabled
  receivedLogon : s.receivedLogon
  sentLogon : s.sentLogon
  sentLogout : s.sentLogout = false
  testRequest : s.testRequest = 0
  lastReceivedTime : s.lastReceivedTime ∈ times
  sessionTime : ∀ now ∈ times, checkSessionTime engine now s
  logonTime : ∀ now ∈ times, engine.settings.isLogonTime now
  alive : ∀ now ∈ times, ∀ time ∈ times,
    engine.settings.timedOut (now.sub time) s.heartBtInt = false ∧
      engine.settings.needTestRequest (now.sub time) 0 s.heartBtInt = false

/-- Two states that are the same for a receiver. -/
structure Quiet (s s' : State α) : Prop where
  enabled : s'.enabled = s.enabled
  receivedLogon : s'.receivedLogon = s.receivedLogon
  sentLogon : s'.sentLogon = s.sentLogon
  sentLogout : s'.sentLogout = s.sentLogout
  testRequest : s'.testRequest = s.testRequest
  lastReceivedTime : s'.lastReceivedTime = s.lastReceivedTime
  heartBtInt : s'.heartBtInt = s.heartBtInt
  creationTime : s'.store.creationTime = s.store.creationTime
  buffer : s'.buffer = s.buffer

variable {engine : Engine α} {times : Set UtcTimeStamp}

/-- A state is the same for a receiver as itself. -/
theorem Quiet.refl (s : State α) : Quiet s s := ⟨rfl, rfl, rfl, rfl, rfl, rfl, rfl, rfl, rfl⟩

/-- Being the same for a receiver is transitive. -/
theorem Quiet.trans {s s' s'' : State α} (h : Quiet s s') (h' : Quiet s' s'') : Quiet s s'' where
  enabled := h'.enabled.trans h.enabled
  receivedLogon := h'.receivedLogon.trans h.receivedLogon
  sentLogon := h'.sentLogon.trans h.sentLogon
  sentLogout := h'.sentLogout.trans h.sentLogout
  testRequest := h'.testRequest.trans h.testRequest
  lastReceivedTime := h'.lastReceivedTime.trans h.lastReceivedTime
  heartBtInt := h'.heartBtInt.trans h.heartBtInt
  creationTime := h'.creationTime.trans h.creationTime
  buffer := h'.buffer.trans h.buffer

/-- A state that is the same for a receiver is as steady. -/
theorem Steady.of_quiet {s s' : State α} (hs : Steady engine times s) (h : Quiet s s') :
    Steady engine times s' where
  enabled := h.enabled ▸ hs.enabled
  receivedLogon := h.receivedLogon ▸ hs.receivedLogon
  sentLogon := h.sentLogon ▸ hs.sentLogon
  sentLogout := h.sentLogout ▸ hs.sentLogout
  testRequest := h.testRequest ▸ hs.testRequest
  lastReceivedTime := h.lastReceivedTime ▸ hs.lastReceivedTime
  sessionTime now hnow := by
    rw [checkSessionTime, h.creationTime]
    exact hs.sessionTime now hnow
  logonTime := hs.logonTime
  alive := h.heartBtInt ▸ hs.alive

/-- A steady session is logged on. -/
theorem Steady.isLoggedOn {s : State α} (hs : Steady engine times s) : s.isLoggedOn := by
  rw [State.isLoggedOn, hs.receivedLogon, hs.sentLogon]
  rfl

/-- A non-stop session without deadlines is steady at a time where its flags say so. -/
theorem steady_of_flags {now : UtcTimeStamp} (hnonStop : engine.settings.isNonStopSession)
    (hlogonTime : engine.settings.isLogonTime now)
    (halive : ∀ elapsed heartBtInt, engine.settings.timedOut elapsed heartBtInt = false ∧
      engine.settings.needTestRequest elapsed 0 heartBtInt = false) {s : State α}
    (hflags : (s.enabled, s.receivedLogon, s.sentLogon, s.sentLogout, s.testRequest,
      s.lastReceivedTime) = (true, true, true, false, 0, now)) : Steady engine {now} s := by
  obtain ⟨henabled, hreceived, hsent, hlogout, htest, htime⟩ := by
    simpa only [Prod.mk.injEq] using hflags
  refine ⟨henabled, hreceived, hsent, hlogout, htest, htime, fun time _ => ?_, fun time h => ?_,
    fun _ _ _ _ => halive _ _⟩
  · rw [checkSessionTime, hnonStop]
    rfl
  · rw [show time = now from h]
    exact hlogonTime

/-- What has been handed over, with one more output. -/
theorem handed_append (s : State α) (output : Output α) :
    (s.history ++ [output]).filterMap Output.handed = s.handed ++ output.handed.toList := by
  rw [List.filterMap_append, State.handed]
  cases h : output.handed <;> simp [h]

/-! ### Sending -/

variable (now : UtcTimeStamp)

/-- A quiet computation is quiet under a condition. -/
theorem when_quiet {condition : Prop} [Decidable condition] {action : SessionM α Unit}
    {s : State α} (h : ∃ s', action s = .ok ⟨⟩ s' ∧ Quiet s s') :
    ∃ s', when condition action s = .ok ⟨⟩ s' ∧ Quiet s s' := by
  unfold when
  split
  · exact h
  · exact ⟨s, rfl, .refl s⟩

/-- A message that a session makes itself, with the number that it is given and the fields that the
application adds. -/
def generatedMessage (engine : Engine α) (now : UtcTimeStamp) (num : ℕ) (body : Body α)
    (fields : List (ℕ × String)) : Message α where
  header :=
    { beginString := engine.settings.sessionID.beginString
      senderCompID := some engine.settings.sessionID.senderCompID
      targetCompID := some engine.settings.sessionID.targetCompID
      msgSeqNum := some num
      sendingTime := some now
      possDupFlag := none
      origSendingTime := none
      fields := fields }
  body := body

/-- The state after a message with the next number has been stored, and has been sent if the session
is connected and may send it. -/
def State.afterGenerating (s : State α) (engine : Engine α) (now : UtcTimeStamp)
    (message : Message α) : State α :=
  { s with
    lastSentTime := now
    store := persisted engine s.store message
    history :=
      if s.hasResponder && (sentBeforeLogon message.body || s.isLoggedOn) then
        s.history ++ [.sent message]
      else s.history }

/-- A message of the session's own goes out where there is a connection and the session is logged
on, or its kind may go before. -/
theorem history_afterGenerating (engine : Engine α) {s : State α} {message : Message α}
    (hresponder : s.hasResponder) (hmay : sentBeforeLogon message.body ∨ s.isLoggedOn) :
    (s.afterGenerating engine now message).history = s.history ++ [.sent message] :=
  if_pos (by simp [hresponder, hmay])

/-- Sending a message of its own is nothing to the receiver. -/
theorem quiet_afterGenerating (engine : Engine α) (s : State α) (message : Message α) :
    Quiet s (s.afterGenerating engine now message) := by
  refine ⟨rfl, rfl, rfl, rfl, rfl, rfl, rfl, ?_, ?_⟩
  · show (persisted engine s.store message).creationTime = _
    unfold persisted
    split <;> rfl
  · have hhanded : (s.afterGenerating engine now message).handed = s.handed := by
      rw [State.handed, State.afterGenerating]
      split
      · rw [handed_append]
        exact List.append_nil _
      · rfl
    show (⟨(persisted engine s.store message).nextTargetMsgSeqNum, s.queue,
      (s.afterGenerating engine now message).handed⟩ : Buffer (Message α)) = _
    rw [nextTargetMsgSeqNum_persisted, hhanded]
    rfl

/-- What `sendAdmin` does with a message that is no logon. -/
theorem sendAdmin_run (engine : Engine α) {body : Body α} (hlogon : body.isLogon = false) (num : ℕ)
    (s : State α) :
    ∃ fields, sendAdmin engine now (generatedMessage engine now num body []) 0
      { s with lastSentTime := now }
      = .ok true (s.afterGenerating engine now (generatedMessage engine now num body fields)) := by
  let s₁ : State α := { s with lastSentTime := now }
  refine ⟨engine.application.toAdmin s.history (generatedMessage engine now num body []), ?_⟩
  generalize hfields : engine.application.toAdmin s.history
    (generatedMessage engine now num body []) = fields
  let message : Message α := generatedMessage engine now num body fields
  have hreset : resetForLogon now message s₁ = .ok message s₁ := by
    rw [resetForLogon, get_bind, if_neg (by simp [message, generatedMessage, hlogon])]
    rfl
  have hadded : sendAdmin engine now (generatedMessage engine now num body []) 0 s₁ = (do
      let message ← resetForLogon now message
      when (0 = 0) (persist engine message)
      when (sentBeforeLogon message.body || (← get).isLoggedOn) (sendString message)
      return true) s₁ := by
    rw [sendAdmin, get_bind, hfields]
    rfl
  have hpersist : when (0 = 0) (persist engine message) s₁
      = .ok ⟨⟩ { s₁ with store := persisted engine s.store message } := by
    rw [when, if_pos rfl]
    rfl
  -- The message is stored under its number, and written if the session may send it.
  rw [hadded, bind_of_ok hreset, bind_of_ok hpersist, get_bind, State.afterGenerating]
  show ((when (sentBeforeLogon body || s.isLoggedOn) (sendString message)) >>= fun _ => pure true)
    { s₁ with store := persisted engine s.store message } = _
  cases hcondition : (sentBeforeLogon body || s.isLoggedOn) with
  | true =>
    rw [when, if_pos rfl, bind_of_ok (sendString_run message _)]
    show EStateM.Result.ok true { s₁ with
      store := persisted engine s.store message
      history := if s.hasResponder then s.history ++ [Output.sent message] else s.history } = _
    have hsent : (s.hasResponder && (sentBeforeLogon message.body || s.isLoggedOn))
        = s.hasResponder := (congrArg (s.hasResponder && ·) hcondition).trans (Bool.and_true _)
    rw [hsent]
  | false =>
    rw [when, if_neg (by simp), pure_bind_run]
    have hsent : (s.hasResponder && (sentBeforeLogon message.body || s.isLoggedOn)) = false :=
      (congrArg (s.hasResponder && ·) hcondition).trans (Bool.and_false _)
    rw [hsent]
    rfl

/-- What `sendRaw` does with a message that `fill` has completed. -/
theorem sendRaw_run (engine : Engine α) {body : Body α} (hadmin : body.isAdmin)
    (hlogon : body.isLogon = false) (s : State α) :
    ∃ fields, sendRaw engine now (generatedMessage engine now s.expectedSenderNum body []) 0 s
      = .ok true (s.afterGenerating engine now
        (generatedMessage engine now s.expectedSenderNum body fields)) := by
  obtain ⟨fields, hrun⟩ := sendAdmin_run now engine hlogon s.expectedSenderNum s
  refine ⟨fields, ?_⟩
  rw [sendRaw, bind_of_ok (fill_run now _ _), if_pos rfl]
  show (if body.isAdmin then
    sendAdmin engine now (generatedMessage engine now s.expectedSenderNum body []) 0
    else sendApp engine _ 0) { s with lastSentTime := now } = _
  rw [if_pos hadmin]
  exact hrun

/-- What a session sends itself, but for a logon. -/
theorem fillAndSend_run {body : Body α} (hadmin : body.isAdmin) (hlogon : body.isLogon = false)
    (s : State α) :
    ∃ fields, fillAndSend engine now body s = .ok ⟨⟩ (s.afterGenerating engine now
      (generatedMessage engine now s.expectedSenderNum body fields)) := by
  obtain ⟨fields, hrun⟩ := sendRaw_run now engine hadmin hlogon { s with lastSentTime := now }
  refine ⟨fields, ?_⟩
  rw [fillAndSend, bind_of_ok (fill_run now (.new body) s)]
  exact bind_of_ok hrun

/-- A heartbeat is sent, and nothing else happens. -/
theorem generateHeartbeat_run (engine : Engine α) (testReqID : Option String) (s : State α) :
    ∃ fields, generateHeartbeat engine now testReqID s = .ok ⟨⟩ (s.afterGenerating engine now
      (generatedMessage engine now s.expectedSenderNum (.heartbeat testReqID) fields)) :=
  fillAndSend_run now rfl rfl s

/-- From FIX 4.2 on a resend request asks for everything from the expected number on: its
`EndSeqNo` is 0. -/
theorem generateResendRequest_run (engine : Engine α) {beginString : String}
    (hversion : "FIX.4.2" ≤ beginString)
    (msgSeqNum : ℕ) (s : State α) :
    ∃ fields, generateResendRequest engine now beginString msgSeqNum s = .ok ⟨⟩
      { s.afterGenerating engine now (generatedMessage engine now s.expectedSenderNum
          (.resendRequest (some (castInt s.expectedTargetNum)) (some 0)) fields) with
        resendRange := (castInt s.expectedTargetNum, msgSeqNum - 1) } := by
  have hrun : ∃ fields, fillAndSend engine now
      (.resendRequest (some (castInt s.expectedTargetNum)) (some 0)) s
      = .ok ⟨⟩ (s.afterGenerating engine now (generatedMessage engine now s.expectedSenderNum
          (.resendRequest (some (castInt s.expectedTargetNum)) (some 0)) fields)) :=
    fillAndSend_run now rfl rfl s
  obtain ⟨fields, hrun⟩ := hrun
  refine ⟨fields, ?_⟩
  rw [generateResendRequest, get_bind]
  simp only [if_pos hversion]
  rw [bind_of_ok hrun]
  rfl

/-- A request is nothing to the receiver. -/
theorem generateResendRequest_quiet (beginString : String) (msgSeqNum : ℕ) (s : State α) :
    ∃ s', generateResendRequest engine now beginString msgSeqNum s = .ok ⟨⟩ s' ∧ Quiet s s' := by
  rw [generateResendRequest, get_bind]
  have hsend : ∀ first last : Option ℕ, ∃ fields, fillAndSend engine now
      (.resendRequest first last) s = .ok ⟨⟩ (s.afterGenerating engine now
        (generatedMessage engine now s.expectedSenderNum (.resendRequest first last) fields)) :=
    fun _ _ => fillAndSend_run now rfl rfl s
  obtain ⟨fields, hrun⟩ := hsend _ _
  rw [bind_of_ok hrun]
  exact ⟨_, rfl, (quiet_afterGenerating now engine s _).trans
    ⟨rfl, rfl, rfl, rfl, rfl, rfl, rfl, rfl, rfl⟩⟩

/-! ### The timer -/

/-- The timer of a steady session sends at most a heartbeat. -/
theorem nextTimer_run {s : State α} (hs : Steady engine times s) (hnow : now ∈ times) :
    nextTimer engine now s = (if s.heartBtInt = 0 ∨ s.withinHeartBeat now then pure ()
      else when (s.needHeartbeat now) (generateHeartbeat engine now none)) s := by
  have hallowed : (s.enabled && engine.settings.isLogonTime now) = true := by
    rw [hs.enabled, hs.logonTime now hnow]
    rfl
  have hlogout : logoutTimedOut engine now s = false := by
    rw [logoutTimedOut, hs.sentLogout]
    rfl
  have htimedOut : timedOut engine now s = false :=
    (hs.alive now hnow _ hs.lastReceivedTime).1
  have hrequest : needTestRequest engine now s = false := by
    rw [needTestRequest, hs.testRequest]
    exact (hs.alive now hnow _ hs.lastReceivedTime).2
  rw [nextTimer, get_bind, if_neg (by simp [hs.sessionTime now hnow]), get_bind, get_bind,
    if_neg (by simp [hallowed]), get_bind, when, if_neg (by simp [hallowed]), pure_bind_run,
    get_bind, if_neg (by simp [hs.receivedLogon])]
  by_cases hzero : s.heartBtInt = 0
  · rw [if_pos hzero, if_pos (Or.inl hzero)]
  rw [if_neg hzero, when, if_neg (by simp [hlogout]), pure_bind_run, get_bind]
  by_cases hwithin : s.withinHeartBeat now
  · rw [if_pos hwithin, if_pos (Or.inr hwithin)]
  · rw [if_neg hwithin, if_neg (by simp [htimedOut]), if_neg (by simp [hrequest]),
      if_neg (not_or.mpr ⟨hzero, hwithin⟩)]

/-- The timer is nothing to the receiver while the session is steady. -/
theorem nextTimer_quiet {s : State α} (hs : Steady engine times s) (hnow : now ∈ times) :
    ∃ s', nextTimer engine now s = .ok ⟨⟩ s' ∧ Quiet s s' := by
  rw [nextTimer_run now hs hnow, ite_run]
  split
  · exact ⟨s, rfl, .refl s⟩
  · obtain ⟨fields, hrun⟩ := generateHeartbeat_run now engine none s
    exact when_quiet ⟨_, hrun, quiet_afterGenerating now engine s _⟩

/-- The timer does nothing where the session has just sent a message. -/
theorem nextTimer_idle {s : State α} (hs : Steady engine times s) (hnow : now ∈ times)
    (hheartBtInt : 0 ≤ s.heartBtInt) (hsent : s.lastSentTime = now) :
    nextTimer engine now s = .ok ⟨⟩ s := by
  rw [nextTimer_run now hs hnow, ite_run]
  split
  · rfl
  · rename_i hnot
    have hpos : 0 < s.heartBtInt :=
      lt_of_le_of_ne hheartBtInt fun heq => hnot (Or.inl heq.symm)
    have hneed : ¬ s.needHeartbeat now := by
      rw [State.needHeartbeat, hsent, UtcTimeStamp.sub_self]
      simp [hpos]
    rw [when, if_neg hneed]
    rfl

/-! ### Verification -/

/-- The state after a message has been verified. -/
def State.afterVerify (s : State α) (range : ℕ × ℕ) (message : Message α) : State α :=
  { s with
    resendRange := range
    lastReceivedTime := now
    testRequest := 0
    history := s.history ++ [Output.ofAccepted message] }

/-- What is checked before the number of a message. -/
theorem verifyHeader_of_welcome {s : State α} (hs : Steady engine times s) (hnow : now ∈ times)
    {message : Message α} (hm : Welcome engine times message)
    (hlogon : message.body.isLogon = false) (checkTooHigh checkTooLow : Bool) :
    verifyHeader engine now message checkTooHigh checkTooLow s
      = verifySeqNum engine now message checkTooHigh checkTooLow
        (if checkTooHigh || checkTooLow then message.seqNum else 0) s := by
  obtain ⟨time, htime, hgood⟩ := hm.sendingTime
  obtain ⟨num, hnum⟩ := Option.isSome_iff_exists.mp hm.msgSeqNum
  have hseq : message.seqNum = num := by
    rw [Message.seqNum, hnum]
    rfl
  have hstate : validLogonState s message.body = true := by
    simp [validLogonState, hlogon, hs.receivedLogon]
  have hids : isCorrectCompID engine engine.settings.sessionID.targetCompID
      engine.settings.sessionID.senderCompID = true := by
    simp [isCorrectCompID]
  have hfields : ∀ msgSeqNum, verifyFields engine now message checkTooHigh checkTooLow
      engine.settings.sessionID.targetCompID engine.settings.sessionID.senderCompID time msgSeqNum s
      = verifySeqNum engine now message checkTooHigh checkTooLow msgSeqNum s := by
    intro msgSeqNum
    rw [verifyFields, get_bind, if_neg (by simp [hstate]), if_neg (by simp [hgood now hnow]),
      if_neg (by simp [hids])]
  rw [verifyHeader, hm.senderCompID, hm.targetCompID, htime, hnum, hseq]
  cases hcheck : (checkTooHigh || checkTooLow) with
  | true => exact hfields num
  | false => exact hfields 0

/-- A message that is counted is no logon. -/
theorem logon_of_counted {body : Body α} (h : body.isCounted) : body.isLogon = false := by
  cases body with
  | logon resetSeqNumFlag heartBtInt nextExpectedMsgSeqNum => cases h
  | _ => rfl

/-- A message whose number is accepted is handed to the application. -/
theorem verify_of_seqNum {s : State α} (hs : Steady engine times s) (hnow : now ∈ times)
    {message : Message α} (hm : Welcome engine times message)
    (hlogon : message.body.isLogon = false) {checkTooHigh checkTooLow : Bool} {range : ℕ × ℕ}
    (hverify : verifySeqNum engine now message checkTooHigh checkTooLow
      (if checkTooHigh || checkTooLow then message.seqNum else 0) s
        = .ok true { s with resendRange := range }) :
    verify engine now message checkTooHigh checkTooLow s
      = .ok true (s.afterVerify now range message) := by
  rw [verify, bind_of_ok (tryCatch_of_ok
    ((verifyHeader_of_welcome now hs hnow hm hlogon _ _).trans hverify)), if_pos rfl, modify_bind]
  have haccepted := hm.accepted s.history
  let s₁ : State α := { s with resendRange := range, lastReceivedTime := now, testRequest := 0 }
  have hcallback : fromCallback engine message s₁
      = .ok ⟨⟩ { s₁ with history := s.history ++ [Output.ofAccepted message] } := by
    rw [fromCallback, get_bind, Output.ofAccepted]
    by_cases hadmin : message.body.isAdmin
    · rw [if_pos hadmin] at haccepted
      rw [if_pos hadmin, if_pos hadmin]
      show callback _ (engine.application.fromAdmin s.history message) s₁ = _
      rw [haccepted]
      rfl
    · rw [if_neg hadmin] at haccepted
      rw [if_neg hadmin, if_neg hadmin]
      show callback _ (engine.application.fromApp s.history message) s₁ = _
      rw [haccepted]
      rfl
  exact bind_of_ok hcallback

/-- A message with the expected number is handed to the application. -/
theorem verify_expected {s : State α} (hs : Steady engine times s) (hnow : now ∈ times)
    {message : Message α} (hm : Acceptable engine times message)
    (hnum : message.seqNum = s.expectedTargetNum) :
    ∃ range, verify engine now message true true s
      = .ok true (s.afterVerify now range message) := by
  have hverify : ∃ range, verifySeqNum engine now message true true message.seqNum s
      = .ok true { s with resendRange := range } := by
    rw [verifySeqNum, get_bind,
      if_neg (by simp [State.isTargetTooHigh, hnum]), if_neg (by simp [State.isTargetTooLow, hnum])]
    unfold when
    split
    · exact ⟨(0, 0), rfl⟩
    · exact ⟨s.resendRange, rfl⟩
  obtain ⟨range, hverify⟩ := hverify
  exact ⟨range, verify_of_seqNum now hs hnow hm.toWelcome (logon_of_counted hm.counted) hverify⟩

/-- A message whose number is not checked is handed to the application. -/
theorem verify_unchecked {s : State α} (hs : Steady engine times s) (hnow : now ∈ times)
    {message : Message α} (hm : Welcome engine times message)
    (hlogon : message.body.isLogon = false) :
    verify engine now message false false s = .ok true (s.afterVerify now s.resendRange message) :=
  verify_of_seqNum now hs hnow hm hlogon rfl

/-- A message whose number is refused. -/
theorem verify_refused {s s' : State α} (hs : Steady engine times s) (hnow : now ∈ times)
    {message : Message α} (hm : Acceptable engine times message)
    (hverify : verifySeqNum engine now message true true message.seqNum s = .ok false s') :
    verify engine now message true true s = .ok false s' := by
  rw [verify, bind_of_ok (tryCatch_of_ok ((verifyHeader_of_welcome now hs hnow hm.toWelcome
    (logon_of_counted hm.counted) true true).trans hverify))]
  rfl

/-- A message with a higher number waits, and a resend request is sent unless there is one that
covers it. -/
theorem verify_tooHigh {s s' : State α} (hs : Steady engine times s) (hnow : now ∈ times)
    {message : Message α} (hm : Acceptable engine times message)
    (hnum : s.expectedTargetNum < message.seqNum)
    (hrequest : (if s.resendRequested && !engine.settings.sendRedundantResendRequests &&
        s.resendRange.1 ≤ message.seqNum then pure ()
      else generateResendRequest engine now message.header.beginString message.seqNum)
        { s with queue := s.queue.insert message.seqNum message } = .ok ⟨⟩ s') :
    verify engine now message true true s = .ok false s' := by
  have htooHigh : doTargetTooHigh engine now message s = .ok ⟨⟩ s' := by
    obtain ⟨num, hnum'⟩ := Option.isSome_iff_exists.mp hm.msgSeqNum
    have hseq : message.seqNum = num := by
      rw [Message.seqNum, hnum']
      rfl
    have hget : getField 34 (some message.seqNum) s = .ok message.seqNum s := rfl
    rw [doTargetTooHigh, hnum', ← hseq, bind_of_ok hget, queueMessage, modify_bind, get_bind]
    exact hrequest
  refine verify_refused now hs hnow hm ?_
  rw [verifySeqNum, get_bind, if_pos (by simp [State.isTargetTooHigh, hnum]), bind_of_ok htooHigh]
  rfl

/-- A message with a higher number waits. -/
theorem verify_waits {s : State α} (hs : Steady engine times s) (hnow : now ∈ times)
    {message : Message α} (hm : Acceptable engine times message)
    (hnum : s.expectedTargetNum < message.seqNum) :
    ∃ s', verify engine now message true true s = .ok false s' ∧
      Quiet { s with queue := s.queue.insert message.seqNum message } s' := by
  let s₁ : State α := { s with queue := s.queue.insert message.seqNum message }
  have hrequest : ∃ s', (if s.resendRequested && !engine.settings.sendRedundantResendRequests &&
        s.resendRange.1 ≤ message.seqNum then pure ()
      else generateResendRequest engine now message.header.beginString message.seqNum) s₁
        = .ok ⟨⟩ s' ∧ Quiet s₁ s' := by
    rw [ite_run]
    split
    · exact ⟨s₁, rfl, .refl s₁⟩
    · exact generateResendRequest_quiet now _ _ s₁
  obtain ⟨s', hrun, hquiet⟩ := hrequest
  exact ⟨s', verify_tooHigh now hs hnow hm hnum hrun, hquiet⟩

/-- A possible duplicate that a session drops without a word where its number is too low. -/
structure Duplicate (message : Message α) : Prop where
  possDup : message.possDup
  origSendingTime : message.body.isSequenceReset ∨
    ∃ original, message.header.origSendingTime = some original ∧
      ∀ time, message.header.sendingTime = some time → original.nanos ≤ time.nanos

/-- A possible duplicate with a lower number is dropped. -/
theorem verify_tooLow {s : State α} (hs : Steady engine times s) (hnow : now ∈ times)
    {message : Message α} (hm : Acceptable engine times message) (hdup : Duplicate message)
    (hnum : message.seqNum < s.expectedTargetNum) :
    verify engine now message true true s = .ok false s := by
  obtain ⟨num, hnum'⟩ := Option.isSome_iff_exists.mp hm.msgSeqNum
  obtain ⟨time, htime, -⟩ := hm.sendingTime
  have hpossDup : doPossDup engine now message s = .ok ⟨⟩ s := by
    have hget : getField 52 (some time) s = .ok time s := rfl
    rw [doPossDup, htime, bind_of_ok hget]
    cases hdup.origSendingTime with
    | inl hreset => rw [if_pos hreset]; rfl
    | inr horiginal =>
      obtain ⟨original, horiginal, hle⟩ := horiginal
      rw [ite_run]
      split
      · rfl
      · rw [horiginal]
        show when (time.nanos < original.nanos) (doBadTime engine now message) s = _
        rw [when, if_neg (Nat.not_lt.mpr (hle time htime))]
        rfl
  have htooLow : doTargetTooLow engine now message s = .ok ⟨⟩ s := by
    have hget : getField 34 (some num) s = .ok num s := rfl
    rw [doTargetTooLow, hnum', bind_of_ok hget, if_neg (by simp [hdup.possDup])]
    exact hpossDup
  refine verify_refused now hs hnow hm ?_
  rw [verifySeqNum, get_bind,
    if_neg (by simp [State.isTargetTooHigh, Nat.le_of_lt hnum]),
    if_pos (by simp [State.isTargetTooLow, hnum]), bind_of_ok htooLow]
  rfl

end Harjus.Session
