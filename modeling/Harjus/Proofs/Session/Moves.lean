import Harjus.Session

/-!
# `Harjus.Proofs.Session.Moves`: what a session can do to its store and its history

A `Move` is one thing that a session does to its store, its queue or its history: a message gets
its number, an accepted message is counted, a stored message goes out again. What follows says
that the functions that send and check messages do nothing but moves (`Steps (Move ..)`), so an
invariant has to be proved for ten moves and not for each of the functions.

* `publish_steps`, `resetStore_steps`, `doTargetTooHigh_steps`, `verify_steps`: what changes the
  numbers and the queue.
* `nextApp_steps`: the application gets a message only when it has the expected number.
* `generateRetransmits_steps`: what is sent again is stored, and the application has let it go.
-/

set_option autoImplicit false

namespace Harjus.Session

open Harjus.Lib

variable {α : Type}

/-- A notice to the application or the responder that has no application message. -/
def Output.isNotice : Output α → Bool
  | fromAdmin _ _ | onLogon | onLogout | disconnected => true
  | _ => false

/-- The message of `resend`, at `now`. -/
def Message.resent (message : Message α) (now : UtcTimeStamp) : Message α :=
  { message with header := { message.header with
    origSendingTime := message.header.sendingTime
    possDupFlag := some true
    sendingTime := some now } }

/-- The header has what `fill` sets on it besides the number. -/
structure Header.Filled (engine : Engine α) (header : Header) : Prop where
  beginString : header.beginString = engine.settings.sessionID.beginString
  senderCompID : header.senderCompID = some engine.settings.sessionID.senderCompID
  targetCompID : header.targetCompID = some engine.settings.sessionID.targetCompID
  sendingTime : header.sendingTime.isSome

/-- A move of a session, as its store, its queue and its history see it. The other fields move in
`idle`. `P` tells which bodies it may give a number, and `Q` which messages it has received. -/
inductive Move (engine : Engine α) (P : Body α → Prop) (Q : Message α → Prop) :
    State α → State α → Prop
  | idle {s s' : State α} (hstore : s'.store = s.store) (hhistory : s'.history = s.history)
      (hqueue : ∀ num message, s'.queue.lookup num = some message →
        s.queue.lookup num = some message ∨ Q message) :
    Move engine P Q s s'
  | notify {s : State α} (output : Output α) (h : output.isNotice) :
    Move engine P Q s { s with history := s.history ++ [output] }
  | restart {s : State α} (now : UtcTimeStamp) :
    Move engine P Q s { s with store := .new now, history := s.history ++ [.storeReset] }
  | advance {s : State α} (num : ℕ) (h : s.expectedTargetNum ≤ num) :
    Move engine P Q s { s with store := s.store.setNextTargetMsgSeqNum num }
  | wrap {s : State α} (num : ℕ) :
    Move engine P Q s { s with
      store := s.store.setNextTargetMsgSeqNum num
      history := s.history ++ [.seqNumWrapped] }
  | refuse {s : State α} (message : Message α) (hQ : Q message)
      (happ : message.body.isAdmin = false)
      (hnum : message.header.msgSeqNum = some s.expectedTargetNum) :
    Move engine P Q s { s with history := s.history ++ [.fromApp message false] }
  | accept {s : State α} (message : Message α) (hQ : Q message)
      (happ : message.body.isAdmin = false)
      (hnum : message.header.msgSeqNum = some s.expectedTargetNum) :
    Move engine P Q s { s with
      store := s.store.setNextTargetMsgSeqNum (s.expectedTargetNum + 1)
      history := s.history ++ [.fromApp message true] }
  | publish {s : State α} (message : Message α) (sent : Bool) (hP : P message.body)
      (hnum : message.header.msgSeqNum = some s.expectedSenderNum)
      (hdup : message.body.isAdmin = false → message.header.possDupFlag = none)
      (hfilled : message.header.Filled engine) :
    Move engine P Q s { s with
      store := persisted engine s.store message
      history := if sent then s.history ++ [.sent message] else s.history }
  | fillGap {s : State α} (message : Message α) (hdup : message.possDup)
      (hreset : message.body.isSequenceReset) :
    Move engine P Q s { s with history := s.history ++ [.sent message] }
  | resend {s : State α} (message : Message α) (now : UtcTimeStamp) (num : ℕ)
      (hstored : s.store.messages.lookup num = some message)
      (happ : message.body.isAdmin = false)
      (htoApp : ∃ history, engine.application.toApp history (message.resent now)) :
    Move engine P Q s { s with history := s.history ++ [.sent (message.resent now)] }

section
variable {engine : Engine α} {P : Body α → Prop} {Q : Message α → Prop} (now : UtcTimeStamp)

/-! ### Computations without moves of their own -/

/-- A computation under a condition does the steps of the computation, or none. -/
theorem when_steps {R : State α → State α → Prop} {condition : Prop} [Decidable condition]
    {action : SessionM α Unit} (h : Steps R action) : Steps R (when condition action) :=
  .ite h (.pure _)

/-- A result that has been computed already does no step. -/
theorem ofExcept_steps {R : State α → State α → Prop} {β : Type} (result : Except Exception β) :
    Steps R (ofExcept (α := α) result) := by
  cases result with
  | ok value => exact .pure value
  | error e => exact .throw e

/-- Reading a field does no step, whether the field is there or not. -/
theorem getField_steps {R : State α → State α → Prop} {β : Type} (field : ℕ)
    (value : Option β) : Steps R (getField (α := α) field value) := by
  cases value with
  | none => exact .throw _
  | some value => exact .pure value

/-- A change that keeps the store, the history and the queue is an `idle` move. -/
theorem idle_steps {f : State α → State α} (h : ∀ s, (f s).store = s.store ∧
    (f s).history = s.history ∧ (f s).queue = s.queue) :
    Steps (Move engine P Q) (modify f : SessionM α PUnit) :=
  .modify fun s => .idle (h s).1 (h s).2.1 fun _ _ hlookup => Or.inl ((h s).2.2 ▸ hlookup)

/-- A notice in the history is a `notify` move: it is no message. -/
theorem emit_notice {output : Output α} (h : output.isNotice) :
    Steps (Move engine P Q) (emit output) :=
  .modify fun _ => .notify output h

/-- The reset of the store starts the numbers again. -/
theorem resetStore_steps : Steps (Move engine P Q) (resetStore (α := α) now) :=
  fun _ => .single (.restart now)

/-- Below the end of `SEQNUM` the expected number is the next one then. -/
theorem incrNextTargetMsgSeqNum_run {s : State α} (h : s.expectedTargetNum + 1 < SEQNUM_COUNT) :
    incrNextTargetMsgSeqNum s = .ok ⟨⟩ { s with
      store := s.store.setNextTargetMsgSeqNum (s.expectedTargetNum + 1) } := by
  have hstore : s.store.incrNextTargetMsgSeqNum
      = s.store.setNextTargetMsgSeqNum (s.expectedTargetNum + 1) := by
    have hmod : (s.store.nextTargetMsgSeqNum + 1) % SEQNUM_COUNT = s.expectedTargetNum + 1 :=
      Nat.mod_eq_of_lt h
    rw [MemoryStore.incrNextTargetMsgSeqNum, hmod]
    rfl
  rw [incrNextTargetMsgSeqNum, get_bind, when, if_neg (Nat.not_le.mpr h), pure_bind_run,
    modify_run, hstore]

/-- At the end of `SEQNUM` the history says that the expected number starts again. -/
theorem incrNextTargetMsgSeqNum_wrap {s : State α} (h : SEQNUM_COUNT ≤ s.expectedTargetNum + 1) :
    ∃ num, incrNextTargetMsgSeqNum s = .ok ⟨⟩ { s with
      store := s.store.setNextTargetMsgSeqNum num
      history := s.history ++ [.seqNumWrapped] } := by
  refine ⟨(s.expectedTargetNum + 1) % SEQNUM_COUNT, ?_⟩
  rw [incrNextTargetMsgSeqNum, get_bind, when, if_pos h]
  rfl

/-- Counting the expected number is an `advance`, or the `wrap` at the end of `SEQNUM`. -/
theorem incrNextTargetMsgSeqNum_steps :
    Steps (Move engine P Q) (incrNextTargetMsgSeqNum (α := α)) := by
  intro s
  by_cases h : s.expectedTargetNum + 1 < SEQNUM_COUNT
  · exact .of_eq (after_of_ok (incrNextTargetMsgSeqNum_run h))
      (.single (.advance _ (Nat.le_succ s.expectedTargetNum)))
  · obtain ⟨num, hrun⟩ := incrNextTargetMsgSeqNum_wrap (Nat.not_lt.mp h)
    exact .of_eq (after_of_ok hrun) (.single (.wrap num))

/-- A disconnect gives notices, clears the queue, and may reset the store. -/
theorem disconnect_steps : Steps (Move engine P Q) (disconnect engine now) := by
  refine .bind .get fun s => .bind (when_steps ?_) fun _ => ?_
  · exact .bind (emit_notice rfl) fun _ => idle_steps fun _ => ⟨rfl, rfl, rfl⟩
  refine .bind .get fun s => .bind (when_steps ?_) fun _ => ?_
  · exact .bind (idle_steps fun _ => ⟨rfl, rfl, rfl⟩) fun _ =>
      .bind (emit_notice rfl) fun _ => ofExcept_steps _
  refine .bind (.modify fun s => .idle rfl rfl fun num message h => ?_) fun _ => ?_
  · cases h
  · exact .bind (when_steps (resetStore_steps now)) fun _ => idle_steps fun _ => ⟨rfl, rfl, rfl⟩

/-! ### Sending -/

/-- A message takes one number of the sender, whether it is stored or not. -/
@[simp] theorem nextSenderMsgSeqNum_persisted (store : MemoryStore α) (message : Message α) :
    (persisted engine store message).nextSenderMsgSeqNum = store.nextSenderMsgSeqNum + 1 := by
  unfold persisted
  split <;> rfl

/-- Storing a sent message does not count the other side. -/
@[simp] theorem nextTargetMsgSeqNum_persisted (store : MemoryStore α) (message : Message α) :
    (persisted engine store message).nextTargetMsgSeqNum = store.nextTargetMsgSeqNum := by
  unfold persisted
  split <;> rfl

/-- A session that persists its messages stores each under its own number. -/
theorem messages_persisted (hpersist : engine.settings.persistMessages) (store : MemoryStore α)
    (message : Message α) :
    (persisted engine store message).messages = store.messages.insert message.seqNum message := by
  unfold persisted
  rw [if_pos hpersist]
  rfl

/-- A session that does not persist its messages stores none. -/
theorem messages_persisted_of_not (hpersist : ¬ engine.settings.persistMessages)
    (store : MemoryStore α) (message : Message α) :
    (persisted engine store message).messages = store.messages := by
  unfold persisted
  rw [if_neg hpersist]
  rfl

/-- `persist` and then `send`, of a message with the next number. -/
theorem publish_steps {message : Message α} {s : State α} (condition : State α → Bool)
    (hP : P message.body) (hnum : message.header.msgSeqNum = some s.expectedSenderNum)
    (hdup : message.body.isAdmin = false → message.header.possDupFlag = none)
    (hfilled : message.header.Filled engine) :
    Reaches (Move engine P Q) (do
      persist engine message
      when (condition (← get)) (sendString message)
      return true) s := by
  let s₁ := { s with store := persisted engine s.store message }
  have hrun : ∀ sent : Bool, after (do
      persist engine message
      when (condition (← get)) (sendString message)
      return true) s = (if sent then { s₁ with history := s.history ++ [.sent message] } else s₁) →
      Reaches (Move engine P Q) (do
        persist engine message
        when (condition (← get)) (sendString message)
        return true) s := by
    intro sent h
    refine .of_eq h (.single ?_)
    have hmove : Move engine P Q s _ := .publish message sent hP hnum hdup hfilled
    cases sent with
    | false => exact hmove
    | true => exact hmove
  -- What is stored is written only if `send` is reached and there is a responder.
  by_cases hcondition : condition s₁
  · by_cases hresponder : s.hasResponder
    · refine hrun true ?_
      show after (when (condition s₁) (sendString message) >>= fun _ => pure true) s₁ = _
      rw [when, if_pos hcondition]
      show after (when s₁.hasResponder (emit (.sent message)) >>= fun _ => pure true) s₁ = _
      rw [when, if_pos (show s₁.hasResponder = true from hresponder)]
      rfl
    · refine hrun false ?_
      show after (when (condition s₁) (sendString message) >>= fun _ => pure true) s₁ = _
      rw [when, if_pos hcondition]
      show after (when s₁.hasResponder (emit (.sent message)) >>= fun _ => pure true) s₁ = _
      rw [when, if_neg (show ¬ s₁.hasResponder = true from hresponder)]
      rfl
  · refine hrun false ?_
    show after (when (condition s₁) (sendString message) >>= fun _ => pure true) s₁ = _
    rw [when, if_neg hcondition]
    rfl

/-- A logon that resets the store gets the number that comes first then. -/
theorem resetForLogon_ok {message message' : Message α} {s s' : State α}
    (hnum : message.header.msgSeqNum = some s.expectedSenderNum)
    (h : resetForLogon now message s = .ok message' s') :
    message'.header.msgSeqNum = some s'.expectedSenderNum ∧ message'.body = message.body ∧
      ∃ num, message'.header = { message.header with msgSeqNum := num } := by
  unfold resetForLogon at h
  rw [get_bind] at h
  split at h
  · split at h
    · cases h
      exact ⟨rfl, rfl, _, rfl⟩
    · cases h
      exact ⟨hnum, rfl, _, rfl⟩
  · cases h
    exact ⟨hnum, rfl, _, rfl⟩

/-- The reset before a logon is at most a reset of the store. -/
theorem resetForLogon_steps (message : Message α) :
    Steps (Move engine P Q) (resetForLogon now message) := by
  refine .bind .get fun s => .ite (.ite ?_ ?_) (.pure _)
  · exact .bind (resetStore_steps now) fun _ => .bind .get fun _ =>
      .bind (idle_steps fun _ => ⟨rfl, rfl, rfl⟩) fun _ => .pure _
  · exact .bind (idle_steps fun _ => ⟨rfl, rfl, rfl⟩) fun _ => .pure _

/-- An administrative message that has the next number is published, after a reset with the first
one. -/
theorem sendAdmin_reaches {message : Message α} {s : State α} (hadmin : message.body.isAdmin)
    (hP : P message.body) (hnum : message.header.msgSeqNum = some s.expectedSenderNum)
    (hfilled : message.header.Filled engine) :
    Reaches (Move engine P Q) (sendAdmin engine now message 0) s := by
  refine .get_bind (.bind (resetForLogon_steps now _ s) fun message' s' h => ?_)
  obtain ⟨hnum', hbody, num, hheader⟩ := resetForLogon_ok now (by exact hnum) h
  have hbody' : message'.body = message.body := hbody
  show Reaches (Move engine P Q) (do
      persist engine message'
      when (sentBeforeLogon message'.body || (← get).isLoggedOn) (sendString message')
      return true) s'
  refine publish_steps (fun s => sentBeforeLogon message'.body || s.isLoggedOn)
    (hbody' ▸ hP) hnum' ?_ ?_
  · intro happ
    rw [hbody', hadmin] at happ
    cases happ
  · rw [hheader]
    exact ⟨hfilled.beginString, hfilled.senderCompID, hfilled.targetCompID, hfilled.sendingTime⟩

/-- An application message is published with the next number, unless the application holds it
back. -/
theorem sendApp_reaches {message : Message α} {s : State α} (hP : P message.body)
    (hnum : message.header.msgSeqNum = some s.expectedSenderNum)
    (hdup : message.header.possDupFlag = none) (hfilled : message.header.Filled engine) :
    Reaches (Move engine P Q) (sendApp engine message 0) s := by
  refine .get_bind (.ite (fun _ => .refl) fun _ => .ite (fun _ => .refl) fun _ => ?_)
  exact publish_steps State.isLoggedOn hP hnum (fun _ => hdup) hfilled

/-- `fill` computes the header from the state and changes nothing. -/
theorem fill_run (message : Message α) (s : State α) :
    fill engine now message s
      = .ok { message with header := filledHeader engine now s message.header }
        { s with lastSentTime := now } := rfl

/-- Filling the header moves nothing. -/
theorem fill_steps (message : Message α) : Steps (Move engine P Q) (fill engine now message) :=
  .bind (idle_steps fun _ => ⟨rfl, rfl, rfl⟩) fun _ => .bind .get fun _ => .pure _

/-- What `sendRaw` does with a message that it gives a number. -/
theorem sendRaw_steps {message : Message α} (hP : P message.body)
    (hdup : message.body.isAdmin = false → message.header.possDupFlag = none) :
    Steps (Move engine P Q) (sendRaw engine now message 0) := by
  intro s
  refine (fill_steps now message s).bind fun message' s' h => ?_
  cases (fill_run now message s).symm.trans h
  refine .ite (fun hadmin => ?_) fun happ => ?_
  · exact sendAdmin_reaches now hadmin hP rfl ⟨rfl, rfl, rfl, rfl⟩
  · exact sendApp_reaches hP rfl (hdup (by simpa using happ)) ⟨rfl, rfl, rfl, rfl⟩

/-- The body that `fill` leaves. -/
theorem body_of_fill {message message' : Message α} {s s' : State α}
    (h : fill engine now message s = .ok message' s') :
    message'.body = message.body ∧
      message'.header.possDupFlag = message.header.possDupFlag := by
  cases (fill_run now message s).symm.trans h
  exact ⟨rfl, rfl⟩

/-- A message of the session's own is published where its kind may be. -/
theorem fillAndSend_steps {body : Body α} (hP : P body) :
    Steps (Move engine P Q) (fillAndSend engine now body) := by
  intro s
  refine (fill_steps now _ s).bind fun message s' h => ?_
  obtain ⟨hbody, hdup⟩ := body_of_fill now h
  have hbody' : message.body = body := hbody
  exact Steps.bind (sendRaw_steps now (hbody' ▸ hP) fun _ => hdup) (fun _ => .pure _) s'

/-- `send` publishes the message without its own number and duplicate flags. -/
theorem send_steps {message : Message α} (hP : P message.body) :
    Steps (Move engine P Q) (send engine now message) :=
  sendRaw_steps now hP fun _ => rfl

/-! ### What a session sends itself -/

/-- A body that a session makes itself, at its own number. -/
def Body.isGenerated : Body α → Prop
  | .app _ _ => False
  | _ => True

section
variable (hP : ∀ body : Body α, body.isGenerated → P body)
include hP

/-- The logon of an initiator publishes a logon, after a reset where one is asked for. -/
theorem generateLogon_steps : Steps (Move engine P Q) (generateLogon engine now) :=
  .bind (when_steps (resetStore_steps now)) fun _ => .bind .get fun _ =>
    .bind (idle_steps fun _ => ⟨rfl, rfl, rfl⟩) fun _ => fillAndSend_steps now (hP _ trivial)

/-- The answer to a logon publishes one message. -/
theorem generateLogonAnswer_steps (heartBtInt : Option ℤ) :
    Steps (Move engine P Q) (generateLogonAnswer engine now heartBtInt) :=
  .bind .get fun _ => .bind (getField_steps _ _) fun _ =>
    .bind (fillAndSend_steps now (hP _ trivial)) fun _ => idle_steps fun _ => ⟨rfl, rfl, rfl⟩

/-- A request for missing messages publishes one message. -/
theorem generateResendRequest_steps (beginString : String) (msgSeqNum : ℕ) :
    Steps (Move engine P Q) (generateResendRequest engine now beginString msgSeqNum) :=
  .bind .get fun _ => .bind (fillAndSend_steps now (hP _ trivial)) fun _ =>
    idle_steps fun _ => ⟨rfl, rfl, rfl⟩

/-- A heartbeat publishes one message. -/
theorem generateHeartbeat_steps (testReqID : Option String) :
    Steps (Move engine P Q) (generateHeartbeat engine now testReqID) :=
  fillAndSend_steps now (hP _ trivial)

/-- A test request publishes one message. -/
theorem generateTestRequest_steps (id : String) :
    Steps (Move engine P Q) (generateTestRequest engine now id) :=
  fillAndSend_steps now (hP _ trivial)

/-- A logout publishes one message. -/
theorem generateLogout_steps (text : String) :
    Steps (Move engine P Q) (generateLogout engine now text) :=
  .bind (fillAndSend_steps now (hP _ trivial)) fun _ => idle_steps fun _ => ⟨rfl, rfl, rfl⟩

/-- `reset` publishes a logout, disconnects, and starts the numbers again. -/
theorem reset_steps : Steps (Move engine P Q) (reset engine now) :=
  .bind (generateLogout_steps now hP "") fun _ => .bind (disconnect_steps now) fun _ =>
    resetStore_steps now

/-- A reject that `fill` has completed. -/
theorem sendRaw_reject_steps {body : Body α} {message : Message α} {s s' : State α}
    (h : fill engine now (.new body) s = .ok message s') (hbody : body.isGenerated) :
    Steps (Move engine P Q) (sendRaw engine now message 0) := by
  obtain ⟨hbody', hdup⟩ := body_of_fill now h
  have hbody'' : message.body = body := hbody'
  exact sendRaw_steps now (hP _ (hbody'' ▸ hbody)) fun _ => hdup

/-- A reject may count the rejected message, and publishes one message. -/
theorem generateReject_steps (message : Message α) (err : SessionRejectReason) (field : ℕ) :
    Steps (Move engine P Q) (generateReject engine now message err field) := by
  intro s
  refine (fill_steps now _ s).bind fun reject s' h => ?_
  have hsend := sendRaw_reject_steps (Q := Q) now hP h trivial
  refine Steps.bind .get (fun s => .bind (when_steps ?_) fun _ =>
    .bind (when_steps (.throw _)) fun _ => .bind hsend fun _ => .pure _) s'
  cases message.header.msgSeqNum with
  | none => exact .throw _
  | some msgSeqNum => exact when_steps incrNextTargetMsgSeqNum_steps

/-- A reject with a text counts the rejected message, and publishes one message. -/
theorem generateRejectText_steps (message : Message α) (text : String) :
    Steps (Move engine P Q) (generateRejectText engine now message text) := by
  refine .bind (getField_steps _ _) fun msgSeqNum s => ?_
  refine (fill_steps now _ s).bind fun reject s' h => ?_
  have hsend := sendRaw_reject_steps (Q := Q) now hP h trivial
  exact Steps.bind (when_steps incrNextTargetMsgSeqNum_steps)
    (fun _ => .bind hsend fun _ => .pure _) s'

/-- A business reject counts the rejected message, and publishes one message. -/
theorem generateBusinessReject_steps (message : Message α) (err : BusinessRejectReason)
    (field : ℕ) :
    Steps (Move engine P Q) (generateBusinessReject engine now message err field) := by
  refine .bind (getField_steps _ _) fun msgSeqNum s => ?_
  refine (fill_steps now _ s).bind fun reject s' h => ?_
  have hsend := sendRaw_reject_steps (Q := Q) now hP h trivial
  exact Steps.bind incrNextTargetMsgSeqNum_steps (fun _ => .bind hsend fun _ => .pure _) s'

/-! ### Verification -/

/-- A reject with a logout publishes the two messages. -/
theorem rejectAndLogout_steps (message : Message α) (err : SessionRejectReason) :
    Steps (Move engine P Q) (rejectAndLogout engine now message err) :=
  .bind (generateReject_steps now hP _ _ _) fun _ => generateLogout_steps now hP _

/-- A possible duplicate may be answered with rejects and a logout. -/
theorem doPossDup_steps (message : Message α) :
    Steps (Move engine P Q) (doPossDup engine now message) := by
  refine .bind (getField_steps _ _) fun sendingTime => .ite (.pure _) ?_
  cases message.header.origSendingTime with
  | none => exact generateReject_steps now hP _ _ _
  | some origSendingTime => exact when_steps (rejectAndLogout_steps now hP _ _)

/-- A number that is too low is checked as a possible duplicate, or ends in a logout. -/
theorem doTargetTooLow_steps (message : Message α) :
    Steps (Move engine P Q) (doTargetTooLow engine now message) :=
  .bind (getField_steps _ _) fun _ => .ite
    (.bind .get fun _ => .bind (generateLogout_steps now hP _) fun _ => .throw _)
    (doPossDup_steps now hP message)

omit hP in
/-- A message with a number that is too high waits in the queue. -/
theorem queueMessage_steps (msgSeqNum : ℕ) {message : Message α} (hQ : Q message) :
    Steps (Move engine P Q) (queueMessage msgSeqNum message) := by
  refine .modify fun s => .idle rfl rfl fun num m h => ?_
  by_cases hnum : num = msgSeqNum
  · subst hnum
    right
    rw [Finmap.lookup_insert] at h
    cases h
    exact hQ
  · left
    rwa [Finmap.lookup_insert_of_ne _ hnum] at h

/-- A number that is too high makes the message wait, and may publish a request. -/
theorem doTargetTooHigh_steps {message : Message α} (hQ : Q message) :
    Steps (Move engine P Q) (doTargetTooHigh engine now message) :=
  .bind (getField_steps _ _) fun _ => .bind (queueMessage_steps _ hQ) fun _ =>
    .bind .get fun _ => .ite (.pure _) (generateResendRequest_steps now hP _ _)

/-- The check of the number may make the message wait. -/
theorem verifySeqNum_steps {message : Message α} (hQ : Q message) (checkTooHigh checkTooLow : Bool)
    (msgSeqNum : ℕ) :
    Steps (Move engine P Q)
      (verifySeqNum engine now message checkTooHigh checkTooLow msgSeqNum) :=
  .bind .get fun _ => .ite (.bind (doTargetTooHigh_steps now hP hQ) fun _ => .pure _)
    (.ite (.bind (doTargetTooLow_steps now hP _) fun _ => .pure _)
      (.bind (when_steps (idle_steps fun _ => ⟨rfl, rfl, rfl⟩)) fun _ => .pure _))

/-- The checks of the header may answer with rejects, or make the message wait. -/
theorem verifyFields_steps {message : Message α} (hQ : Q message) (checkTooHigh checkTooLow : Bool)
    (senderCompID targetCompID : String) (sendingTime : UtcTimeStamp) (msgSeqNum : ℕ) :
    Steps (Move engine P Q) (verifyFields engine now message checkTooHigh checkTooLow senderCompID
      targetCompID sendingTime msgSeqNum) :=
  .bind .get fun _ => .ite (.throw _)
    (.ite (.bind (rejectAndLogout_steps now hP _ _) fun _ => .pure _)
      (.ite (.bind (rejectAndLogout_steps now hP _ _) fun _ => .pure _)
        (verifySeqNum_steps now hP hQ _ _ _)))

/-- The checks of the header, behind the fields that must be there. -/
theorem verifyHeader_steps {message : Message α} (hQ : Q message)
    (checkTooHigh checkTooLow : Bool) :
    Steps (Move engine P Q) (verifyHeader engine now message checkTooHigh checkTooLow) :=
  .bind (getField_steps _ _) fun _ => .bind (getField_steps _ _) fun _ =>
    .bind (getField_steps _ _) fun _ => .bind (.ite (getField_steps _ _) (.pure _)) fun _ =>
      verifyFields_steps now hP hQ _ _ _ _ _ _

/-- The `try` block of `verify` with its `catch`. -/
theorem tryVerifyHeader_steps {message : Message α} (hQ : Q message)
    (checkTooHigh checkTooLow : Bool) :
    Steps (Move engine P Q) (tryCatch (verifyHeader engine now message checkTooHigh checkTooLow)
      fun _ => do
        disconnect engine now
        return false) :=
  .tryCatch (verifyHeader_steps now hP hQ _ _) fun _ =>
    .bind (disconnect_steps now) fun _ => .pure _

end

/-- What follows a field that is read has its value. -/
theorem getField_bind_ok {β γ : Type} {field : ℕ} {value : Option β} {f : β → SessionM α γ}
    {c : γ} {s s' : State α} (h : (getField field value >>= f) s = .ok c s') :
    ∃ b, value = some b ∧ f b s = .ok c s' := by
  cases value with
  | none => cases h
  | some b => exact ⟨b, rfl, h⟩

/-- `verifySeqNum` returns `true` for a number that passes the checks, and ends at most the range
of numbers that have been requested again. -/
theorem verifySeqNum_true {message : Message α} {checkTooHigh checkTooLow : Bool}
    {msgSeqNum : ℕ} {s s' : State α}
    (h : verifySeqNum engine now message checkTooHigh checkTooLow msgSeqNum s = .ok true s') :
    (checkTooHigh → msgSeqNum ≤ s.expectedTargetNum) ∧
      (checkTooLow → s.expectedTargetNum ≤ msgSeqNum) ∧
      ∃ range, s' = { s with resendRange := range } := by
  rw [verifySeqNum, get_bind] at h
  split at h
  · obtain ⟨_, _, -, h⟩ := bind_eq_ok.mp h
    cases h
  rename_i hhigh
  split at h
  · obtain ⟨_, _, -, h⟩ := bind_eq_ok.mp h
    cases h
  rename_i hlow
  refine ⟨fun hcheck => ?_, fun hcheck => ?_, ?_⟩
  · simpa [hcheck, State.isTargetTooHigh] using hhigh
  · simpa [hcheck, State.isTargetTooLow] using hlow
  · obtain ⟨_, s₁, hwhen, h⟩ := bind_eq_ok.mp h
    cases h
    unfold when at hwhen
    split at hwhen
    · cases hwhen
      exact ⟨(0, 0), rfl⟩
    · cases hwhen
      exact ⟨s.resendRange, rfl⟩

/-- Where the checks of the header succeed, the number is neither too high nor too low, as far as
that was asked. -/
theorem verifyFields_true {message : Message α} {checkTooHigh checkTooLow : Bool}
    {senderCompID targetCompID : String} {sendingTime : UtcTimeStamp} {msgSeqNum : ℕ}
    {s s' : State α}
    (h : verifyFields engine now message checkTooHigh checkTooLow senderCompID targetCompID
      sendingTime msgSeqNum s = .ok true s') :
    (checkTooHigh → msgSeqNum ≤ s.expectedTargetNum) ∧
      (checkTooLow → s.expectedTargetNum ≤ msgSeqNum) ∧
      ∃ range, s' = { s with resendRange := range } := by
  rw [verifyFields, get_bind] at h
  split at h
  · cases h
  split at h
  · obtain ⟨_, _, -, h⟩ := bind_eq_ok.mp h
    cases h
  split at h
  · obtain ⟨_, _, -, h⟩ := bind_eq_ok.mp h
    cases h
  exact verifySeqNum_true now h

/-- `verifyHeader` returns `true` where the number passes the checks. -/
theorem verifyHeader_true {message : Message α} {checkTooHigh checkTooLow : Bool}
    {s s' : State α}
    (h : verifyHeader engine now message checkTooHigh checkTooLow s = .ok true s') :
    (checkTooHigh → checkTooLow → message.header.msgSeqNum = some s.expectedTargetNum) ∧
      ∃ range, s' = { s with resendRange := range } := by
  rw [verifyHeader] at h
  obtain ⟨_, -, h⟩ := getField_bind_ok h
  obtain ⟨_, -, h⟩ := getField_bind_ok h
  obtain ⟨_, -, h⟩ := getField_bind_ok h
  split at h
  · obtain ⟨msgSeqNum, hnum, h⟩ := getField_bind_ok h
    obtain ⟨hhigh, hlow, hstate⟩ := verifyFields_true now h
    refine ⟨fun hcheckHigh hcheckLow => ?_, hstate⟩
    rw [hnum, Nat.le_antisymm (hhigh hcheckHigh) (hlow hcheckLow)]
  · rename_i hcheck
    rw [pure_bind_run] at h
    refine ⟨fun hcheckHigh _ => ?_, (verifyFields_true now h).2.2⟩
    simp [hcheckHigh] at hcheck

/-- The `try` block of `verify` returns `true` only where `verifyHeader` does. -/
theorem tryVerifyHeader_true {message : Message α} {checkTooHigh checkTooLow : Bool}
    {s s' : State α}
    (h : tryCatch (verifyHeader engine now message checkTooHigh checkTooLow) (fun _ => do
      disconnect engine now
      return false) s = .ok true s') :
    verifyHeader engine now message checkTooHigh checkTooLow s = .ok true s' := by
  cases hheader : verifyHeader engine now message checkTooHigh checkTooLow s with
  | ok verified s₁ => rwa [tryCatch_of_ok hheader] at h
  | error e s₁ =>
    rw [tryCatch_of_error hheader] at h
    obtain ⟨_, _, -, h⟩ := bind_eq_ok.mp h
    cases h

/-- A callback whose output is a notice is a `notify` move. -/
theorem callback_notice {output : Bool → Output α} {result : Except Exception Unit}
    (h : ∀ accepted, (output accepted).isNotice) :
    Steps (Move engine P Q) (callback output result) := by
  cases result with
  | ok _ => exact emit_notice (h true)
  | error e => exact .bind (emit_notice (h false)) fun _ => .throw e

section
variable (hP : ∀ body : Body α, body.isGenerated → P body)
include hP

omit hP in
/-- The call of `fromApp`. -/
theorem fromCallback_app {message : Message α} (happ : message.body.isAdmin = false)
    (s : State α) :
    fromCallback engine message s
      = callback (.fromApp message) (engine.application.fromApp s.history message) s := by
  show (if message.body.isAdmin then callback (.fromAdmin message) _ else callback _ _) s = _
  rw [if_neg (by simp [happ])]

/-- `verify` of an administrative message. -/
theorem verify_steps {message : Message α} (hQ : Q message) (hadmin : message.body.isAdmin)
    (checkTooHigh checkTooLow : Bool) :
    Steps (Move engine P Q) (verify engine now message checkTooHigh checkTooLow) := by
  refine .bind (tryVerifyHeader_steps now hP hQ _ _) fun verified => .ite ?_ (.pure _)
  refine .bind (idle_steps fun _ => ⟨rfl, rfl, rfl⟩) fun _ => .bind ?_ fun _ => .pure _
  refine .bind .get fun s => ?_
  rw [if_pos hadmin]
  exact callback_notice fun _ => rfl

/-- `verify` of an application message, and the count where it returns `true`. The application
has returned by then, so the call and the count are one move. -/
theorem nextApp_steps {message : Message α} (hQ : Q message) (happ : message.body.isAdmin = false) :
    Steps (Move engine P Q) (nextApp engine now message) := by
  intro s
  rw [nextApp, verify, bind_assoc]
  refine (tryVerifyHeader_steps now hP hQ true true s).bind fun verified s' h => ?_
  cases verified with
  | false => exact .refl
  | true =>
    obtain ⟨hnum, range, rfl⟩ := verifyHeader_true now (tryVerifyHeader_true now h)
    let s₁ : State α := { s with resendRange := range, lastReceivedTime := now, testRequest := 0 }
    have hidle : Move engine P Q { s with resendRange := range } s₁ :=
      .idle rfl rfl fun _ _ h => Or.inl h
    have hnum₁ : message.header.msgSeqNum = some s₁.expectedTargetNum := hnum rfl rfl
    let s₂ (accepted : Bool) : State α :=
      { s₁ with history := s₁.history ++ [.fromApp message accepted] }
    have hcallback := @fromCallback_app α engine message happ s₁
    show Relation.ReflTransGen _ _ (after ((fromCallback engine message >>= fun _ => pure true)
      >>= fun verified => when verified incrNextTargetMsgSeqNum >>= fun _ => pure verified) s₁)
    -- The callback returns and the number is counted, or it throws and the number stays.
    cases hresult : engine.application.fromApp s₁.history message with
    | ok _ =>
      have hverify : (fromCallback engine message >>= fun _ => (pure true : SessionM α Bool)) s₁
          = .ok true (s₂ true) := by
        rw [hresult] at hcallback
        exact bind_of_ok hcallback
      rw [after, bind_of_ok hverify]
      refine .head hidle ?_
      by_cases hlt : (s₂ true).expectedTargetNum + 1 < SEQNUM_COUNT
      · rw [when, if_pos rfl, bind_of_ok (incrNextTargetMsgSeqNum_run hlt)]
        exact .single (.accept message hQ happ hnum₁)
      · obtain ⟨num, hrun⟩ := incrNextTargetMsgSeqNum_wrap (Nat.not_lt.mp hlt)
        rw [when, if_pos rfl, bind_of_ok hrun]
        exact .head (.accept message hQ happ hnum₁) (.single (.wrap num))
    | error e =>
      have hverify : (fromCallback engine message >>= fun _ => (pure true : SessionM α Bool)) s₁
          = .error e (s₂ false) := by
        rw [hresult] at hcallback
        exact bind_of_error hcallback
      rw [after, bind_of_error hverify]
      exact .head hidle (.single (.refuse message hQ happ hnum₁))

end

/-! ### Resending -/

/-- The gap fill that a session sends for the numbers from `beginSeqNo` up to `newSeqNo`, with the
fields that the application adds. -/
def gapFillMessage (engine : Engine α) (now : UtcTimeStamp) (beginSeqNo newSeqNo : ℕ)
    (fields : List (ℕ × String)) : Message α where
  header :=
    { beginString := engine.settings.sessionID.beginString
      senderCompID := some engine.settings.sessionID.senderCompID
      targetCompID := some engine.settings.sessionID.targetCompID
      msgSeqNum := some beginSeqNo
      sendingTime := some now
      possDupFlag := some true
      origSendingTime := some now
      fields := fields }
  body := .sequenceReset (some true) (some newSeqNo)

/-- A text goes out where there is a connection, and is lost where there is none. -/
theorem sendString_run (message : Message α) (s : State α) :
    sendString message s = .ok ⟨⟩ { s with
      history := if s.hasResponder then s.history ++ [Output.sent message] else s.history } := by
  show when s.hasResponder (emit (.sent message)) s = _
  cases h : s.hasResponder with
  | false =>
    rw [when, if_neg (by simp)]
    show EStateM.Result.ok _ s = _
    rw [if_neg (by simp), ← h]
  | true =>
    rw [when, if_pos rfl, if_pos rfl]
    show EStateM.Result.ok _ { s with history := s.history ++ [Output.sent message] } = _
    rw [← h]

/-- A gap fill with a number of its own is sent, and is no message of the store. -/
theorem generateSequenceReset_run {beginSeqNo : ℕ} (newSeqNo : ℕ) (s : State α)
    (hbegin : beginSeqNo ≠ 0) :
    ∃ fields, generateSequenceReset engine now beginSeqNo newSeqNo s = .ok ⟨⟩ { s with
      lastSentTime := now
      history := if s.hasResponder then
          s.history ++ [Output.sent (gapFillMessage engine now beginSeqNo newSeqNo fields)]
        else s.history } := by
  let s₁ : State α := { s with lastSentTime := now }
  let plain : Message α := gapFillMessage engine now beginSeqNo newSeqNo []
  let message : Message α :=
    gapFillMessage engine now beginSeqNo newSeqNo (engine.application.toAdmin s.history plain)
  refine ⟨engine.application.toAdmin s.history plain, ?_⟩
  have hadmin : sendAdmin engine now plain beginSeqNo s₁ = .ok true { s₁ with
      history := if s.hasResponder then s.history ++ [Output.sent message] else s.history } := by
    show (when (beginSeqNo = 0) (persist engine message) >>= fun _ =>
      get >>= fun s => when (sentBeforeLogon message.body || s.isLoggedOn) (sendString message)
        >>= fun _ => pure true) s₁ = _
    rw [when, if_neg hbegin, pure_bind_run]
    show (sendString message >>= fun _ => pure true) s₁ = _
    rw [bind_of_ok (sendString_run message s₁)]
    rfl
  have hsend : ∀ m : Message α, m.body = plain.body → m.header.possDupFlag = some true →
      m.header.origSendingTime = some now → m.header.fields = [] →
      sendRaw engine now m beginSeqNo s₁ = .ok true { s₁ with history :=
        if s.hasResponder then s.history ++ [Output.sent message] else s.history } := by
    rintro ⟨header, body⟩ rfl hdup horig hfields
    rw [sendRaw, bind_of_ok (fill_run now _ s₁)]
    simp only [if_neg hbegin]
    -- `fill` and `setSeqNum` leave the header of `plain`
    have hplain : Message.setSeqNum
        { header := filledHeader engine now s₁ header, body := plain.body } beginSeqNo = plain := by
      simp only at hdup horig hfields
      simp [Message.setSeqNum, filledHeader, hdup, horig, hfields, plain, gapFillMessage]
    show (if (Message.setSeqNum { header := filledHeader engine now s₁ header, body := plain.body }
      beginSeqNo).body.isAdmin then sendAdmin engine now _ beginSeqNo else _) s₁ = _
    rw [hplain]
    exact hadmin
  rw [generateSequenceReset, bind_of_ok (fill_run now _ s)]
  exact bind_of_ok (hsend _ rfl rfl rfl rfl)

/-- A move that leaves the store alone. -/
def StillMove (engine : Engine α) (P : Body α → Prop) (Q : Message α → Prop) (s s' : State α) :
    Prop :=
  Move engine P Q s s' ∧ s'.store = s.store

/-- What leaves the store alone in every move leaves it alone. -/
theorem store_of_still {s s' : State α} (h : Relation.ReflTransGen (StillMove engine P Q) s s') :
    s'.store = s.store := by
  induction h with
  | refl => rfl
  | tail _ hstep ih => exact hstep.2.trans ih

/-- A change that keeps the store, the history and the queue is an `idle` move of a resend. -/
theorem idle_still {s s' : State α} (hstore : s'.store = s.store)
    (hhistory : s'.history = s.history) (hqueue : s'.queue = s.queue) :
    StillMove engine P Q s s' :=
  ⟨.idle hstore hhistory fun _ _ h => Or.inl (hqueue ▸ h), hstore⟩

/-- A gap fill over a range takes no new number. -/
theorem gapFill_still {beginSeqNo : ℕ} (newSeqNo : ℕ) (s : State α)
    (hbegin : beginSeqNo ≠ 0) :
    Reaches (StillMove engine P Q) (generateSequenceReset engine now beginSeqNo newSeqNo) s := by
  obtain ⟨fields, hrun⟩ := @generateSequenceReset_run α engine now beginSeqNo newSeqNo s hbegin
  let s₁ : State α := { s with lastSentTime := now }
  have hidle : StillMove engine P Q s s₁ := idle_still rfl rfl rfl
  refine .of_eq (after_of_ok hrun) ?_
  split
  · exact .head hidle (.single ⟨.fillGap (gapFillMessage engine now beginSeqNo newSeqNo fields)
      rfl rfl, rfl⟩)
  · exact .single hidle

/-- The gap fill at the end of a resend, if there is anything to fill. -/
theorem whenGapFill_still (beginSeqNo newSeqNo : ℕ) (s : State α) :
    Reaches (StillMove engine P Q)
      (when (beginSeqNo ≠ 0) (generateSequenceReset engine now beginSeqNo newSeqNo)) s :=
  .ite (fun hbegin => gapFill_still now newSeqNo s hbegin) fun _ => .refl

section
variable (hP : ∀ body : Body α, body.isGenerated → P body)
include hP

/-- A gap fill from number 0 is a message with the next number. -/
theorem generateSequenceReset_steps (beginSeqNo newSeqNo : ℕ) :
    Steps (Move engine P Q) (generateSequenceReset engine now beginSeqNo newSeqNo) := by
  intro s
  by_cases hbegin : beginSeqNo = 0
  · subst hbegin
    refine (fill_steps now _ s).bind fun message s' h => ?_
    obtain ⟨hbody, -⟩ := body_of_fill now h
    have hbody' : message.body = .sequenceReset (some true) (some newSeqNo) := hbody
    refine Steps.bind (sendRaw_steps now ?_ ?_) (fun _ => .pure _) s'
    · show P message.body
      rw [hbody']
      exact hP _ trivial
    · intro happ
      have happ' : message.body.isAdmin = false := happ
      rw [hbody'] at happ'
      cases happ'
  · exact Relation.ReflTransGen.mono (fun _ _ h => h.1) _ _ (gapFill_still now newSeqNo s hbegin)

end

/-- The message of `resend`. -/
theorem resend_ok {message message' : Message α} {s s' : State α} {resent : Bool}
    (h : resend engine now message s = .ok (resent, message') s') :
    s' = s ∧ message' = message.resent now ∧
      resent = engine.application.toApp s.history (message.resent now) := by
  obtain ⟨sendingTime, hsendingTime, h⟩ := getField_bind_ok h
  cases h
  unfold Message.resent
  rw [hsendingTime]
  exact ⟨rfl, rfl, rfl⟩

/-- The loop of `generateRetransmits` resends messages of the store, which stays as it is. -/
theorem retransmit_reaches {message : Message α} {num : ℕ} {s : State α} (r : Retransmit)
    (hstored : s.store.messages.lookup num = some message) :
    Reaches (StillMove engine P Q) (retransmit engine now r message) s := by
  refine .ite (fun _ => .refl) fun happ => ?_
  refine Reaches.bind ?_ fun result s' h => ?_
  · exact Steps.bind (getField_steps _ _) (fun _ => .bind .get fun _ => .pure _) s
  obtain ⟨rfl, hmessage, hresent⟩ := resend_ok now (show resend engine now message s
    = .ok (result.1, result.2) s' from h)
  refine .ite (fun hresult => ?_) fun _ => .refl
  refine (whenGapFill_still now _ _ s').bind fun _ s₁ hgap => ?_
  have hstore : s₁.store = s'.store :=
    store_of_still (P := P) (Q := Q) ((whenGapFill_still now _ _ s').ok hgap)
  refine .of_eq (after_of_ok (bind_of_ok (sendString_run _ s₁))) ?_
  split
  · refine .single ⟨?_, rfl⟩
    rw [hmessage]
    exact .resend message now num (hstore ▸ hstored) (by simpa using happ) ⟨s'.history, by
      rw [← hresent]
      exact hresult⟩
  · exact .single (idle_still rfl rfl rfl)

/-- What the loop resends is in the store. -/
theorem mem_get {store : MemoryStore α} {beginSeqNo endSeqNo : ℕ} {message : Message α}
    (h : message ∈ store.get beginSeqNo endSeqNo) :
    ∃ num, store.messages.lookup num = some message := by
  unfold MemoryStore.get at h
  split at h
  · obtain ⟨num, -, hlookup⟩ := List.mem_filterMap.mp h
    exact ⟨num, hlookup⟩
  · cases h

/-- The loop over stored messages takes no new number. Each message finds the store as it was, so
the ones behind it are still stored. -/
theorem retransmitAll_reaches (messages : List (Message α)) :
    ∀ (r : Retransmit) (s : State α),
      (∀ message ∈ messages, ∃ num, s.store.messages.lookup num = some message) →
      Reaches (StillMove engine P Q) (messages.foldlM (retransmit engine now) r) s := by
  induction messages with
  | nil => intro r s _; exact .refl
  | cons message messages ih =>
    intro r s hstored
    obtain ⟨num, hnum⟩ := hstored message List.mem_cons_self
    refine (retransmit_reaches now r hnum).bind fun r' s' h => ih r' s' fun m hm => ?_
    have hstore : s'.store = s.store := 
      store_of_still ((retransmit_reaches (P := P) (Q := Q) now r hnum).ok h)
    rw [hstore]
    exact hstored m (List.mem_cons_of_mem _ hm)

section
variable (hP : ∀ body : Body α, body.isGenerated → P body)
include hP

/-- `generateRetransmits` takes no new number: it resends stored messages and fills gaps. -/
theorem generateRetransmits_steps (beginSeqNo endSeqNo : ℕ) :
    Steps (Move engine P Q) (generateRetransmits engine now beginSeqNo endSeqNo) := by
  intro s
  refine .get_bind (.bind ?_ fun r s' _ => ?_)
  · exact Relation.ReflTransGen.mono (fun _ _ h => h.1) _ _
      (retransmitAll_reaches now _ _ s fun message hm => mem_get hm)
  · exact Steps.bind (when_steps (generateSequenceReset_steps now hP _ _))
      (fun _ => when_steps (.bind .get fun _ => generateSequenceReset_steps now hP _ _)) s'

/-- The same for the range that a request asks for. -/
theorem retransmitRange_steps (beginSeqNo endSeqNo : ℕ) :
    Steps (Move engine P Q) (retransmitRange engine now beginSeqNo endSeqNo) :=
  .ite (generateRetransmits_steps now hP _ _)
    (.bind .get fun _ => generateSequenceReset_steps now hP _ _)

end

end

end Harjus.Session
