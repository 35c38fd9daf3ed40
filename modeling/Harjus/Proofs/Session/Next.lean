import Harjus.Proofs.Session.Moves

/-!
# `Harjus.Proofs.Session.Next`: every call of a session is a sequence of moves

The handlers of the messages by their types, `next` of a message and of a time, and the loop over
the queue do nothing but moves. `run_moves` says so of a run of calls.

`next` and the loop call each other, so their lemmas take the other as a computation that does
moves. A message from the queue is one that has been received (`Sourced`), which every move
preserves; `QueueMove` is a move from such a state.
-/

set_option autoImplicit false

namespace Harjus.Session

open Harjus.Lib

variable {α : Type} {engine : Engine α} {P : Body α → Prop} {Q : Message α → Prop}
  (now : UtcTimeStamp)

section
variable (hP : ∀ body : Body α, body.isGenerated → P body)
include hP

/-! ### Messages by their types -/

/-- A logout is answered with one, unless one has been sent, counted, and ends the connection. -/
theorem nextLogout_steps {message : Message α} (hQ : Q message) (hadmin : message.body.isAdmin) :
    Steps (Move engine P Q) (nextLogout engine now message) :=
  .bind (verify_steps now hP hQ hadmin _ _) fun _ => when_steps <|
    .bind .get fun _ => .bind (when_steps (generateLogout_steps now hP _)) fun _ =>
      .bind incrNextTargetMsgSeqNum_steps fun _ =>
        .bind (when_steps (resetStore_steps now)) fun _ => disconnect_steps now

/-- A sequence reset advances the expected number, or is answered with a reject. -/
theorem nextSequenceReset_steps {message : Message α} (hQ : Q message)
    (hadmin : message.body.isAdmin)
    (gapFillFlag : Option Bool) (newSeqNo : Option ℕ) :
    Steps (Move engine P Q) (nextSequenceReset engine now message gapFillFlag newSeqNo) := by
  refine .bind (verify_steps now hP hQ hadmin _ _) fun _ => when_steps ?_
  cases newSeqNo with
  | none => exact .pure _
  | some newSeqNo =>
    intro s
    refine .get_bind (.ite (fun hlt => ?_) fun _ => ?_)
    · exact .single (.advance newSeqNo (Nat.le_of_lt hlt))
    · exact when_steps (generateReject_steps now hP _ _ _) s

/-- A resend request is answered without new numbers, and counted. -/
theorem nextResendRequest_steps {message : Message α} (hQ : Q message)
    (hadmin : message.body.isAdmin)
    (beginSeqNo endSeqNo : Option ℕ) :
    Steps (Move engine P Q) (nextResendRequest engine now message beginSeqNo endSeqNo) :=
  .bind (verify_steps now hP hQ hadmin _ _) fun _ => when_steps <|
    .bind (getField_steps _ _) fun _ => .bind (getField_steps _ _) fun _ => .bind .get fun _ =>
      .bind (retransmitRange_steps now hP _ _) fun _ => .bind (getField_steps _ _) fun _ =>
        .bind .get fun _ => when_steps incrNextTargetMsgSeqNum_steps

omit hP in
/-- At the logon the application sends its messages, each of them with a new number. -/
theorem notifyLogon_steps (hlogon : ∀ history messages,
      engine.application.onLogon history = .ok messages → ∀ message ∈ messages, P message.body) :
    Steps (Move engine P Q) (notifyLogon engine now) := by
  refine .bind .get fun s => when_steps (.bind (emit_notice rfl) fun _ => ?_)
  have hsend : ∀ messages : List (Message α), (∀ message ∈ messages, P message.body) →
      Steps (Move engine P Q) (messages.forM fun message => do
        let _ ← send engine now message) := by
    intro messages
    induction messages with
    | nil => intro _; exact .pure _
    | cons message messages ih =>
      intro hmessages
      refine .bind (.bind (send_steps now (hmessages _ List.mem_cons_self)) fun _ => .pure _)
        fun _ => ih fun m hm => hmessages m (List.mem_cons_of_mem _ hm)
  cases hmessages : engine.application.onLogon s.history with
  | error e => exact .throw e
  | ok messages => exact hsend messages (hlogon s.history messages hmessages)

/-- The timer. -/
theorem nextTimer_steps : Steps (Move engine P Q) (nextTimer engine now) := by
  refine .bind .get fun _ => .ite (reset_steps now hP) (.bind .get fun _ => .bind .get fun _ =>
    .ite (.pure _) (.bind .get fun _ => .bind (when_steps (generateLogout_steps now hP _))
      fun _ => .bind .get fun _ => .ite ?_ (.ite (.pure _) ?_)))
  · exact .ite (generateLogon_steps now hP) (when_steps (disconnect_steps now))
  · refine .bind (when_steps (disconnect_steps now)) fun _ => .bind .get fun _ =>
      .ite (.pure _) (.ite (disconnect_steps now) (.ite ?_ ?_))
    · exact .bind (generateTestRequest_steps now hP _) fun _ =>
        idle_steps fun _ => ⟨rfl, rfl, rfl⟩
    · exact when_steps (generateHeartbeat_steps now hP _)

/-- An exception is answered with a reject or a logout, and may end the connection. -/
theorem handle_steps {message : Message α} (hQ : Q message) (e : Exception) :
    Steps (Move engine P Q) (handle engine now message e) := by
  -- What throws while the answer is sent is only logged.
  have hlogex : ∀ {action : SessionM α Unit}, Steps (Move engine P Q) action →
      Steps (Move engine P Q) (logex action) := fun h => .tryCatch h fun _ => .pure _
  have hreject : ∀ err field, Steps (Move engine P Q)
      (logex (generateReject engine now message err field)) :=
    fun err field => hlogex (generateReject_steps now hP _ _ _)
  have hbusiness : ∀ err field, Steps (Move engine P Q)
      (logex (generateBusinessReject engine now message err field)) :=
    fun err field => hlogex (generateBusinessReject_steps now hP _ _ _)
  cases e with
  | messageParseError => exact .pure _
  | invalidMessage => exact .pure _
  | exception => exact .throw _
  | ioException => exact disconnect_steps now
  | fieldNotFound field =>
    exact .ite (hbusiness _ _) (.bind (hreject _ _) fun _ => when_steps (disconnect_steps now))
  | unsupportedMessageType =>
    exact .ite (hbusiness _ _) (hlogex (generateRejectText_steps now hP _ _))
  | rejectLogon what =>
    exact .bind (generateLogout_steps now hP _) fun _ => disconnect_steps now
  | unsupportedVersion =>
    refine Steps.ite' (fun hlogout => nextLogout_steps now hP hQ ?_) fun _ => ?_
    · cases hbody : message.body with
      | logout text => rfl
      | _ =>
        rw [hbody] at hlogout
        cases hlogout
    · exact .bind (generateLogout_steps now hP _) fun _ => incrNextTargetMsgSeqNum_steps
  | requiredTagMissing field => exact hreject _ _
  | invalidTagNumber field => exact hreject _ _
  | noTagValue field => exact hreject _ _
  | tagNotDefinedForMessage field => exact hreject _ _
  | invalidMessageType => exact hreject _ _
  | tagOutOfOrder field => exact hreject _ _
  | incorrectDataFormat field => exact hreject _ _
  | incorrectTagValue field => exact hreject _ _
  | repeatedTag field => exact hreject _ _
  | repeatingGroupCountMismatch field => exact hreject _ _

end

/-! ### `next` -/

/-- `P` admits what a session sends without being asked to: the messages that it makes itself, and
what its application sends when it is logged on. -/
structure Admits (engine : Engine α) (P : Body α → Prop) : Prop where
  generated : ∀ body : Body α, body.isGenerated → P body
  onLogon : ∀ history messages, engine.application.onLogon history = .ok messages →
    ∀ message ∈ messages, P message.body

/-- What is in the queue has been received. -/
def Sourced (Q : Message α → Prop) (s : State α) : Prop :=
  ∀ num message, s.queue.lookup num = some message → Q message

/-- No move puts anything else into the queue. -/
theorem Move.sourced {s s' : State α} (h : Move engine P Q s s') (hs : Sourced Q s) :
    Sourced Q s' := by
  intro num message hlookup
  cases h with
  | idle _ _ hqueue =>
    cases hqueue num message hlookup with
    | inl h => exact hs num message h
    | inr h => exact h
  | _ => exact hs num message hlookup

/-- A move from a state whose queue is `Sourced`. -/
def QueueMove (engine : Engine α) (P : Body α → Prop) (Q : Message α → Prop) (s s' : State α) :
    Prop :=
  Sourced Q s → Move engine P Q s s'

/-- A computation that does moves does moves from a `Sourced` queue. -/
theorem queueMove_of_steps {β : Type} {x : SessionM α β} (h : Steps (Move engine P Q) x) :
    Steps (QueueMove engine P Q) x :=
  h.mono fun _ _ hmove _ => hmove

/-- From a `Sourced` queue such moves are moves. -/
theorem moves_of_queueMoves {s s' : State α} (hs : Sourced Q s)
    (h : Relation.ReflTransGen (QueueMove engine P Q) s s') :
    Relation.ReflTransGen (Move engine P Q) s s' ∧ Sourced Q s' := by
  induction h with
  | refl => exact ⟨.refl, hs⟩
  | tail _ hstep ih => exact ⟨ih.1.tail (hstep ih.2), (hstep ih.2).sourced ih.2⟩

section
variable (hP : Admits engine P) {drain : SessionM α Unit}
  (hdrain : Steps (QueueMove engine P Q) drain) {message : Message α} (hQ : Q message)
include hP hdrain hQ

/-- A logon is counted and the queue drained, or it waits as a message behind a gap. -/
theorem countLogon_steps (resetSeqNumFlag : Bool) :
    Steps (QueueMove engine P Q) (countLogon engine now drain message resetSeqNumFlag) := by
  refine .bind (getField_steps _ _) fun _ => .bind .get fun _ => .ite
    (queueMove_of_steps (.ite ?_ (doTargetTooHigh_steps now hP.generated hQ)))
    (.bind (queueMove_of_steps incrNextTargetMsgSeqNum_steps) fun _ => hdrain)
  exact .bind (queueMessage_steps _ hQ) fun _ => idle_steps fun _ => ⟨rfl, rfl, rfl⟩

/-- A logon that is accepted may be answered, is counted, and what the other side misses is
resent. -/
theorem acceptLogon_steps (resetSeqNumFlag : Bool) (heartBtInt : Option ℤ)
    (nextExpectedMsgSeqNum : Option ℕ) :
    Steps (QueueMove engine P Q) (acceptLogon engine now drain message resetSeqNumFlag heartBtInt
      nextExpectedMsgSeqNum) := by
  have hidle : ∀ {f : State α → State α}, (∀ s, (f s).store = s.store ∧
      (f s).history = s.history ∧ (f s).queue = s.queue) →
      Steps (QueueMove engine P Q) (modify f : SessionM α PUnit) :=
    fun h => queueMove_of_steps (idle_steps h)
  refine .bind (hidle fun _ => ⟨rfl, rfl, rfl⟩) fun _ => .bind .get fun _ => .ite ?_ ?_
  · exact queueMove_of_steps (.bind (generateLogout_steps now hP.generated _) fun _ =>
      disconnect_steps now)
  refine .bind .get fun _ => .bind (when_steps ?_) fun _ =>
    .bind (hidle fun _ => ⟨rfl, rfl, rfl⟩) fun _ =>
      .bind (countLogon_steps now hP hdrain hQ _) fun _ => queueMove_of_steps ?_
  · exact .bind (hidle fun _ => ⟨rfl, rfl, rfl⟩) fun _ =>
      queueMove_of_steps (generateLogonAnswer_steps now hP.generated _)
  · exact .bind (notifyLogon_steps now hP.onLogon) fun _ =>
      when_steps (.bind .get fun _ => retransmitRange_steps now hP.generated _ _)

/-- A logon may reset the store, and is accepted or ends the connection. -/
theorem nextLogon_steps (hadmin : message.body.isAdmin) (resetSeqNumFlag : Option Bool)
    (heartBtInt : Option ℤ) (nextExpectedMsgSeqNum : Option ℕ) :
    Steps (QueueMove engine P Q) (nextLogon engine now drain message resetSeqNumFlag heartBtInt
      nextExpectedMsgSeqNum) := by
  have hdisconnect : Steps (QueueMove engine P Q) (disconnect engine now) :=
    queueMove_of_steps (disconnect_steps now)
  have hreset : Steps (QueueMove engine P Q) (resetStore (α := α) now) :=
    queueMove_of_steps (resetStore_steps now)
  refine .bind .get fun _ => .ite hdisconnect (.ite hdisconnect (.bind
    (queueMove_of_steps (idle_steps fun _ => ⟨rfl, rfl, rfl⟩)) fun _ => .bind .get fun _ =>
      .bind (when_steps hreset) fun _ => .bind .get fun _ => .ite hdisconnect
        (.bind (when_steps hreset) fun _ => ?_)))
  exact .bind (queueMove_of_steps (verify_steps now hP.generated hQ hadmin _ _)) fun _ =>
    when_steps (acceptLogon_steps now hP hdrain hQ _ _ _)

/-- A message that passes the checks is counted, and the queue is drained. -/
theorem verifyAndCount_steps (hadmin : message.body.isAdmin) (checkTooHigh : Bool) :
    Steps (QueueMove engine P Q) (verifyAndCount engine now drain message checkTooHigh) :=
  .bind (queueMove_of_steps (verify_steps now hP.generated hQ hadmin _ _)) fun _ =>
    when_steps <| .bind (queueMove_of_steps incrNextTargetMsgSeqNum_steps) fun _ => hdrain

/-- A test request is answered with a heartbeat and counted. -/
theorem nextTestRequest_steps (hadmin : message.body.isAdmin) (testReqID : Option String) :
    Steps (QueueMove engine P Q) (nextTestRequest engine now drain message testReqID) :=
  .bind (queueMove_of_steps (verify_steps now hP.generated hQ hadmin _ _)) fun _ =>
    when_steps <| .bind (queueMove_of_steps (generateHeartbeat_steps now hP.generated _)) fun _ =>
      .bind (queueMove_of_steps incrNextTargetMsgSeqNum_steps) fun _ => hdrain

/-- What `next` does for each type of message. -/
theorem nextOfType_steps :
    Steps (QueueMove engine P Q) (nextOfType engine now drain message) := by
  unfold nextOfType
  cases hbody : message.body with
  | logon resetSeqNumFlag heartBtInt nextExpectedMsgSeqNum =>
    exact .bind (nextLogon_steps now hP hdrain hQ (by rw [hbody]; rfl) _ _ _) fun _ => .pure _
  | heartbeat testReqID =>
    exact .bind (verifyAndCount_steps now hP hdrain hQ (by rw [hbody]; rfl) _) fun _ => .pure _
  | testRequest testReqID =>
    exact .bind (nextTestRequest_steps now hP hdrain hQ (by rw [hbody]; rfl) _) fun _ => .pure _
  | sequenceReset gapFillFlag newSeqNo =>
    exact queueMove_of_steps (.bind
      (nextSequenceReset_steps now hP.generated hQ (by rw [hbody]; rfl) _ _) fun _ => .pure _)
  | logout text =>
    exact queueMove_of_steps (.bind (nextLogout_steps now hP.generated hQ (by rw [hbody]; rfl))
      fun _ => .pure _)
  | resendRequest beginSeqNo endSeqNo =>
    exact queueMove_of_steps (.bind
      (nextResendRequest_steps now hP.generated hQ (by rw [hbody]; rfl) _ _) fun _ => .pure _)
  | reject refSeqNum refMsgType sessionRejectReason refTagID text =>
    exact .bind (verifyAndCount_steps now hP hdrain hQ (by rw [hbody]; rfl) _) fun _ => .pure _
  | businessMessageReject refMsgType refSeqNum businessRejectReason text =>
    exact queueMove_of_steps (nextApp_steps now hP.generated hQ (by rw [hbody]; rfl))
  | app msgType content =>
    exact queueMove_of_steps (nextApp_steps now hP.generated hQ (by rw [hbody]; rfl))

/-- The `try` block of `next`: the session's hours, the header, the dictionary, and the type. -/
theorem dispatch_steps :
    Steps (QueueMove engine P Q) (dispatch engine now drain message) :=
  .bind .get fun _ => .ite
    (queueMove_of_steps (.bind (reset_steps now hP.generated) fun _ => .pure _))
    (.bind (getField_steps _ _) fun _ => .bind (getField_steps _ _) fun _ =>
      .bind (when_steps (.throw _)) fun _ => .bind (ofExcept_steps _) fun _ =>
        nextOfType_steps now hP hdrain hQ)

/-- `next` of a message: what the type of the message does, or what its exception is answered
with, and the timer after it. -/
theorem next_steps (queued : Bool) :
    Steps (QueueMove engine P Q) (next engine now drain message queued) :=
  .bind (.tryCatch (dispatch_steps now hP hdrain hQ) fun e =>
    .bind (queueMove_of_steps (handle_steps now hP.generated hQ e)) fun _ => .pure _) fun _ =>
      when_steps <| .bind (when_steps hdrain) fun _ => .bind .get fun _ =>
        when_steps (queueMove_of_steps (nextTimer_steps now hP.generated))

end

/-- Taking a message from the queue is an `idle` move. -/
theorem retrieve_steps (num : ℕ) : Steps (Move engine P Q) (retrieve (α := α) num) := by
  refine .bind .get fun s => ?_
  cases s.queue.lookup num with
  | none => exact .pure _
  | some message =>
    refine .bind (.modify fun s => .idle rfl rfl fun num' m h => Or.inl ?_) fun _ => .pure _
    by_cases hnum : num' = num
    · subst hnum
      rw [Finmap.lookup_erase] at h
      cases h
    · rwa [Finmap.lookup_erase_ne hnum] at h

/-- What `retrieve` returns was in the queue. -/
theorem retrieve_some {num : ℕ} {message : Message α} {s s' : State α}
    (h : retrieve num s = .ok (some message) s') : s.queue.lookup num = some message := by
  rw [retrieve, get_bind] at h
  cases hlookup : s.queue.lookup num with
  | none =>
    rw [hlookup] at h
    cases h
  | some m =>
    rw [hlookup] at h
    cases h
    rfl

section
variable (hP : Admits engine P)
include hP

/-- The induction is on the number of messages that may leave the queue. -/
theorem nextQueued_steps (count : ℕ) :
    Steps (QueueMove engine P Q) (nextQueued engine now count) := by
  induction count with
  | zero => exact .pure _
  | succ count ih =>
    intro s
    by_cases hs : Sourced Q s
    · refine .get_bind (.bind (queueMove_of_steps (retrieve_steps _) s)
        fun retrieved s' hretrieve => ?_)
      cases retrieved with
      | none => exact .refl
      | some message =>
        have hQ : Q message := hs _ _ (retrieve_some hretrieve)
        exact Steps.bind (.ite (queueMove_of_steps incrNextTargetMsgSeqNum_steps)
          (next_steps now hP ih hQ true)) (fun _ => ih) s'
    · exact .single fun hsourced => absurd hsourced hs

/-- The drained queue. Induction on its size: each message is taken before it is passed on. -/
theorem nextQueuedAll_steps : Steps (QueueMove engine P Q) (nextQueuedAll engine now) :=
  .bind .get fun _ => nextQueued_steps now hP _

/-- A call from outside does nothing but moves. -/
theorem call_steps {input : Input α} (hsend : ∀ message, input = .send message → P message.body)
    (hnext : ∀ message, input = .next message → Q message) :
    Steps (QueueMove engine P Q) (call engine now input) := by
  cases input with
  | setResponder connected =>
    exact queueMove_of_steps (.bind .get fun _ => .bind (when_steps (reset_steps now hP.generated))
      fun _ => idle_steps fun _ => ⟨rfl, rfl, rfl⟩)
  | next message =>
    exact next_steps now hP (nextQueuedAll_steps now hP) (hnext message rfl) false
  | nextInvalid isLogon =>
    exact queueMove_of_steps (.bind (when_steps (disconnect_steps now)) fun _ => .throw _)
  | timer => exact queueMove_of_steps (nextTimer_steps now hP.generated)
  | send message =>
    exact queueMove_of_steps (.bind (send_steps now (hsend message rfl)) fun _ => .pure _)
  | disconnect => exact queueMove_of_steps (disconnect_steps now)
  | logon => exact queueMove_of_steps (idle_steps fun _ => ⟨rfl, rfl, rfl⟩)
  | logout reason => exact queueMove_of_steps (idle_steps fun _ => ⟨rfl, rfl, rfl⟩)

/-- A run does nothing but moves. -/
theorem run_moves (inputs : List (UtcTimeStamp × Input α)) :
    ∀ {s : State α}, Sourced Q s →
      (∀ input ∈ inputs, ∀ message, input.2 = .send message → P message.body) →
      (∀ input ∈ inputs, ∀ message, input.2 = .next message → Q message) →
      Relation.ReflTransGen (Move engine P Q) s (run engine s inputs) := by
  induction inputs with
  | nil => intro s _ _ _; exact .refl
  | cons input inputs ih =>
    intro s hs hsend hnext
    have hcall : Reaches (QueueMove engine P Q) (call engine input.1 input.2) s :=
      call_steps input.1 hP (hsend input List.mem_cons_self) (hnext input List.mem_cons_self) s
    obtain ⟨hmoves, hs'⟩ := moves_of_queueMoves hs hcall
    exact hmoves.trans (ih hs' (fun i hi => hsend i (List.mem_cons_of_mem _ hi))
      fun i hi => hnext i (List.mem_cons_of_mem _ hi))

end

end Harjus.Session
