import Harjus.Proofs.Session.Delivery
import Harjus.Proofs.Session.Resending

/-!
# `Harjus.Proofs.Session.Request`: resend requests

The two ends of a resend request, at sessions that are logged on and connected and have nothing
waiting (`Ready`).

* `step_requests`: a message with a higher number makes a session send a resend request for
  everything from the expected number on.
* `step_resendRequest`: a session that gets a resend request hands it to its application and then
  sends the answer (`Answer`).

What a history has, it keeps (`run_history`).
-/

set_option autoImplicit false

namespace Harjus.Session

open Harjus.Lib

variable {α : Type} {engine : Engine α} {times : Set UtcTimeStamp}

/-- A session that is logged on and connected, and has nothing waiting. -/
structure Ready (engine : Engine α) (times : Set UtcTimeStamp) (s : State α) : Prop where
  steady : Steady engine times s
  queue : s.queue = ∅
  hasResponder : s.hasResponder

/-- Nothing waits at a session that is ready. -/
theorem Ready.waiting {s : State α} (hs : Ready engine times s) :
    Waiting engine times s.buffer := by
  intro num message hlookup
  have hlookup' : s.queue.lookup num = some message := hlookup
  rw [hs.queue] at hlookup'
  cases hlookup'

/-- A session that is ready has nothing to drain. -/
theorem Ready.settled {s : State α} (hs : Ready engine times s) : s.buffer.Settled := by
  show s.queue.lookup s.expectedTargetNum = none
  rw [hs.queue]
  exact Finmap.lookup_empty _

/-! ### Histories grow -/

section
variable {P : Body α → Prop} {Q : Message α → Prop}

/-- A move adds to the history. -/
theorem Move.history {s s' : State α} (h : Move engine P Q s s') : s.history <+: s'.history := by
  cases h with
  | idle _ hhistory _ => rw [hhistory]
  | advance num _ => exact List.prefix_refl _
  | publish message sent _ _ _ _ =>
    cases sent with
    | false => exact List.prefix_refl _
    | true => exact List.prefix_append _ _
  | _ => exact List.prefix_append _ _

/-- Moves add to the history. Induction on the moves. -/
theorem history_of_moves {s s' : State α} (h : Relation.ReflTransGen (Move engine P Q) s s') :
    s.history <+: s'.history := by
  induction h with
  | refl => exact List.prefix_refl _
  | tail _ hmove ih => exact ih.trans hmove.history

end

/-- What does nothing but moves keeps the history. -/
theorem history_of_steps (engine : Engine α) {β : Type} {x : SessionM α β}
    (h : Steps (QueueMove engine (fun _ => True) fun _ => True) x) (s : State α) :
    s.history <+: (after x s).history :=
  history_of_moves (moves_of_queueMoves (fun _ _ _ => trivial) (h s)).1

/-- A run adds to the history. -/
theorem run_history (engine : Engine α) (s : State α) (inputs : List (UtcTimeStamp × Input α)) :
    s.history <+: (run engine s inputs).history :=
  history_of_moves (run_moves (admits_all engine) inputs (fun _ _ _ => trivial)
    (fun _ _ _ _ => trivial) fun _ _ _ _ => trivial)

variable (now : UtcTimeStamp)

/-- What `next` has recorded when its branch for the type returns stays recorded. -/
theorem step_history {s s' : State α} {message : Message α} {continues : Bool}
    (h : dispatch engine now (nextQueuedAll engine now) message s = .ok continues s') :
    s'.history <+: (step engine s (now, .next message)).history := by
  have hstep : step engine s (now, .next message) = after (when continues (do
      when (!false) (nextQueuedAll engine now)
      when (← get).isLoggedOn (nextTimer engine now))) s' :=
    after_bind_of_ok (tryCatch_of_ok h)
  rw [hstep]
  refine history_of_steps engine (when_steps (.bind (when_steps ?_) fun _ =>
    .bind .get fun _ => when_steps ?_)) s'
  · exact nextQueuedAll_steps now (admits_all engine)
  · exact queueMove_of_steps (nextTimer_steps now fun _ _ => trivial)

/-! ### A message with a higher number -/

/-- The request of a session that has seen a gap. -/
theorem step_requests {s : State α} (hs : Ready engine times s) (hnow : now ∈ times)
    (hrequested : s.resendRequested = false)
    (hversion : "FIX.4.2" ≤ engine.settings.sessionID.beginString) {message : Message α}
    (hm : Acceptable engine times message) (hnum : s.expectedTargetNum < message.seqNum) :
    ∃ fields, s.history ++ [Output.sent (generatedMessage engine now s.expectedSenderNum
        (.resendRequest (some (castInt s.expectedTargetNum)) (some 0)) fields)]
      <+: (step engine s (now, .next message)).history := by
  let s₁ : State α := { s with queue := s.queue.insert message.seqNum message }
  have hbegin : "FIX.4.2" ≤ message.header.beginString := hm.beginString.symm ▸ hversion
  obtain ⟨fields, hrun⟩ := generateResendRequest_run now engine hbegin message.seqNum s₁
  have hverify := verify_tooHigh now hs.steady hnow hm hnum (by
    rw [hrequested]
    exact hrun)
  obtain ⟨continues, hcontinues⟩ :=
    nextOfType_refused now (nextQueuedAll engine now) hm.counted hverify
  have hhistory := step_history now
    ((dispatch_of_welcome now _ hs.steady hnow hm.toWelcome).trans hcontinues)
  refine ⟨fields, ?_⟩
  rw [← history_afterGenerating now engine hs.hasResponder (Or.inl rfl)]
  exact hhistory

/-- A step that ends with an empty queue: what remains is the timer. -/
theorem step_of_ok {s s' : State α} {message : Message α}
    (h : tryCatch (dispatch engine now (nextQueuedAll engine now) message) (fun e => do
      handle engine now message e
      return true) s = .ok true s') (hs' : Steady engine times s') (hqueue : s'.queue = ∅) :
    step engine s (now, .next message) = after (nextTimer engine now) s' := by
  have hdrain : when (!false) (nextQueuedAll engine now) s' = .ok ⟨⟩ s' := by
    rw [when, if_pos (show (!false) = true from rfl), nextQueuedAll, get_bind, hqueue]
    rfl
  show after (next engine now (nextQueuedAll engine now) message false) s = _
  rw [next, after_bind_of_ok h, when, if_pos rfl, after_bind_of_ok hdrain, after_get_bind, when,
    if_pos hs'.isLoggedOn]

/-! ### The answer -/

/-- The last number that a resend request is answered for has been given. -/
theorem lastRequested_lt (engine : Engine α) {s : State α} (hs : 1 ≤ s.expectedSenderNum)
    (endSeqNo : ℕ) : lastRequested engine s endSeqNo < s.expectedSenderNum := by
  simp only [lastRequested]
  split
  · omega
  · rename_i hnone
    exact Nat.not_le.mp fun hle => hnone (Or.inr (Or.inr hle))

/-- The check of a message is nothing to what has been given numbers. -/
theorem recorded_afterVerify {s : State α} (hs : Recorded engine s) (range : ℕ × ℕ)
    (message : Message α) : Recorded engine (s.afterVerify now range message) := by
  have hnotice : ∀ m, Output.ofAccepted message ≠ .sent m := by
    intro m h
    unfold Output.ofAccepted at h
    split at h <;> cases h
  exact hs.concat hnotice rfl rfl rfl

/-- The state in which a session has answered a resend request, before it has counted it. -/
def State.afterAnswer (s : State α) (now : UtcTimeStamp) (message : Message α)
    (time : UtcTimeStamp) (outs : List (Message α)) : State α :=
  (s.afterVerify now s.resendRange message).afterSending time outs

/-- The history after a request has been answered and counted. -/
theorem history_afterAnswer {s : State α} {message : Message α} (hadmin : message.body.isAdmin)
    (time : UtcTimeStamp) (outs : List (Message α)) :
    (s.afterAnswer now message time outs).history
      = s.history ++ .fromAdmin message true :: outs.map Output.sent := by
  show (s.history ++ [Output.ofAccepted message]) ++ outs.map Output.sent = _
  rw [Output.ofAccepted, if_pos hadmin, List.append_assoc]
  rfl

/-- A session hands a resend request to its application, answers it, and counts it if it has the
expected number. -/
theorem nextResendRequest_run {s : State α} (hs : Ready engine times s) (hnow : now ∈ times)
    (hrecorded : Recorded engine s) (hpersist : engine.settings.persistMessages)
    {message : Message α} (hm : Welcome engine times message) {beginSeqNo endSeqNo : ℕ}
    (hbody : message.body = .resendRequest (some beginSeqNo) (some endSeqNo))
    (hpos : 1 ≤ beginSeqNo) (hle : beginSeqNo ≤ lastRequested engine s endSeqNo) :
    ∃ time outs, nextResendRequest engine now message (some beginSeqNo) (some endSeqNo) s
        = when (message.seqNum = s.expectedTargetNum) incrNextTargetMsgSeqNum
          (s.afterAnswer now message time outs) ∧
      Answer engine now s.store beginSeqNo (lastRequested engine s endSeqNo + 1) outs ∧
      (time = now ∨
        Resent engine now s.store beginSeqNo (lastRequested engine s endSeqNo + 1) outs) := by
  let s₁ := s.afterVerify now s.resendRange message
  obtain ⟨num, hnum⟩ := Option.isSome_iff_exists.mp hm.msgSeqNum
  have hseq : message.seqNum = num := by
    rw [Message.seqNum, hnum]
    rfl
  -- `verify` does not check the number of a resend request: a too high one is answered as well.
  have hverify := verify_unchecked now hs.steady hnow hm (by rw [hbody]; rfl)
  obtain ⟨time, outs, hrun, hanswer⟩ := generateRetransmits_answer now
    (recorded_afterVerify now hrecorded s.resendRange message) hpersist
    (show s₁.hasResponder from hs.hasResponder) hpos hle
    (lastRequested_lt engine hrecorded.positive endSeqNo)
  refine ⟨time, outs, ?_, hanswer⟩
  rw [nextResendRequest, bind_of_ok hverify, when, if_pos rfl]
  show (retransmitRange engine now beginSeqNo (lastRequested engine s₁ endSeqNo) >>= fun _ =>
    getField 34 message.header.msgSeqNum >>= fun msgSeqNum => get >>= fun s =>
      when (msgSeqNum = s.expectedTargetNum) incrNextTargetMsgSeqNum) s₁ = _
  have hretransmit : retransmitRange engine now beginSeqNo (lastRequested engine s₁ endSeqNo) s₁
      = .ok ⟨⟩ (s.afterAnswer now message time outs) := by
    rw [retransmitRange, if_pos hpersist]
    exact hrun
  rw [bind_of_ok hretransmit, hnum, hseq]
  rfl

/-- A step of a session with a resend request: what it does before the timer. -/
theorem step_resendRequest {s : State α} (hs : Ready engine times s) (hnow : now ∈ times)
    (hrecorded : Recorded engine s) (hpersist : engine.settings.persistMessages)
    {message : Message α} (hm : Welcome engine times message)
    (hbound : message.seqNum + 1 < SEQNUM_COUNT) {beginSeqNo endSeqNo : ℕ}
    (hbody : message.body = .resendRequest (some beginSeqNo) (some endSeqNo))
    (hpos : 1 ≤ beginSeqNo) (hle : beginSeqNo ≤ lastRequested engine s endSeqNo) :
    ∃ time outs num,
      step engine s (now, .next message) = after (nextTimer engine now)
        ((s.afterAnswer now message time outs).setExpected num) ∧
      Steady engine times ((s.afterAnswer now message time outs).setExpected num) ∧
      Answer engine now s.store beginSeqNo (lastRequested engine s endSeqNo + 1) outs ∧
      (time = now ∨
        Resent engine now s.store beginSeqNo (lastRequested engine s endSeqNo + 1) outs) := by
  obtain ⟨time, outs, hrun, hanswer⟩ :=
    nextResendRequest_run now hs hnow hrecorded hpersist hm hbody hpos hle
  have hcount : ∃ num, when (message.seqNum = s.expectedTargetNum) incrNextTargetMsgSeqNum
      (s.afterAnswer now message time outs)
      = .ok ⟨⟩ ((s.afterAnswer now message time outs).setExpected num) := by
    unfold when
    split
    · rename_i heq
      exact ⟨_, incrNextTargetMsgSeqNum_run (heq ▸ hbound)⟩
    · exact ⟨s.expectedTargetNum, rfl⟩
  obtain ⟨num, hcount⟩ := hcount
  have hsteady : Steady engine times ((s.afterAnswer now message time outs).setExpected num) :=
    ⟨hs.steady.enabled, hs.steady.receivedLogon, hs.steady.sentLogon, hs.steady.sentLogout, rfl,
      hnow, hs.steady.sessionTime, hs.steady.logonTime, hs.steady.alive⟩
  refine ⟨time, outs, num, ?_, hsteady, hanswer⟩
  have hdispatch : dispatch engine now (nextQueuedAll engine now) message s
      = .ok true ((s.afterAnswer now message time outs).setExpected num) := by
    rw [dispatch_of_welcome now _ hs.steady hnow hm, nextOfType, hbody]
    exact bind_of_ok (hrun.trans hcount)
  exact step_of_ok now (tryCatch_of_ok hdispatch) hsteady hs.queue

/-! ### A type that the dictionary does not have -/

/-- `generateReject` of a message that is neither a logon nor a sequence reset. -/
theorem generateReject_run {s : State α} (hs : Steady engine times s) {message : Message α}
    (hm : Addressed engine times message) (hlogon : message.body.isLogon = false)
    (hreset : message.body.isSequenceReset = false) (hbound : message.seqNum + 1 < SEQNUM_COUNT)
    (err : SessionRejectReason) (field : ℕ) :
    ∃ num fields, generateReject engine now message err field s
      = .ok ⟨⟩ ((s.setExpected num).afterGenerating engine now
        (generatedMessage engine now s.expectedSenderNum (rejectBody engine message err field)
          fields)) := by
  obtain ⟨seqNum, hnum⟩ := Option.isSome_iff_exists.mp hm.msgSeqNum
  have hseq : message.seqNum = seqNum := by
    rw [Message.seqNum, hnum]
    rfl
  let s₁ : State α := { s with lastSentTime := now }
  -- The rejected message is counted if it has the expected number.
  have hcount : ∃ num, when (seqNum = s.expectedTargetNum) incrNextTargetMsgSeqNum s₁
      = .ok ⟨⟩ (s₁.setExpected num) := by
    unfold when
    split
    · rename_i heq
      have hlt : s₁.expectedTargetNum + 1 < SEQNUM_COUNT := by
        show s.expectedTargetNum + 1 < SEQNUM_COUNT
        rw [← heq, ← hseq]
        exact hbound
      exact ⟨_, incrNextTargetMsgSeqNum_run hlt⟩
    · exact ⟨s.expectedTargetNum, rfl⟩
  obtain ⟨num, hcount⟩ := hcount
  -- The reject goes out under the next number of this side.
  have hsend : ∃ fields, sendRaw engine now (generatedMessage engine now s.expectedSenderNum
      (rejectBody engine message err field) []) 0 (s₁.setExpected num)
      = .ok true ((s₁.setExpected num).afterGenerating engine now (generatedMessage engine now
        s.expectedSenderNum (rejectBody engine message err field) fields)) :=
    sendRaw_run now engine rfl rfl (s₁.setExpected num)
  obtain ⟨fields, hsend⟩ := hsend
  refine ⟨num, fields, ?_⟩
  have hnumbered : when (!message.body.isLogon && !message.body.isSequenceReset)
      (when (seqNum = s₁.expectedTargetNum) incrNextTargetMsgSeqNum) s₁
        = .ok ⟨⟩ (s₁.setExpected num) := by
    rw [when, if_pos (by simp [hlogon, hreset])]
    exact hcount
  have hlogged : when (!s₁.receivedLogon) (throw .exception) (s₁.setExpected num)
      = .ok ⟨⟩ (s₁.setExpected num) := by
    rw [when, if_neg (by simp [s₁, hs.receivedLogon])]
    rfl
  rw [generateReject, bind_of_ok (fill_run now _ s), get_bind, hnum]
  exact (bind_of_ok hnumbered).trans ((bind_of_ok hlogged).trans (bind_of_ok hsend))

/-- A step of a session with a message of a type that its dictionary does not have. -/
theorem step_invalidMessageType {s : State α} (hs : Ready engine times s) (hnow : now ∈ times)
    {message : Message α} (hm : Addressed engine times message)
    (hvalidate : engine.validate message = .error .invalidMessageType)
    (hlogon : message.body.isLogon = false) (hreset : message.body.isSequenceReset = false)
    (hbound : message.seqNum + 1 < SEQNUM_COUNT) :
    ∃ num fields,
      let s' := (s.setExpected num).afterGenerating engine now (generatedMessage engine now
        s.expectedSenderNum (rejectBody engine message .INVALID_MSGTYPE 0) fields)
      step engine s (now, .next message) = after (nextTimer engine now) s' ∧
        Steady engine times s' := by
  obtain ⟨num, fields, hreject⟩ :=
    generateReject_run now hs.steady hm hlogon hreset hbound .INVALID_MSGTYPE 0
  have hsteady := (steady_setExpected hs.steady num).of_quiet (quiet_afterGenerating now engine
    (s.setExpected num) (generatedMessage engine now s.expectedSenderNum
      (rejectBody engine message .INVALID_MSGTYPE 0) fields))
  refine ⟨num, fields, step_of_ok now ?_ hsteady hs.queue, hsteady⟩
  have hdispatch : dispatch engine now (nextQueuedAll engine now) message s
      = .error .invalidMessageType s := by
    rw [dispatch_of_addressed now _ hs.steady hnow hm, hvalidate]
    rfl
  have hhandle : handle engine now message .invalidMessageType s = .ok ⟨⟩ _ :=
    tryCatch_of_ok hreject
  rw [tryCatch_of_error hdispatch, bind_of_ok hhandle]
  rfl

end Harjus.Session
