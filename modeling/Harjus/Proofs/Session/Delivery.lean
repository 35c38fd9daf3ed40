import Harjus.Proofs.Session.Steady

/-!
# `Harjus.Proofs.Session.Delivery`: messages that arrive out of order

A steady session refines a receiver that puts messages into order (`Harjus.Lib.Reorder`): `next`
of a message is `Buffer.receive`, and `nextQueued` is `Buffer.drain`.

* `step_receive`: a step of the session is a step of the receiver.
* `delivered_in_order`: the messages that cover a range of numbers are handed to the application in
  order and each of them once, in whichever order they arrive.

`nextQueued` calls `next`, and `next` calls `nextQueued` for some types of messages. The induction
is on the number of messages that may leave the queue, with what `nextQueued` does for fewer as the
hypothesis (`Drains`).
-/

set_option autoImplicit false

namespace Harjus.Session

open Harjus.Lib

variable {α : Type} (engine : Engine α) (times : Set UtcTimeStamp) (now : UtcTimeStamp)

/-- The messages that wait are acceptable, and wait under their numbers. -/
def Waiting (b : Buffer (Message α)) : Prop :=
  ∀ num message, b.waiting.lookup num = some message →
    Acceptable engine times message ∧ message.seqNum = num

/-- A computation drains the buffer of a steady session, if not too many messages wait. -/
def Drains (count : ℕ) (drain : SessionM α Unit) : Prop :=
  ∀ s, Steady engine times s → Waiting engine times s.buffer → s.queue.keys.card ≤ count →
    ∃ s', drain s = .ok ⟨⟩ s' ∧ Steady engine times s' ∧
      s'.buffer = s.buffer.drain Message.nextNum

variable {engine times}

/-! ### Buffers -/

/-- Delivering a message leaves the ones that wait. -/
theorem Waiting.deliver {b : Buffer (Message α)} (h : Waiting engine times b)
    (message : Message α) : Waiting engine times (b.deliver Message.nextNum message) := h

/-- Of acceptable messages, one less is waiting. -/
theorem Waiting.take {b : Buffer (Message α)} (h : Waiting engine times b) :
    Waiting engine times b.take := by
  intro num message hlookup
  have hlookup' : (b.waiting.erase b.expected).lookup num = some message := hlookup
  by_cases hnum : num = b.expected
  · rw [hnum, Finmap.lookup_erase] at hlookup'
    cases hlookup'
  · rw [Finmap.lookup_erase_ne hnum] at hlookup'
    exact h num message hlookup'

/-- Of acceptable messages, those that are left after a drain are acceptable. -/
theorem Waiting.drain {b : Buffer (Message α)} (h : Waiting engine times b) :
    Waiting engine times (b.drain Message.nextNum) :=
  fun num message hlookup => h num message (Buffer.lookup_drain hlookup)

/-- An acceptable message joins the ones that wait. -/
theorem Waiting.insert {b : Buffer (Message α)} (h : Waiting engine times b) {message : Message α}
    (hm : Acceptable engine times message) :
    Waiting engine times { b with waiting := b.waiting.insert message.seqNum message } := by
  intro num m hlookup
  have hlookup' : (b.waiting.insert message.seqNum message).lookup num = some m := hlookup
  by_cases hnum : num = message.seqNum
  · rw [hnum, Finmap.lookup_insert] at hlookup'
    cases hlookup'
    exact ⟨hm, hnum.symm⟩
  · rw [Finmap.lookup_insert_of_ne _ hnum] at hlookup'
    exact h num m hlookup'

/-- Acceptable messages wait after an acceptable one has been received. -/
theorem Waiting.receive {b : Buffer (Message α)} (h : Waiting engine times b)
    {message : Message α} (hm : Acceptable engine times message) :
    Waiting engine times (b.receive Message.seqNum Message.nextNum message) := by
  unfold Buffer.receive
  split
  · exact (h.deliver message).drain
  · split
    · exact h.insert hm
    · exact h

/-- A drain leaves at most as many messages as waited. -/
theorem card_drain_le (b : Buffer (Message α)) :
    (b.drain Message.nextNum).waiting.keys.card ≤ b.waiting.keys.card := by
  refine Finset.card_le_card fun num hnum => ?_
  obtain ⟨message, hlookup⟩ := Finmap.mem_iff.mp (Finmap.mem_keys.mp hnum)
  exact Finmap.mem_keys.mpr (Finmap.mem_of_lookup_eq_some (Buffer.lookup_drain hlookup))

/-- A sequence reset that is counted is a gap fill. -/
theorem gapFill_of_counted {gapFillFlag : Option Bool} {newSeqNo : Option ℕ}
    (h : (Body.sequenceReset gapFillFlag newSeqNo : Body α).isCounted) :
    ∃ num, gapFillFlag = some true ∧ newSeqNo = some num := by
  cases gapFillFlag with
  | none => cases h
  | some flag =>
    cases newSeqNo with
    | none => cases flag <;> cases h
    | some num =>
      cases flag with
      | false => cases h
      | true => exact ⟨num, rfl, rfl⟩

/-! ### A message with the expected number -/

/-- A session that has checked a message stays steady: the message came in time. -/
theorem steady_afterVerify {s : State α} (hs : Steady engine times s) (hnow : now ∈ times)
    (range : ℕ × ℕ) (message : Message α) :
    Steady engine times (s.afterVerify now range message) :=
  ⟨hs.enabled, hs.receivedLogon, hs.sentLogon, hs.sentLogout, rfl, hnow, hs.sessionTime,
    hs.logonTime, hs.alive⟩

/-- The state in which a message has been handed over and counted. -/
def State.setExpected (s : State α) (num : ℕ) : State α :=
  { s with store := s.store.setNextTargetMsgSeqNum num }

/-- The expected number is nothing to a steady session. -/
theorem steady_setExpected {s : State α} (hs : Steady engine times s) (num : ℕ) :
    Steady engine times (s.setExpected num) :=
  ⟨hs.enabled, hs.receivedLogon, hs.sentLogon, hs.sentLogout, hs.testRequest,
    hs.lastReceivedTime, hs.sessionTime, hs.logonTime, hs.alive⟩

/-- The same receivers with the same expected number are the same receivers. -/
theorem buffer_setExpected {s s' : State α} (h : s'.buffer = s.buffer) (num : ℕ) :
    (s'.setExpected num).buffer = (s.setExpected num).buffer := by
  have hqueue : s'.queue = s.queue := congrArg Buffer.waiting h
  have hhanded : s'.handed = s.handed := congrArg Buffer.delivered h
  show (⟨num, s'.queue, s'.handed⟩ : Buffer (Message α)) = ⟨num, s.queue, s.handed⟩
  rw [hqueue, hhanded]

/-- To hand a message over and to count it is to deliver it. -/
theorem buffer_deliver (s : State α) (range : ℕ × ℕ) (message : Message α) :
    ((s.afterVerify now range message).setExpected message.nextNum).buffer
      = s.buffer.deliver Message.nextNum message := by
  show (⟨message.nextNum, s.queue, (s.history ++ [Output.ofAccepted message]).filterMap
    Output.handed⟩ : Buffer (Message α)) = ⟨message.nextNum, s.queue, s.handed ++ [message]⟩
  rw [handed_append, handed_ofAccepted]
  rfl

/-- The branch of `next` for the type of a message that is expected. For some types the queue is
drained there. -/
theorem nextOfType_expected {drain : SessionM α Unit} {count : ℕ}
    (hdrain : Drains engine times count drain) {s : State α} (hs : Steady engine times s)
    (hnow : now ∈ times) (hwaiting : Waiting engine times s.buffer)
    (hcard : s.queue.keys.card ≤ count) {message : Message α}
    (hm : Acceptable engine times message) (hnum : message.seqNum = s.expectedTargetNum) :
    ∃ s', nextOfType engine now drain message s = .ok true s' ∧ Steady engine times s' ∧
      (s'.buffer = s.buffer.deliver Message.nextNum message ∨
        s'.buffer = (s.buffer.deliver Message.nextNum message).drain Message.nextNum) := by
  obtain ⟨range, hverify⟩ := verify_expected now hs hnow hm hnum
  have hs₁ := steady_afterVerify now hs hnow range message
  -- The rest of a branch: the message is counted, and the queue is drained.
  have hcount : message.nextNum = message.seqNum + 1 →
      ∀ s₂, Quiet (s.afterVerify now range message) s₂ →
      ∃ s', (incrNextTargetMsgSeqNum >>= fun _ => drain) s₂ = .ok ⟨⟩ s' ∧
        Steady engine times s' ∧
        s'.buffer = (s.buffer.deliver Message.nextNum message).drain Message.nextNum := by
    intro hnext s₂ hquiet
    have hexpected : s₂.expectedTargetNum + 1 = message.nextNum := by
      have h : s₂.buffer.expected = (s.afterVerify now range message).buffer.expected :=
        congrArg Buffer.expected hquiet.buffer
      rw [hnext, hnum]
      exact congrArg (· + 1) h
    have hbuffer : (s₂.setExpected message.nextNum).buffer
        = s.buffer.deliver Message.nextNum message :=
      (buffer_setExpected hquiet.buffer _).trans (buffer_deliver now s range message)
    obtain ⟨s', hrun, hs', hbuffer'⟩ := hdrain (s₂.setExpected message.nextNum)
      (steady_setExpected (hs₁.of_quiet hquiet) _) (hbuffer ▸ hwaiting.deliver message)
      (show (s₂.setExpected message.nextNum).buffer.waiting.keys.card ≤ count by
        rw [hbuffer]
        exact hcard)
    refine ⟨s', ?_, hs', hbuffer ▸ hbuffer'⟩
    have hlt : s₂.expectedTargetNum + 1 < SEQNUM_COUNT := hexpected ▸ hm.bounded
    have hincr : incrNextTargetMsgSeqNum s₂ = .ok ⟨⟩ (s₂.setExpected message.nextNum) := by
      rw [incrNextTargetMsgSeqNum_run hlt, hexpected]
      rfl
    rw [bind_of_ok hincr]
    exact hrun
  have happ : message.nextNum = message.seqNum + 1 → ∃ s', nextApp engine now message s
      = .ok true s' ∧ Steady engine times s' ∧
        s'.buffer = s.buffer.deliver Message.nextNum message := by
    intro hnext
    refine ⟨(s.afterVerify now range message).setExpected message.nextNum, ?_,
      steady_setExpected hs₁ _, buffer_deliver now s range message⟩
    have hexpected : (s.afterVerify now range message).expectedTargetNum + 1 = message.nextNum :=
      (congrArg (· + 1) hnum.symm).trans hnext.symm
    have hincr := incrNextTargetMsgSeqNum_run (hexpected ▸ hm.bounded)
    rw [nextApp, bind_of_ok hverify, when, if_pos rfl, bind_of_ok hincr, hexpected]
    rfl
  have hcounted := hm.counted
  have hforward := hm.forward
  unfold nextOfType
  cases hbody : message.body with
  | heartbeat testReqID =>
    obtain ⟨s', hrun, hs', hbuffer⟩ := hcount (by rw [Message.nextNum, hbody]) _ (.refl _)
    refine ⟨s', ?_, hs', Or.inr hbuffer⟩
    have hnext : nextHeartbeat engine now drain message s = .ok ⟨⟩ s' := by
      rw [nextHeartbeat, verifyAndCount, bind_of_ok hverify, when, if_pos rfl]
      exact hrun
    exact bind_of_ok hnext
  | testRequest testReqID =>
    obtain ⟨fields, hheartbeat⟩ := generateHeartbeat_run now engine testReqID
      (s.afterVerify now range message)
    have hquiet := quiet_afterGenerating now engine (s.afterVerify now range message)
      (generatedMessage engine now (s.afterVerify now range message).expectedSenderNum
        (.heartbeat testReqID) fields)
    obtain ⟨s', hrun, hs', hbuffer⟩ := hcount (by rw [Message.nextNum, hbody]) _ hquiet
    refine ⟨s', ?_, hs', Or.inr hbuffer⟩
    have hnext : nextTestRequest engine now drain message testReqID s = .ok ⟨⟩ s' := by
      rw [nextTestRequest, bind_of_ok hverify, when, if_pos rfl, bind_of_ok hheartbeat]
      exact hrun
    exact bind_of_ok hnext
  | sequenceReset gapFillFlag newSeqNo =>
    obtain ⟨newSeqNo', rfl, rfl⟩ := gapFill_of_counted (hbody ▸ hcounted)
    have hnext : message.nextNum = newSeqNo' := by rw [Message.nextNum, hbody]
    refine ⟨(s.afterVerify now range message).setExpected message.nextNum, ?_,
      steady_setExpected hs₁ _, Or.inl (buffer_deliver now s range message)⟩
    have hlt : (s.afterVerify now range message).expectedTargetNum < newSeqNo' := by
      rw [← hnext]
      exact lt_of_eq_of_lt hnum.symm hforward
    have hreset : nextSequenceReset engine now message (some true) (some newSeqNo') s
        = .ok ⟨⟩ ((s.afterVerify now range message).setExpected message.nextNum) := by
      have hverify' : verify engine now message ((some true).getD false) ((some true).getD false) s
          = .ok true (s.afterVerify now range message) := hverify
      rw [nextSequenceReset]
      simp only
      rw [bind_of_ok hverify', when, if_pos rfl, get_bind, if_pos hlt, hnext]
      rfl
    exact bind_of_ok hreset
  | businessMessageReject refMsgType refSeqNum businessRejectReason text =>
    obtain ⟨s', hrun, hs', hbuffer⟩ := happ (by rw [Message.nextNum, hbody])
    exact ⟨s', hrun, hs', Or.inl hbuffer⟩
  | app msgType content =>
    obtain ⟨s', hrun, hs', hbuffer⟩ := happ (by rw [Message.nextNum, hbody])
    exact ⟨s', hrun, hs', Or.inl hbuffer⟩
  | _ =>
    rw [hbody] at hcounted
    cases hcounted

/-- The branch of `next` for the type of a message whose number is refused. -/
theorem nextOfType_refused (drain : SessionM α Unit) {s s' : State α} {message : Message α}
    (hcounted : message.body.isCounted)
    (hverify : verify engine now message true true s = .ok false s') :
    ∃ continues, nextOfType engine now drain message s = .ok continues s' := by
  have happ : nextApp engine now message s = .ok false s' := by
    rw [nextApp, bind_of_ok hverify]
    rfl
  unfold nextOfType
  cases hbody : message.body with
  | heartbeat testReqID =>
    refine ⟨true, bind_of_ok (?_ : nextHeartbeat engine now drain message s = .ok ⟨⟩ s')⟩
    rw [nextHeartbeat, verifyAndCount, bind_of_ok hverify]
    rfl
  | testRequest testReqID =>
    refine ⟨true, bind_of_ok
      (?_ : nextTestRequest engine now drain message testReqID s = .ok ⟨⟩ s')⟩
    rw [nextTestRequest, bind_of_ok hverify]
    rfl
  | sequenceReset gapFillFlag newSeqNo =>
    obtain ⟨num, rfl, rfl⟩ := gapFill_of_counted (hbody ▸ hcounted)
    refine ⟨true, bind_of_ok
      (?_ : nextSequenceReset engine now message (some true) (some num) s = .ok ⟨⟩ s')⟩
    have hverify' : verify engine now message ((some true).getD false) ((some true).getD false) s
        = .ok false s' := hverify
    rw [nextSequenceReset]
    simp only
    rw [bind_of_ok hverify']
    rfl
  | businessMessageReject refMsgType refSeqNum businessRejectReason text => exact ⟨false, happ⟩
  | app msgType content => exact ⟨false, happ⟩
  | _ =>
    rw [hbody] at hcounted
    cases hcounted

/-! ### `next` -/

/-- What `next` checks before the dictionary. -/
theorem dispatch_of_addressed (drain : SessionM α Unit) {s : State α}
    (hs : Steady engine times s) (hnow : now ∈ times) {message : Message α}
    (hm : Addressed engine times message) :
    dispatch engine now drain message s = (ofExcept (engine.validate message) >>= fun _ =>
      nextOfType engine now drain message) s := by
  rw [dispatch, get_bind, if_neg (by simp [hs.sessionTime now hnow]), hm.senderCompID,
    hm.targetCompID, when, if_neg (by simp [hm.beginString])]
  rfl

/-- What `next` checks before the type of a message. -/
theorem dispatch_of_welcome (drain : SessionM α Unit) {s : State α}
    (hs : Steady engine times s) (hnow : now ∈ times) {message : Message α}
    (hm : Welcome engine times message) :
    dispatch engine now drain message s = nextOfType engine now drain message s := by
  rw [dispatch_of_addressed now drain hs hnow hm.toAddressed, hm.validate]
  rfl

/-- The end of `next` in a steady session, after the queue. -/
theorem timer_quiet {s : State α} (hs : Steady engine times s) (hnow : now ∈ times) :
    ∃ s', (get >>= fun s : State α => when s.isLoggedOn (nextTimer engine now)) s = .ok ⟨⟩ s' ∧
      Quiet s s' := by
  rw [get_bind, when, if_pos hs.isLoggedOn]
  exact nextTimer_quiet now hs hnow

/-- `next` of an expected message from the queue. -/
theorem next_queued {drain : SessionM α Unit} {count : ℕ}
    (hdrain : Drains engine times count drain) {s : State α} (hs : Steady engine times s)
    (hnow : now ∈ times) (hwaiting : Waiting engine times s.buffer)
    (hcard : s.queue.keys.card ≤ count) {message : Message α}
    (hm : Acceptable engine times message) (hnum : message.seqNum = s.expectedTargetNum) :
    ∃ s', next engine now drain message true s = .ok ⟨⟩ s' ∧ Steady engine times s' ∧
      (s'.buffer = s.buffer.deliver Message.nextNum message ∨
        s'.buffer = (s.buffer.deliver Message.nextNum message).drain Message.nextNum) := by
  obtain ⟨s₁, hrun, hs₁, hbuffer⟩ := nextOfType_expected now hdrain hs hnow hwaiting hcard hm hnum
  obtain ⟨s', htimer, hquiet⟩ := timer_quiet now hs₁ hnow
  refine ⟨s', ?_, hs₁.of_quiet hquiet, by rwa [hquiet.buffer]⟩
  have hdispatch := (dispatch_of_welcome now drain hs hnow hm.toWelcome).trans hrun
  rw [next, bind_of_ok (tryCatch_of_ok hdispatch), when, if_pos rfl]
  exact htimer

/-- `next` of a message from the connection drains the queue and asks the timer in the end. -/
theorem next_of_dispatch {drain : SessionM α Unit} {s s₁ : State α} {message : Message α}
    (hdrain : ∀ count, Drains engine times count drain) (hnow : now ∈ times)
    (hs₁ : Steady engine times s₁) (hwaiting₁ : Waiting engine times s₁.buffer)
    (hrun : dispatch engine now drain message s = .ok true s₁) :
    ∃ s', next engine now drain message false s = .ok ⟨⟩ s' ∧ Steady engine times s' ∧
      s'.buffer = s₁.buffer.drain Message.nextNum := by
  obtain ⟨s₂, hrun₂, hs₂, hbuffer⟩ := hdrain _ s₁ hs₁ hwaiting₁ (Nat.le_refl _)
  obtain ⟨s', htimer, hquiet⟩ := timer_quiet now hs₂ hnow
  refine ⟨s', ?_, hs₂.of_quiet hquiet, hquiet.buffer.trans hbuffer⟩
  have hwhen : when (!false) drain s₁ = .ok ⟨⟩ s₂ := by
    rw [when, if_pos (show (!false) = true from rfl)]
    exact hrun₂
  rw [next, bind_of_ok (tryCatch_of_ok hrun), when, if_pos rfl, bind_of_ok hwhen]
  exact htimer

/-- `next` of a message whose number is refused. -/
theorem next_refused {drain : SessionM α Unit} {s s₁ : State α} {message : Message α}
    (hdrain : ∀ count, Drains engine times count drain) (hs : Steady engine times s)
    (hnow : now ∈ times) (hm : Acceptable engine times message)
    (hverify : verify engine now message true true s = .ok false s₁)
    (hs₁ : Steady engine times s₁) (hwaiting₁ : Waiting engine times s₁.buffer)
    (hsettled₁ : s₁.buffer.Settled) :
    ∃ s', next engine now drain message false s = .ok ⟨⟩ s' ∧ Steady engine times s' ∧
      s'.buffer = s₁.buffer := by
  obtain ⟨continues, hrun⟩ := nextOfType_refused now drain hm.counted hverify
  have hdispatch := (dispatch_of_welcome now drain hs hnow hm.toWelcome).trans hrun
  cases continues with
  | false =>
    refine ⟨s₁, ?_, hs₁, rfl⟩
    rw [next, bind_of_ok (tryCatch_of_ok hdispatch)]
    rfl
  | true =>
    obtain ⟨s', hnext, hs', hbuffer⟩ := next_of_dispatch now hdrain hnow hs₁ hwaiting₁ hdispatch
    exact ⟨s', hnext, hs', hbuffer.trans (Buffer.drain_of_settled hsettled₁)⟩

/-- `next` of a message from the connection. -/
theorem next_receive {drain : SessionM α Unit} {s : State α} (hs : Steady engine times s)
    (hdrain : ∀ count, Drains engine times count drain) (hnow : now ∈ times)
    (hwaiting : Waiting engine times s.buffer) (hsettled : s.buffer.Settled)
    {message : Message α} (hm : Acceptable engine times message)
    (hnum : s.expectedTargetNum ≤ message.seqNum ∨ Duplicate message) :
    ∃ s', next engine now drain message false s = .ok ⟨⟩ s' ∧ Steady engine times s' ∧
      s'.buffer = s.buffer.receive Message.seqNum Message.nextNum message := by
  rcases Nat.lt_trichotomy message.seqNum s.expectedTargetNum with hlt | heq | hgt
  · -- Too low: a possible duplicate is refused, and nothing is handed over.
    have hdup : Duplicate message := hnum.resolve_left (Nat.not_le.mpr hlt)
    rw [Buffer.receive_of_lt (show message.seqNum < s.buffer.expected from hlt)]
    exact next_refused now hdrain hs hnow hm (verify_tooLow now hs hnow hm hdup hlt) hs hwaiting
      hsettled
  · -- Expected: it is taken, and a drain at its end does what the drain after it would do.
    obtain ⟨s₁, hrun, hs₁, hbuffer⟩ := nextOfType_expected now (hdrain _) hs hnow hwaiting
      (Nat.le_refl _) hm heq
    have hdrained : s₁.buffer.drain Message.nextNum
        = (s.buffer.deliver Message.nextNum message).drain Message.nextNum := by
      cases hbuffer with
      | inl h => rw [h]
      | inr h => rw [h, Buffer.drain_drain]
    have hwaiting₁ : Waiting engine times s₁.buffer := by
      cases hbuffer with
      | inl h => exact h ▸ hwaiting.deliver message
      | inr h => exact h ▸ (hwaiting.deliver message).drain
    obtain ⟨s', hrun', hs', hbuffer'⟩ := next_of_dispatch now hdrain hnow hs₁ hwaiting₁
      ((dispatch_of_welcome now drain hs hnow hm.toWelcome).trans hrun)
    refine ⟨s', hrun', hs', ?_⟩
    rw [hbuffer', hdrained, Buffer.receive,
      if_pos (show message.seqNum = s.buffer.expected from heq)]
  · -- Too high: it waits in the queue, and a resend request may go out.
    obtain ⟨s₁, hverify, hquiet⟩ := verify_waits now hs hnow hm hgt
    have hs₀ : Steady engine times { s with queue := s.queue.insert message.seqNum message } :=
      ⟨hs.enabled, hs.receivedLogon, hs.sentLogon, hs.sentLogout, hs.testRequest,
        hs.lastReceivedTime, hs.sessionTime, hs.logonTime, hs.alive⟩
    have hbuffer : s₁.buffer = s.buffer.receive Message.seqNum Message.nextNum message :=
      hquiet.buffer.trans
        (Buffer.receive_of_gt (show s.buffer.expected < message.seqNum from hgt)).symm
    have hwaiting₁ : Waiting engine times s₁.buffer := hbuffer ▸ hwaiting.receive hm
    have hsettled₁ : s₁.buffer.Settled := by
      rw [hquiet.buffer]
      show (s.queue.insert message.seqNum message).lookup s.expectedTargetNum = none
      rw [Finmap.lookup_insert_of_ne _ (Nat.ne_of_lt hgt)]
      exact hsettled
    rw [← hbuffer]
    exact next_refused now hdrain hs hnow hm hverify (hs₀.of_quiet hquiet) hwaiting₁ hsettled₁

/-! ### The queue -/

/-- `nextQueued` drains the buffer. -/
theorem nextQueued_drains (hnow : now ∈ times) (count : ℕ) :
    Drains engine times count (nextQueued engine now count) := by
  induction count with
  | zero =>
    intro s hs _ hcard
    refine ⟨s, rfl, hs, (Buffer.drain_of_settled ?_).symm⟩
    exact Buffer.drainFor_settled Message.nextNum 0 s.buffer hcard
  | succ count ih =>
    intro s hs hwaiting hcard
    rw [nextQueued, get_bind]
    cases hlookup : s.queue.lookup s.expectedTargetNum with
    | none =>
      have hretrieve : retrieve s.expectedTargetNum s = .ok none s := by
        rw [retrieve, get_bind, hlookup]
        rfl
      have hsettled : s.buffer.Settled := hlookup
      refine ⟨s, ?_, hs, (Buffer.drain_of_settled hsettled).symm⟩
      rw [bind_of_ok hretrieve]
      rfl
    | some message =>
      let s₁ : State α := { s with queue := s.queue.erase s.expectedTargetNum }
      have hretrieve : retrieve s.expectedTargetNum s = .ok (some message) s₁ := by
        rw [retrieve, get_bind, hlookup]
        rfl
      have hs₁ : Steady engine times s₁ :=
        ⟨hs.enabled, hs.receivedLogon, hs.sentLogon, hs.sentLogout, hs.testRequest,
          hs.lastReceivedTime, hs.sessionTime, hs.logonTime, hs.alive⟩
      obtain ⟨hm, hnum⟩ := hwaiting s.expectedTargetNum message hlookup
      have hcard₁ : s₁.queue.keys.card ≤ count := by
        have h : s.buffer.take.waiting.keys.card + 1 = s.buffer.waiting.keys.card :=
          Buffer.card_take hlookup
        have h₁ : s₁.queue.keys.card + 1 = s.queue.keys.card := h
        omega
      have hwaiting₁ : Waiting engine times s₁.buffer := hwaiting.take
      obtain ⟨s₂, hrun, hs₂, hbuffer⟩ := next_queued now ih hs₁ hnow hwaiting₁ hcard₁ hm hnum
      have hretrieved : nextRetrieved engine now (nextQueued engine now count) message s₁
          = .ok ⟨⟩ s₂ := by
        have hcounted := hm.counted
        rw [nextRetrieved, if_neg]
        · exact hrun
        · cases hbody : message.body with
          | logon resetSeqNumFlag heartBtInt nextExpectedMsgSeqNum =>
            rw [hbody] at hcounted
            cases hcounted
          | resendRequest beginSeqNo endSeqNo =>
            rw [hbody] at hcounted
            cases hcounted
          | _ => simp [Body.isLogon, Body.isResendRequest]
      -- Draining what the message has left is draining from the start.
      have hdrained : s₂.buffer.drain Message.nextNum = s.buffer.drain Message.nextNum := by
        rw [Buffer.drain_of_lookup (show s.buffer.waiting.lookup s.buffer.expected = some message
          from hlookup)]
        cases hbuffer with
        | inl h => rw [h]; rfl
        | inr h => rw [h, Buffer.drain_drain]; rfl
      have hrest : Waiting engine times s₂.buffer ∧ s₂.buffer.waiting.keys.card ≤ count := by
        cases hbuffer with
        | inl h => exact h ▸ ⟨hwaiting₁.deliver message, hcard₁⟩
        | inr h =>
          exact h ▸ ⟨(hwaiting₁.deliver message).drain, Nat.le_trans (card_drain_le _) hcard₁⟩
      obtain ⟨s', hrun', hs', hbuffer'⟩ := ih s₂ hs₂ hrest.1 hrest.2
      refine ⟨s', ?_, hs', hbuffer'.trans hdrained⟩
      rw [bind_of_ok hretrieve]
      exact (bind_of_ok hretrieved).trans hrun'

/-- The loop over the queue drains it. Its size bounds the loop. -/
theorem nextQueuedAll_drains (hnow : now ∈ times) (count : ℕ) :
    Drains engine times count (nextQueuedAll engine now) := by
  intro s hs hwaiting _
  rw [nextQueuedAll, get_bind]
  exact nextQueued_drains now hnow _ s hs hwaiting (Nat.le_refl _)

/-! ### Runs -/

/-- A step of a steady session with a message is a step of its buffer. -/
theorem step_receive {s : State α} (hs : Steady engine times s) (hnow : now ∈ times)
    (hwaiting : Waiting engine times s.buffer) (hsettled : s.buffer.Settled)
    {message : Message α} (hm : Acceptable engine times message)
    (hnum : s.expectedTargetNum ≤ message.seqNum ∨ Duplicate message) :
    Steady engine times (step engine s (now, .next message)) ∧
      (step engine s (now, .next message)).buffer
        = s.buffer.receive Message.seqNum Message.nextNum message := by
  obtain ⟨s', hrun, hs', hbuffer⟩ := next_receive now hs
    (fun count => nextQueuedAll_drains now hnow count) hnow hwaiting hsettled hm hnum
  have hstep : step engine s (now, .next message) = s' := after_of_ok hrun
  rw [hstep]
  exact ⟨hs', hbuffer⟩

/-- A run of a steady session is a run of its buffer, where no message comes below the expected
number but possible duplicates. -/
theorem run_receive (arrivals : List (UtcTimeStamp × Message α)) :
    ∀ {s : State α}, Steady engine times s → Waiting engine times s.buffer → s.buffer.Settled →
      (∀ arrival ∈ arrivals, arrival.1 ∈ times ∧ Acceptable engine times arrival.2) →
      (∀ before message later, arrivals.map Prod.snd = before ++ message :: later →
        (before.foldl (Buffer.receive Message.seqNum Message.nextNum) s.buffer).expected
          ≤ message.seqNum ∨ Duplicate message) →
      let s' := run engine s (arrivals.map fun arrival => (arrival.1, .next arrival.2))
      Steady engine times s' ∧ Waiting engine times s'.buffer ∧ s'.buffer.Settled ∧
        s'.buffer = (arrivals.map Prod.snd).foldl (Buffer.receive Message.seqNum Message.nextNum)
          s.buffer := by
  induction arrivals with
  | nil =>
    intro s hs hwaiting hsettled _ _
    exact ⟨hs, hwaiting, hsettled, rfl⟩
  | cons arrival arrivals ih =>
    intro s hs hwaiting hsettled haccept hnum
    obtain ⟨now, message⟩ := arrival
    obtain ⟨hnow, hm⟩ := haccept _ List.mem_cons_self
    obtain ⟨hs', hbuffer⟩ := step_receive now hs hnow hwaiting hsettled hm (hnum [] message _ rfl)
    have hrun := ih hs' (hbuffer ▸ hwaiting.receive hm) (hbuffer ▸ hsettled.receive message)
      (fun a ha => haccept a (List.mem_cons_of_mem _ ha)) fun before m later heq => by
        rw [hbuffer]
        exact hnum (message :: before) m later (congrArg (message :: ·) heq)
    rw [hbuffer] at hrun
    exact hrun

/-- A session that has just been logged on is steady. -/
theorem steady_plainRun : Steady (.plain "RIGHT" "LEFT") {⟨0⟩}
    (run (.plain "RIGHT" "LEFT") (.new 30 ⟨0⟩) (plainRun "LEFT" "RIGHT") : State ℕ) :=
  steady_of_flags rfl rfl (fun _ _ => ⟨rfl, rfl⟩) (by decide +kernel)

/-- An application message of the plain sessions is acceptable. -/
theorem acceptable_plain {num : ℕ} (hnum : num + 1 < SEQNUM_COUNT) (content : ℕ) :
    Acceptable (.plain "RIGHT" "LEFT") {⟨0⟩}
      (⟨plainHeader "LEFT" "RIGHT" num, .app "D" content⟩ : Message ℕ) where
  beginString := rfl
  senderCompID := rfl
  targetCompID := rfl
  sendingTime := by
    refine ⟨⟨0⟩, rfl, fun now hnow => ?_⟩
    rw [show now = ⟨0⟩ from hnow]
    decide
  msgSeqNum := rfl
  validate := rfl
  accepted _ := rfl
  counted := rfl
  forward := Nat.lt_succ_self num
  bounded := hnum

end Harjus.Session
