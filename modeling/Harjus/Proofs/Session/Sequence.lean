import Harjus.Lib.Epochs
import Harjus.Proofs.Session.Next

/-!
# `Harjus.Proofs.Session.Sequence`: the numbers of a run

What holds of the numbers of the messages that a session receives and sends, in every run from a
new session. A reset of the store starts the numbers again, so everything is about the messages
between two resets (`Harjus.Lib.Epochs`). The expected number also starts again after the last
`SEQNUM`.

* `delivered_ascending`: once the application has accepted an application message, it is only given
  ones with higher numbers.
* `sent_ascending`: a message that is no possible duplicate has a higher number than every such
  message before it.
* `recorded_run`: the store has exactly the numbers that have been given, under each of them
  the message with this number, and what has been sent is what is stored.

Each is an invariant that every `Move` preserves.
-/

set_option autoImplicit false

namespace Harjus.Session

open Harjus.Lib

variable {α : Type} {engine : Engine α} {P : Body α → Prop} {Q : Message α → Prop}

/-- The entries of a history that start the numbers again. -/
def Output.isReset : Output α → Bool
  | .storeReset => true
  | _ => false

/-- The entries of a history that start the expected number again. -/
def Output.isRestart : Output α → Bool
  | .storeReset | .seqNumWrapped => true
  | _ => false

/-- After an accepted message only higher numbers are given to the application. -/
def Output.Delivered : Output α → Output α → Prop
  | .fromApp message true, .fromApp message' _ => message.seqNum < message'.seqNum
  | _, _ => True

/-- Messages that are no possible duplicates are sent with ascending numbers. -/
def Output.Numbered : Output α → Output α → Prop
  | .sent message, .sent message' =>
    message.possDup = false → message'.possDup = false → message.seqNum < message'.seqNum
  | _, _ => True

/-! ### What is received -/

/-- The accepted messages are below the expected number, in the order of their numbers. -/
structure InOrder (s : State α) : Prop where
  below : ∀ message, Since Output.isRestart s.history (.fromApp message true) →
    message.seqNum < s.expectedTargetNum
  ascending : InEpochs Output.isRestart Output.Delivered s.history

/-- A new session has delivered nothing. -/
theorem inOrder_new (heartBtInt : ℤ) (now : UtcTimeStamp) :
    InOrder (State.new heartBtInt now : State α) :=
  ⟨fun _ h => absurd h not_since_nil, inEpochs_nil⟩

/-- An entry that gives the application nothing. -/
theorem InOrder.concat {s s' : State α} {output : Output α} (hs : InOrder s)
    (houtput : ∀ message accepted, output ≠ .fromApp message accepted)
    (hhistory : s'.history = s.history ++ [output])
    (htarget : s'.expectedTargetNum = s.expectedTargetNum ∨ output.isRestart) :
    InOrder s' := by
  constructor
  · intro message h
    rw [hhistory, since_concat] at h
    cases h with
    | inl h => exact absurd h.symm (houtput message true)
    | inr h =>
      cases htarget with
      | inl htarget =>
        rw [htarget]
        exact hs.below message h.1
      | inr hrestart =>
        rw [h.2] at hrestart
        cases hrestart
  · rw [hhistory, inEpochs_concat]
    refine ⟨hs.ascending, fun x _ => ?_⟩
    cases output with
    | fromApp message accepted => exact absurd rfl (houtput message accepted)
    | _ => cases x with
      | fromApp message accepted => cases accepted <;> trivial
      | _ => trivial

/-- The next message is above every message that has been accepted. -/
theorem InOrder.fromApp {s : State α} (hs : InOrder s) {message : Message α}
    (hnum : message.header.msgSeqNum = some s.expectedTargetNum) (accepted : Bool) :
    InEpochs Output.isRestart Output.Delivered (s.history ++ [.fromApp message accepted]) := by
  rw [inEpochs_concat]
  refine ⟨hs.ascending, fun x hx => ?_⟩
  have hseq : message.seqNum = s.expectedTargetNum := by rw [Message.seqNum, hnum]; rfl
  cases x with
  | fromApp message' accepted' =>
    cases accepted' with
    | false => trivial
    | true =>
      show message'.seqNum < message.seqNum
      rw [hseq]
      exact hs.below message' hx
  | _ => trivial

/-- A move keeps the delivered numbers in order. -/
theorem Move.inOrder {s s' : State α} (h : Move engine P Q s s') (hs : InOrder s) :
    InOrder s' := by
  -- The number expected only grows between two resets, and a delivered message is below it.
  cases h with
  | idle hstore hhistory _ =>
    constructor
    · intro message h
      rw [hhistory] at h
      show message.seqNum < s'.store.nextTargetMsgSeqNum
      rw [hstore]
      exact hs.below message h
    · rw [hhistory]
      exact hs.ascending
  | notify output h =>
    refine hs.concat (fun message accepted heq => ?_) rfl (Or.inl rfl)
    subst heq
    cases h
  | restart now =>
    exact hs.concat (by simp) rfl (Or.inr rfl)
  | advance num hle =>
    exact ⟨fun message h => Nat.lt_of_lt_of_le (hs.below message h) hle, hs.ascending⟩
  | wrap num =>
    exact hs.concat (by simp) rfl (Or.inr rfl)
  | refuse message _ _ hnum =>
    refine ⟨fun message' h => ?_, hs.fromApp hnum false⟩
    cases since_concat.mp h with
    | inl h => cases h
    | inr h => exact hs.below message' h.1
  | accept message _ _ hnum =>
    refine ⟨fun message' h => ?_, hs.fromApp hnum true⟩
    show message'.seqNum < s.expectedTargetNum + 1
    cases since_concat.mp h with
    | inl h =>
      cases h
      rw [Message.seqNum, hnum]
      exact Nat.lt_succ_self _
    | inr h => exact Nat.lt_succ_of_lt (hs.below message' h.1)
  | publish message sent _ _ _ _ =>
    have htarget : (persisted engine s.store message).nextTargetMsgSeqNum = s.expectedTargetNum :=
      nextTargetMsgSeqNum_persisted _ _
    cases sent with
    | false => exact ⟨fun m h => lt_of_lt_of_eq (hs.below m h) htarget.symm, hs.ascending⟩
    | true => exact hs.concat (by simp) rfl (Or.inl htarget)
  | fillGap message _ _ => exact hs.concat (by simp) rfl (Or.inl rfl)
  | resend message now num _ _ _ =>
    exact hs.concat (by simp) rfl (Or.inl rfl)

/-! ### What is sent -/

/-- The numbers that have been given, and what is stored under them. -/
structure Recorded (engine : Engine α) (s : State α) : Prop where
  positive : 1 ≤ s.expectedSenderNum
  below : ∀ message, Since Output.isReset s.history (.sent message) → message.possDup = false →
    message.seqNum < s.expectedSenderNum
  ascending : InEpochs Output.isReset Output.Numbered s.history
  bounded : ∀ num ∈ s.store.messages, 1 ≤ num ∧ num < s.expectedSenderNum
  dense : engine.settings.persistMessages → ∀ num, 1 ≤ num → num < s.expectedSenderNum →
    num ∈ s.store.messages
  numbered : ∀ num message, s.store.messages.lookup num = some message →
    message.header.msgSeqNum = some num
  fresh : ∀ num message, s.store.messages.lookup num = some message →
    message.body.isAdmin = false → message.header.possDupFlag = none
  filled : ∀ num message, s.store.messages.lookup num = some message →
    message.header.Filled engine
  stored : engine.settings.persistMessages → ∀ message,
    Since Output.isReset s.history (.sent message) → message.possDup = false →
    s.store.messages.lookup message.seqNum = some message
  resent : ∀ message, Since Output.isReset s.history (.sent message) →
    message.body.isAdmin = false → message.possDup → ∃ original now,
      s.store.messages.lookup message.seqNum = some original ∧ message = original.resent now

/-- A new session has given no numbers. -/
theorem recorded_new (heartBtInt : ℤ) (now : UtcTimeStamp) :
    Recorded engine (State.new heartBtInt now : State α) where
  positive := Nat.le_refl 1
  below _ h := absurd h not_since_nil
  ascending := inEpochs_nil
  bounded num h := absurd h Finmap.notMem_empty
  dense _ num hle hlt := absurd hle (Nat.not_le.mpr hlt)
  numbered _ _ h := by cases h
  fresh _ _ h := by cases h
  filled _ _ h := by cases h
  stored _ _ h := absurd h not_since_nil
  resent _ h := absurd h not_since_nil

/-- After a reset nothing has been given or sent. -/
theorem recorded_restart {s : State α} (hs : Recorded engine s) (now : UtcTimeStamp) :
    Recorded engine { s with store := .new now, history := s.history ++ [.storeReset] } := by
  have hnone : ∀ message, ¬ Since Output.isReset (s.history ++ [.storeReset])
      (.sent message) := by
    intro message h
    cases since_concat.mp h with
    | inl h => cases h
    | inr h => cases h.2
  have hnew : Recorded engine (State.new 0 now : State α) := recorded_new 0 now
  refine ⟨hnew.positive, fun m h => absurd h (hnone m), ?_, hnew.bounded, hnew.dense,
    hnew.numbered, hnew.fresh, hnew.filled,
    fun _ m h => absurd h (hnone m), fun m h => absurd h (hnone m)⟩
  rw [inEpochs_concat]
  refine ⟨hs.ascending, fun x _ => ?_⟩
  cases x <;> trivial

/-- What leaves the numbers and the messages of the store alone and hands out nothing that is
sent. -/
theorem Recorded.of_eq {s s' : State α} (hs : Recorded engine s)
    (hmessages : s'.store.messages = s.store.messages)
    (hnum : s'.expectedSenderNum = s.expectedSenderNum)
    (hsince : ∀ message, Since Output.isReset s'.history (.sent message) →
      Since Output.isReset s.history (.sent message))
    (hascending : InEpochs Output.isReset Output.Numbered s'.history) : Recorded engine s' where
  positive := hnum ▸ hs.positive
  below message h hdup := by
    rw [hnum]
    exact hs.below message (hsince message h) hdup
  ascending := hascending
  bounded num h := by
    rw [hnum]
    exact hs.bounded num (hmessages ▸ h)
  dense hpersist num hle hlt := by
    rw [hmessages]
    exact hs.dense hpersist num hle (hnum ▸ hlt)
  numbered num message h := hs.numbered num message (hmessages ▸ h)
  fresh num message h := hs.fresh num message (hmessages ▸ h)
  filled num message h := hs.filled num message (hmessages ▸ h)
  stored hpersist message h hdup := by
    rw [hmessages]
    exact hs.stored hpersist message (hsince message h) hdup
  resent message h happ hdup := by
    rw [hmessages]
    exact hs.resent message (hsince message h) happ hdup

/-- An entry that is nothing sent. -/
theorem Recorded.concat {s s' : State α} (hs : Recorded engine s) {output : Output α}
    (houtput : ∀ message, output ≠ .sent message)
    (hmessages : s'.store.messages = s.store.messages)
    (hnum : s'.expectedSenderNum = s.expectedSenderNum)
    (hhistory : s'.history = s.history ++ [output]) : Recorded engine s' := by
  refine hs.of_eq hmessages hnum (fun message h => ?_) ?_
  · rw [hhistory, since_concat] at h
    cases h with
    | inl h => exact absurd h.symm (houtput message)
    | inr h => exact h.1
  · rw [hhistory, inEpochs_concat]
    refine ⟨hs.ascending, fun x _ => ?_⟩
    cases output with
    | sent message => exact absurd rfl (houtput message)
    | _ => cases x <;> trivial

/-- A possible duplicate that is sent, with what is stored under its number if it is for the
application. -/
theorem Recorded.duplicate {s : State α} (hs : Recorded engine s) {message : Message α}
    (hdup : message.possDup)
    (happ : message.body.isAdmin = false → ∃ original now,
      s.store.messages.lookup message.seqNum = some original ∧ message = original.resent now) :
    Recorded engine { s with history := s.history ++ [.sent message] } := by
  -- A possible duplicate carries an old number, so what speaks of new messages is as before.
  have hsince : ∀ m, Since Output.isReset (s.history ++ [.sent message]) (.sent m) →
      m = message ∨ Since Output.isReset s.history (.sent m) := by
    intro m h
    cases since_concat.mp h with
    | inl h =>
      cases h
      exact Or.inl rfl
    | inr h => exact Or.inr h.1
  refine ⟨hs.positive, fun m h hfresh => ?_, ?_, hs.bounded, hs.dense, hs.numbered, hs.fresh,
    hs.filled, fun hpersist m h hfresh => ?_, fun m h hadmin hm => ?_⟩
  · cases hsince m h with
    | inl h =>
      rw [h, hdup] at hfresh
      cases hfresh
    | inr h => exact hs.below m h hfresh
  · rw [inEpochs_concat]
    refine ⟨hs.ascending, fun x _ => ?_⟩
    cases x with
    | sent m =>
      intro _ hfresh
      rw [hdup] at hfresh
      cases hfresh
    | _ => trivial
  · cases hsince m h with
    | inl h =>
      rw [h, hdup] at hfresh
      cases hfresh
    | inr h => exact hs.stored hpersist m h hfresh
  · cases hsince m h with
    | inl h =>
      subst h
      exact happ hadmin
    | inr h => exact hs.resent m h hadmin hm

/-- A message that is given the next number. -/
theorem Recorded.publish {s : State α} (hs : Recorded engine s) {message : Message α}
    (hnum : message.header.msgSeqNum = some s.expectedSenderNum)
    (hdup : message.body.isAdmin = false → message.header.possDupFlag = none)
    (hfilled : message.header.Filled engine) :
    Recorded engine { s with store := persisted engine s.store message } := by
  have hseq : message.seqNum = s.expectedSenderNum := by rw [Message.seqNum, hnum]; rfl
  have hnext : (persisted engine s.store message).nextSenderMsgSeqNum
      = s.expectedSenderNum + 1 := nextSenderMsgSeqNum_persisted _ _
  -- The messages that are stored: those from before, and this one if it is stored.
  have hlookup : ∀ num m, (persisted engine s.store message).messages.lookup num = some m →
      (num = s.expectedSenderNum ∧ m = message) ∨ s.store.messages.lookup num = some m := by
    intro num m h
    by_cases hpersist : engine.settings.persistMessages
    · rw [messages_persisted hpersist] at h
      by_cases heq : num = message.seqNum
      · subst heq
        rw [Finmap.lookup_insert] at h
        cases h
        exact Or.inl ⟨hseq, rfl⟩
      · rw [Finmap.lookup_insert_of_ne _ heq] at h
        exact Or.inr h
    · rw [messages_persisted_of_not hpersist] at h
      exact Or.inr h
  have hkeep : ∀ {num m}, num ≠ s.expectedSenderNum → s.store.messages.lookup num = some m →
      (persisted engine s.store message).messages.lookup num = some m := by
    intro num m hne h
    by_cases hpersist : engine.settings.persistMessages
    · rw [messages_persisted hpersist, Finmap.lookup_insert_of_ne _ (hseq ▸ hne)]
      exact h
    · rw [messages_persisted_of_not hpersist]
      exact h
  constructor
  case positive =>
    show 1 ≤ (persisted engine s.store message).nextSenderMsgSeqNum
    rw [hnext]
    omega
  case below =>
    intro m h hfresh
    show m.seqNum < (persisted engine s.store message).nextSenderMsgSeqNum
    rw [hnext]
    exact Nat.lt_succ_of_lt (hs.below m h hfresh)
  case ascending => exact hs.ascending
  case bounded =>
    intro num h
    show 1 ≤ num ∧ num < (persisted engine s.store message).nextSenderMsgSeqNum
    rw [hnext]
    obtain ⟨m, hm⟩ := Finmap.mem_iff.mp h
    cases hlookup num m hm with
    | inl h =>
      have := hs.positive
      omega
    | inr h =>
      have := hs.bounded num (Finmap.mem_of_lookup_eq_some h)
      omega
  case dense =>
    intro hpersist num hle hlt
    have hlt' : num < (persisted engine s.store message).nextSenderMsgSeqNum := hlt
    rw [hnext] at hlt'
    show num ∈ (persisted engine s.store message).messages
    rw [messages_persisted hpersist, Finmap.mem_insert, hseq]
    cases Nat.lt_or_eq_of_le (Nat.le_of_lt_succ hlt') with
    | inl h => exact Or.inr (hs.dense hpersist num hle h)
    | inr h => exact Or.inl h
  case numbered =>
    intro num m h
    cases hlookup num m h with
    | inl h =>
      rw [h.1, h.2]
      exact hnum
    | inr h => exact hs.numbered num m h
  case fresh =>
    intro num m h
    cases hlookup num m h with
    | inl h =>
      rw [h.2]
      exact hdup
    | inr h => exact hs.fresh num m h
  case filled =>
    intro num m h
    cases hlookup num m h with
    | inl h =>
      rw [h.2]
      exact hfilled
    | inr h => exact hs.filled num m h
  case stored =>
    intro hpersist m h hfresh
    exact hkeep (Nat.ne_of_lt (hs.below m h hfresh)) (hs.stored hpersist m h hfresh)
  case resent =>
    intro m h hadmin hm
    obtain ⟨original, now, horiginal, rfl⟩ := hs.resent m h hadmin hm
    refine ⟨original, now, hkeep ?_ horiginal, rfl⟩
    exact Nat.ne_of_lt (hs.bounded _ (Finmap.mem_of_lookup_eq_some horiginal)).2

/-- What is stored under the number of a fresh message that is sent right away. -/
theorem Recorded.sent {s : State α} (hs : Recorded engine s) {message : Message α}
    (hnum : message.header.msgSeqNum = some s.expectedSenderNum)
    (hdup : message.body.isAdmin = false → message.header.possDupFlag = none)
    (hfilled : message.header.Filled engine) :
    Recorded engine { s with
      store := persisted engine s.store message
      history := s.history ++ [.sent message] } := by
  have hseq : message.seqNum = s.expectedSenderNum := by rw [Message.seqNum, hnum]; rfl
  have hnext : (persisted engine s.store message).nextSenderMsgSeqNum
      = s.expectedSenderNum + 1 := nextSenderMsgSeqNum_persisted _ _
  have hpublished := hs.publish hnum hdup hfilled
  have hsince : ∀ m, Since Output.isReset (s.history ++ [.sent message]) (.sent m) →
      m = message ∨ Since Output.isReset s.history (.sent m) := by
    intro m h
    cases since_concat.mp h with
    | inl h =>
      cases h
      exact Or.inl rfl
    | inr h => exact Or.inr h.1
  refine ⟨hpublished.positive, fun m h hfresh => ?_, ?_, hpublished.bounded, hpublished.dense,
    hpublished.numbered, hpublished.fresh, hpublished.filled,
    fun hpersist m h hfresh => ?_, fun m h hadmin hm => ?_⟩
  · cases hsince m h with
    | inl h =>
      show m.seqNum < (persisted engine s.store message).nextSenderMsgSeqNum
      rw [hnext, h, hseq]
      exact Nat.lt_succ_self _
    | inr h => exact hpublished.below m h hfresh
  · rw [inEpochs_concat]
    refine ⟨hs.ascending, fun x hx => ?_⟩
    cases x with
    | sent m =>
      intro hfresh _
      rw [hseq]
      exact hs.below m hx hfresh
    | _ => trivial
  · cases hsince m h with
    | inl h =>
      show (persisted engine s.store message).messages.lookup m.seqNum = some m
      rw [h, messages_persisted hpersist, Finmap.lookup_insert]
    | inr h => exact hpublished.stored hpersist m h hfresh
  · cases hsince m h with
    | inl h =>
      -- A message for the application that is given a number is no possible duplicate.
      subst h
      rw [Message.possDup, hdup hadmin] at hm
      cases hm
    | inr h => exact hpublished.resent m h hadmin hm

/-- A move keeps the store and the history in step. -/
theorem Move.recorded {s s' : State α} (h : Move engine P Q s s') (hs : Recorded engine s) :
    Recorded engine s' := by
  -- Only `publish` changes the store; what is sent again carries a number that is in it.
  cases h with
  | idle hstore hhistory _ =>
    refine hs.of_eq (congrArg MemoryStore.messages hstore)
      (congrArg MemoryStore.nextSenderMsgSeqNum hstore) (fun message h => hhistory ▸ h) ?_
    rw [hhistory]
    exact hs.ascending
  | notify output h =>
    refine hs.concat (fun message heq => ?_) rfl rfl rfl
    subst heq
    cases h
  | restart now => exact recorded_restart hs now
  | advance num hle => exact hs.of_eq rfl rfl (fun _ h => h) hs.ascending
  | wrap num => exact hs.concat (by simp) rfl rfl rfl
  | refuse message _ _ _ => exact hs.concat (by simp) rfl rfl rfl
  | accept message _ _ _ => exact hs.concat (by simp) rfl rfl rfl
  | publish message sent _ hnum hdup hfilled =>
    cases sent with
    | false => exact hs.publish hnum hdup hfilled
    | true => exact hs.sent hnum hdup hfilled
  | fillGap message hdup hreset =>
    refine hs.duplicate hdup fun happ => ?_
    cases hbody : message.body with
    | sequenceReset gapFillFlag newSeqNo =>
      rw [hbody] at happ
      cases happ
    | _ =>
      rw [hbody] at hreset
      cases hreset
  | resend message now num hstored happ _ =>
    refine hs.duplicate rfl fun _ => ⟨message, now, ?_, rfl⟩
    have hseq : (message.resent now).seqNum = num := by
      show message.header.msgSeqNum.getD 0 = num
      rw [hs.numbered num message hstored]
      rfl
    rw [hseq]
    exact hstored

/-! ### Runs -/

/-- Every body and every message. -/
theorem admits_all (engine : Engine α) : Admits engine fun _ => True :=
  ⟨fun _ _ => trivial, fun _ _ _ _ _ => trivial⟩

/-- What every move preserves holds after every run from a new session. -/
theorem run_preserves {I : State α → Prop} (heartBtInt : ℤ) (start : UtcTimeStamp)
    (hnew : I (.new heartBtInt start))
    (hmove : ∀ s s' : State α, Move engine (fun _ => True) (fun _ => True) s s' → I s → I s')
    (inputs : List (UtcTimeStamp × Input α)) : I (run engine (.new heartBtInt start) inputs) := by
  have hmoves := run_moves (admits_all engine) inputs
    (fun _ _ _ => trivial : Sourced (fun _ => True) (State.new heartBtInt start : State α))
    (fun _ _ _ _ => trivial) fun _ _ _ _ => trivial
  generalize run engine (.new heartBtInt start) inputs = s at hmoves ⊢
  induction hmoves with
  | refl => exact hnew
  | tail _ hstep ih => exact hmove _ _ hstep ih

/-- In every run, once the application has accepted an application message, it is given only ones
with higher numbers until the expected number starts again. -/
theorem delivered_ascending (engine : Engine α) (heartBtInt : ℤ) (start : UtcTimeStamp)
    (inputs : List (UtcTimeStamp × Input α)) :
    InEpochs Output.isRestart Output.Delivered
      (run engine (.new heartBtInt start) inputs).history :=
  (run_preserves heartBtInt start (inOrder_new heartBtInt start)
    (fun _ _ hmove => hmove.inOrder) inputs).ascending

/-- In every run, a message that is no possible duplicate is sent with a higher number than every
such message before it, until the numbers start again. -/
theorem sent_ascending (engine : Engine α) (heartBtInt : ℤ) (start : UtcTimeStamp)
    (inputs : List (UtcTimeStamp × Input α)) :
    InEpochs Output.isReset Output.Numbered
      (run engine (.new heartBtInt start) inputs).history :=
  (run_preserves heartBtInt start (recorded_new heartBtInt start)
    (fun _ _ hmove => hmove.recorded) inputs).ascending

/-- In every run the store matches the numbers that have been given and the messages that have
been sent. -/
theorem recorded_run (engine : Engine α) (heartBtInt : ℤ) (start : UtcTimeStamp)
    (inputs : List (UtcTimeStamp × Input α)) :
    Recorded engine (run engine (.new heartBtInt start) inputs) :=
  run_preserves heartBtInt start (recorded_new heartBtInt start)
    (fun _ _ hmove => hmove.recorded) inputs

end Harjus.Session
