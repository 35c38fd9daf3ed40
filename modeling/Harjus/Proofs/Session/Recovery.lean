import Harjus.Proofs.Session.Request

/-!
# `Harjus.Proofs.Session.Recovery`: a session that has missed messages catches up

A session that gets a message with a higher number than it expects keeps it, and asks for everything
from the expected number on. The answer covers the missing numbers, and once more those of the
messages that wait, as possible duplicates.

* `gap_recovered`: the session asks, the other one answers, and when the answer has arrived the
  session expects the number after the last message and has handed over messages that cover every
  number once, in order.

Messages arrive in the order in which they are sent, so the answer comes after the messages that have
shown the gap.
-/

set_option autoImplicit false

namespace Harjus.Session

open Harjus.Lib

variable {α : Type}

/-- Two engines that have the names of each other. -/
structure Faces (sender receiver : Engine α) : Prop where
  beginString : receiver.settings.sessionID.beginString = sender.settings.sessionID.beginString
  senderCompID : receiver.settings.sessionID.senderCompID = sender.settings.sessionID.targetCompID
  targetCompID : receiver.settings.sessionID.targetCompID = sender.settings.sessionID.senderCompID

/-- The dictionary and the application of a session take a message. -/
structure Takes (engine : Engine α) (message : Message α) : Prop where
  validate : engine.validate message = .ok ()
  accepted : ∀ history, (if message.body.isAdmin then
      engine.application.fromAdmin history message
    else engine.application.fromApp history message) = .ok ()

variable {sender receiver : Engine α} {times : Set UtcTimeStamp} {now : UtcTimeStamp}

/-! ### What is sent again -/

/-- An application message takes one number. -/
theorem nextNum_of_app {message : Message α} (h : message.body.isAdmin = false) :
    message.nextNum = message.seqNum + 1 := by
  unfold Message.nextNum
  cases hbody : message.body with
  | sequenceReset gapFillFlag newSeqNo =>
    rw [hbody] at h
    cases h
  | _ => rfl

/-- An application message is counted. -/
theorem counted_of_app {body : Body α} (h : body.isAdmin = false) : body.isCounted := by
  cases body with
  | businessMessageReject refMsgType refSeqNum businessRejectReason text => rfl
  | app msgType content => rfl
  | _ => cases h

/-- The number of a message that is sent again. -/
theorem seqNum_resent {s : State α} (hs : Recorded sender s) {num : ℕ} {message : Message α}
    (h : Resendable sender now s.store num message) : (message.resent now).seqNum = num := by
  show message.header.msgSeqNum.getD 0 = num
  rw [hs.numbered num message h.lookup]
  rfl

/-- A message that is sent again covers its number. -/
theorem resent_chain {s : State α} (hs : Recorded sender s) {num : ℕ} {message : Message α}
    (h : Resendable sender now s.store num message) :
    Chain Message.seqNum Message.nextNum num (num + 1) [message.resent now] := by
  have hnext : (message.resent now).nextNum = (message.resent now).seqNum + 1 :=
    nextNum_of_app h.app
  have hchain : Chain Message.seqNum Message.nextNum _ _ [message.resent now] :=
    Chain.singleton (show (message.resent now).seqNum < (message.resent now).nextNum by omega)
  rwa [hnext, seqNum_resent hs h] at hchain

/-- A gap fill covers the numbers of its gap. -/
theorem gapFill_chain {gap next : ℕ} (hlt : gap < next) (fields : List (ℕ × String)) :
    Chain Message.seqNum Message.nextNum gap next [gapFillMessage sender now gap next fields] :=
  Chain.singleton (show (gapFillMessage sender now gap next fields).seqNum <
    (gapFillMessage sender now gap next fields).nextNum from hlt)

/-- What has been sent for a range of numbers covers it. -/
theorem Resent.chain {s : State α} (hs : Recorded sender s) {first num : ℕ}
    {outs : List (Message α)} (h : Resent sender now s.store first num outs) :
    Chain Message.seqNum Message.nextNum first num outs := by
  induction h with
  | nothing => exact .nil first
  | message _ h ih => exact ih.append (resent_chain hs h)
  | gapMessage _ hlt _ fields h ih =>
    exact ih.append ((gapFill_chain hlt fields).append (resent_chain hs h))

/-- An answer covers the numbers that it is for. -/
theorem Answer.chain {s : State α} (hs : Recorded sender s) {first next : ℕ}
    {outs : List (Message α)} (h : Answer sender now s.store first next outs) :
    Chain Message.seqNum Message.nextNum first next outs := by
  cases h with
  | complete h => exact h.chain hs
  | gap h hlt _ fields => exact (h.chain hs).append (gapFill_chain hlt fields)

/-- What holds of the messages that are sent again and of the gap fills holds of what is sent for a
range of numbers. -/
theorem Resent.all {store : MemoryStore α} {R : Message α → Prop} {first num : ℕ}
    {outs : List (Message α)} (h : Resent sender now store first num outs)
    (hresent : ∀ n message, Resendable sender now store n message → R (message.resent now))
    (hgap : ∀ gap next fields, gap < next → next ≤ num →
      R (gapFillMessage sender now gap next fields)) : ∀ message ∈ outs, R message := by
  induction h with
  | nothing => intro message hmem; cases hmem
  | message _ h ih =>
    intro message hmem
    cases List.mem_append.mp hmem with
    | inl hmem =>
      exact ih (fun gap next fields hlt hle => hgap gap next fields hlt (by omega)) message hmem
    | inr hmem =>
      rw [List.mem_singleton.mp hmem]
      exact hresent _ _ h
  | gapMessage _ hlt _ fields h ih =>
    intro message hmem
    cases List.mem_append.mp hmem with
    | inl hmem =>
      exact ih (fun gap next fields hlt hle => hgap gap next fields hlt (by omega)) message hmem
    | inr hmem =>
      cases List.mem_cons.mp hmem with
      | inl heq =>
        rw [heq]
        exact hgap _ _ fields hlt (by omega)
      | inr hmem =>
        rw [List.mem_singleton.mp hmem]
        exact hresent _ _ h

/-- What holds of each resent message and of each gap fill holds of an answer. -/
theorem Answer.all {store : MemoryStore α} {R : Message α → Prop} {first next : ℕ}
    {outs : List (Message α)} (h : Answer sender now store first next outs)
    (hresent : ∀ n message, Resendable sender now store n message → R (message.resent now))
    (hgap : ∀ gap next' fields, gap < next' → next' ≤ next →
      R (gapFillMessage sender now gap next' fields)) : ∀ message ∈ outs, R message := by
  cases h with
  | complete h => exact h.all hresent hgap
  | gap h hlt _ fields =>
    intro message hmem
    cases List.mem_append.mp hmem with
    | inl hmem =>
      exact h.all hresent (fun gap next' fields hlt' hle => hgap gap next' fields hlt' (by omega))
        message hmem
    | inr hmem =>
      rw [List.mem_singleton.mp hmem]
      exact hgap _ _ fields hlt (Nat.le_refl _)

/-! ### What the other side takes -/

section
variable (hfaces : Faces sender receiver) (hclock : ∀ time ∈ times, isGoodTime receiver time now)
include hfaces hclock

/-- A resent message is acceptable to the other side. -/
theorem acceptable_resent {s : State α} (hs : Recorded sender s)
    (hcount : s.expectedSenderNum < SEQNUM_COUNT) {num : ℕ} {message : Message α}
    (h : Resendable sender now s.store num message) (htakes : Takes receiver (message.resent now)) :
    Acceptable receiver times (message.resent now) := by
  have hfilled := hs.filled num message h.lookup
  have hnum := seqNum_resent hs h
  have hbounded := hs.bounded num (Finmap.mem_of_lookup_eq_some h.lookup)
  have hnext : (message.resent now).nextNum = (message.resent now).seqNum + 1 :=
    nextNum_of_app h.app
  refine ⟨⟨⟨hfilled.beginString.trans hfaces.beginString.symm,
    hfilled.senderCompID.trans (congrArg some hfaces.targetCompID.symm),
    hfilled.targetCompID.trans (congrArg some hfaces.senderCompID.symm), ⟨now, rfl, hclock⟩, ?_⟩,
    htakes.validate, htakes.accepted⟩, counted_of_app h.app, by omega, by omega⟩
  show message.header.msgSeqNum.isSome
  rw [hs.numbered num message h.lookup]
  rfl

/-- A gap fill is acceptable to the other side. -/
theorem acceptable_gapFill {gap next : ℕ} (hlt : gap < next) (hcount : next < SEQNUM_COUNT)
    {fields : List (ℕ × String)}
    (htakes : Takes receiver (gapFillMessage sender now gap next fields)) :
    Acceptable receiver times (gapFillMessage sender now gap next fields) :=
  ⟨⟨⟨hfaces.beginString.symm, congrArg some hfaces.targetCompID.symm,
    congrArg some hfaces.senderCompID.symm, ⟨now, rfl, hclock⟩, rfl⟩, htakes.validate,
    htakes.accepted⟩, rfl, hlt, hcount⟩

omit hfaces hclock in
/-- A message of the store that is sent again is a possible duplicate, if the clock has not been put
back. -/
theorem duplicate_resent {s : State α} (hs : Recorded sender s) {num : ℕ} {message : Message α}
    (h : Resendable sender now s.store num message)
    (hsent : ∀ time, message.header.sendingTime = some time → time.nanos ≤ now.nanos) :
    Duplicate (message.resent now) := by
  obtain ⟨time, htime⟩ := Option.isSome_iff_exists.mp (hs.filled num message h.lookup).sendingTime
  refine ⟨rfl, Or.inr ⟨time, htime, fun time' htime' => ?_⟩⟩
  cases htime'
  exact hsent time htime

/-- The messages of an answer are taken, and dropped where they come too late. -/
theorem Answer.acceptable {s : State α} (hs : Recorded sender s)
    (hsent : ∀ num message, s.store.messages.lookup num = some message →
      ∀ time, message.header.sendingTime = some time → time.nanos ≤ now.nanos)
    (hcount : s.expectedSenderNum < SEQNUM_COUNT) {first next : ℕ}
    (hnext : next ≤ s.expectedSenderNum) {outs : List (Message α)}
    (h : Answer sender now s.store first next outs)
    (htakes : ∀ message ∈ outs, Takes receiver message) :
    ∀ message ∈ outs, Acceptable receiver times message ∧ Duplicate message := by
  have hall : ∀ message ∈ outs, Takes receiver message →
      Acceptable receiver times message ∧ Duplicate message := by
    refine h.all ?_ ?_
    · intro num message h htakes
      exact ⟨acceptable_resent hfaces hclock hs hcount h htakes,
        duplicate_resent hs h (hsent num message h.lookup)⟩
    · intro gap next' fields hlt hle htakes
      exact ⟨acceptable_gapFill hfaces hclock hlt (by omega) htakes, rfl, Or.inl rfl⟩
  exact fun message hmem => hall message hmem (htakes message hmem)

end

/-! ### Recovery -/

/-- Numbers below 2^31 survive the cast. -/
theorem castInt_of_lt {num : ℕ} (h : num < 2147483648) : castInt num = num := by
  have hlow : num % 2 ^ 32 = num := Nat.mod_eq_of_lt (by omega)
  rw [castInt, hlow]
  exact if_pos (by omega)

/-- The request of one session is welcome at the other one. -/
theorem welcome_request (hfaces : Faces sender receiver) {time : UtcTimeStamp}
    (hgood : isGoodTime sender now time) {num : ℕ} {body : Body α} {fields : List (ℕ × String)}
    (htakes : Takes sender (generatedMessage receiver time num body fields)) :
    Welcome sender {now} (generatedMessage receiver time num body fields) :=
  ⟨⟨hfaces.beginString, congrArg some hfaces.senderCompID, congrArg some hfaces.targetCompID,
    ⟨time, rfl, fun now' hnow' => by rw [show now' = now from hnow']; exact hgood⟩, rfl⟩,
    htakes.validate, htakes.accepted⟩

/-- `held` are messages behind a gap, with one number each, up to the last one that has been
given. -/
structure Behind (receiver : Engine α) (times : Set UtcTimeStamp) (expected first last : ℕ)
    (held : List (UtcTimeStamp × Message α)) : Prop where
  gap : expected < first
  nonempty : first < last
  chain : Chain Message.seqNum Message.nextNum first last (held.map Prod.snd)
  accept : ∀ arrival ∈ held, arrival.1 ∈ times ∧ Acceptable receiver times arrival.2
  unit : ∀ arrival ∈ held, arrival.2.nextNum = arrival.2.seqNum + 1

/-- The messages behind a gap wait. -/
theorem run_held {r : State α} (hr : Ready receiver times r) {first last : ℕ}
    {held : List (UtcTimeStamp × Message α)}
    (hheld : Behind receiver times r.expectedTargetNum first last held) :
    let r' := run receiver r (held.map fun arrival => (arrival.1, .next arrival.2))
    Steady receiver times r' ∧ Waiting receiver times r'.buffer ∧ r'.buffer.Settled ∧
      r'.expectedTargetNum = r.expectedTargetNum ∧ r'.handed = r.handed ∧
      r'.buffer.Holds Message.seqNum (held.map Prod.snd) := by
  intro r'
  have hnothing : r.buffer.Holds Message.seqNum [] := Buffer.holds_nil hr.queue
  have habove : ∀ message ∈ held.map Prod.snd, r.buffer.expected < message.seqNum :=
    fun message hmem => Nat.lt_of_lt_of_le hheld.gap (hheld.chain.le_num message hmem)
  have hascending := hheld.chain.ascending
  have hnum : ∀ before message later, held.map Prod.snd = before ++ message :: later →
      (before.foldl (Buffer.receive Message.seqNum Message.nextNum) r.buffer).expected
        ≤ message.seqNum ∨ Duplicate message := by
    intro before message later heq
    rw [heq] at habove hascending
    obtain ⟨hexpected, -⟩ := Buffer.receive_held Message.nextNum before hnothing
      (fun m hm => habove m (List.mem_append_left _ hm)) (List.pairwise_append.mp hascending).1
    rw [hexpected]
    exact Or.inl (Nat.le_of_lt (habove message (by simp)))
  obtain ⟨hsteady, hwaiting, hsettled, hbuffer⟩ :=
    run_receive held hr.steady hr.waiting hr.settled hheld.accept hnum
  obtain ⟨hexpected, hdelivered, hholds⟩ :=
    Buffer.receive_held Message.nextNum (held.map Prod.snd) hnothing habove hascending
  rw [← hbuffer] at hexpected hdelivered hholds
  exact ⟨hsteady, hwaiting, hsettled, hexpected, hdelivered, hholds⟩

/-- The messages behind a gap make the session ask for everything from the expected number on. -/
theorem run_held_requests {r : State α} (hr : Ready receiver times r)
    (hrequested : r.resendRequested = false)
    (hversion : "FIX.4.2" ≤ receiver.settings.sessionID.beginString)
    (hint : r.expectedTargetNum < 2147483648) {first last : ℕ}
    {held : List (UtcTimeStamp × Message α)}
    (hheld : Behind receiver times r.expectedTargetNum first last held) :
    ∃ time ∈ times, ∃ fields, r.history ++ [.sent (generatedMessage receiver time
        r.expectedSenderNum (.resendRequest (some r.expectedTargetNum) (some 0)) fields)]
      <+: (run receiver r (held.map fun arrival => (arrival.1, .next arrival.2))).history := by
  obtain ⟨⟨time, message⟩, held', rfl⟩ : ∃ arrival held', held = arrival :: held' := by
    cases held with
    | nil => exact absurd hheld.chain.of_nil (Nat.ne_of_lt hheld.nonempty)
    | cons arrival held' => exact ⟨arrival, held', rfl⟩
  obtain ⟨htime, hm⟩ := hheld.accept _ List.mem_cons_self
  have hfirst : message.seqNum = first := hheld.chain.of_cons.1
  obtain ⟨fields, hsent⟩ := step_requests time hr htime hrequested hversion hm
    (hfirst.symm ▸ hheld.gap)
  rw [castInt_of_lt hint] at hsent
  exact ⟨time, htime, fields, hsent.trans (run_history receiver _ _)⟩

/-- An application message of `LEFT`. -/
def leftMessage (num content : ℕ) : Message ℕ := ⟨plainHeader "LEFT" "RIGHT" num, .app "D" content⟩

end Harjus.Session
