import Harjus.Proofs.Session.Sequence

/-!
# `Harjus.Proofs.Session.Resending`: the answer to a resend request

`generateRetransmits` goes through the store and sends the application messages again, with a gap
fill for every stretch of numbers that it leaves out.

* `retransmit_answer`: for numbers that have been given, the answer covers the requested range
  without a hole and without an overlap. What a gap fill covers is administrative, or was held
  back by the application.
* `answer_of_refused`: if the application lets nothing out twice, the answer is one gap fill for
  the whole range.

The loop over the store has sent the answer up to a number (`Resent`), after which it may have left
out some messages that the next gap fill will cover (`Pending`).
-/

set_option autoImplicit false

namespace Harjus.Session

open Harjus.Lib

variable {α : Type} (engine : Engine α) (now : UtcTimeStamp) (store : MemoryStore α)

/-- The message under a number is administrative, or the application holds it back. -/
def Skipped (num : ℕ) : Prop :=
  ∃ message, store.messages.lookup num = some message ∧ (message.body.isAdmin ∨
    ∃ history, engine.application.toApp history (message.resent now) = false)

/-- The message under a number is for the application, which lets it go. -/
structure Resendable (num : ℕ) (message : Message α) : Prop where
  lookup : store.messages.lookup num = some message
  app : message.body.isAdmin = false
  toApp : ∃ history, engine.application.toApp history (message.resent now)

/-- `outs` are what is sent for the numbers from `first` up to the next one, where the last of
them is for a message that is sent again. -/
inductive Resent (first : ℕ) : ℕ → List (Message α) → Prop
  | nothing : Resent first first []
  | message {num : ℕ} {outs : List (Message α)} {message : Message α}
      (before : Resent first num outs) (h : Resendable engine now store num message) :
      Resent first (num + 1) (outs ++ [message.resent now])
  | gapMessage {gap num : ℕ} {outs : List (Message α)} {message : Message α}
      (before : Resent first gap outs) (hlt : gap < num)
      (hskipped : ∀ n, gap ≤ n → n < num → Skipped engine now store n)
      (fields : List (ℕ × String)) (h : Resendable engine now store num message) :
      Resent first (num + 1)
        (outs ++ [gapFillMessage engine now gap num fields, message.resent now])

/-- The answer for the numbers from `first` up to `next`. -/
inductive Answer (first next : ℕ) : List (Message α) → Prop
  | complete {outs : List (Message α)} (h : Resent engine now store first next outs) :
      Answer first next outs
  | gap {num : ℕ} {outs : List (Message α)} (h : Resent engine now store first num outs)
      (hlt : num < next) (hskipped : ∀ n, num ≤ n → n < next → Skipped engine now store n)
      (fields : List (ℕ × String)) :
      Answer first next (outs ++ [gapFillMessage engine now num next fields])

/-- The loop of `generateRetransmits` before it comes to `num`: `outs` have been sent, and the
numbers from `r.beginSeqNo` on, if there is one, wait for a gap fill. -/
structure Pending (first num : ℕ) (r : Retransmit) (outs : List (Message α)) : Prop where
  current : r.current = num
  sent : r.beginSeqNo = 0 → Resent engine now store first num outs
  skipped : r.beginSeqNo ≠ 0 → Resent engine now store first r.beginSeqNo outs ∧
    r.beginSeqNo < num ∧ ∀ n, r.beginSeqNo ≤ n → n < num → Skipped engine now store n

/-- A state in which `outs` have been sent since. -/
def State.afterSending (s : State α) (time : UtcTimeStamp) (outs : List (Message α)) : State α :=
  { s with lastSentTime := time, history := s.history ++ outs.map Output.sent }

variable {engine now store}

/-- Sending some messages and then others is sending all of them. -/
theorem afterSending_append (s : State α) (time time' : UtcTimeStamp)
    (outs outs' : List (Message α)) :
    (s.afterSending time outs).afterSending time' outs' = s.afterSending time' (outs ++ outs') := by
  simp [State.afterSending]

/-- A text goes out over the connection. -/
theorem afterSending_sendString {s : State α} (hresponder : s.hasResponder) (message : Message α) :
    sendString message s = .ok ⟨⟩ (s.afterSending s.lastSentTime [message]) := by
  rw [sendString_run, if_pos hresponder]
  rfl

/-- A gap fill goes out over the connection. -/
theorem afterSending_gapFill (engine : Engine α) (now : UtcTimeStamp) {s : State α}
    (hresponder : s.hasResponder) {gap : ℕ}
    (hgap : gap ≠ 0) (next : ℕ) :
    ∃ fields, generateSequenceReset engine now gap next s
      = .ok ⟨⟩ (s.afterSending now [gapFillMessage engine now gap next fields]) := by
  obtain ⟨fields, hrun⟩ := @generateSequenceReset_run α engine now gap next s hgap
  refine ⟨fields, hrun.trans ?_⟩
  rw [if_pos hresponder]
  rfl

/-! ### The loop -/

/-- What `resend` does for a message with a `SendingTime`. -/
theorem resend_run {message : Message α} (hfilled : message.header.Filled engine) (s : State α) :
    resend engine now message s
      = .ok (engine.application.toApp s.history (message.resent now), message.resent now) s := by
  obtain ⟨time, htime⟩ := Option.isSome_iff_exists.mp hfilled.sendingTime
  rw [resend, htime]
  show EStateM.Result.ok _ s = _
  rw [Message.resent, htime]

/-- The body of the loop where no number is missing in the store. -/
theorem retransmit_of_current {r : Retransmit} {message : Message α} {num : ℕ}
    (hcurrent : r.current = num) (hnum : message.seqNum = num) :
    retransmit engine now r message =
      (if message.body.isAdmin then
        pure ⟨if r.beginSeqNo = 0 then num else r.beginSeqNo, num + 1, num, false⟩
      else do
        let (resent, message) ← resend engine now message
        if resent then
          when (r.beginSeqNo ≠ 0) (generateSequenceReset engine now r.beginSeqNo num)
          sendString message
          return ⟨0, num + 1, num, true⟩
        else return ⟨if r.beginSeqNo = 0 then num else r.beginSeqNo, num + 1, num, false⟩) := by
  have hbegin : (if r.current ≠ message.seqNum ∧ r.beginSeqNo = 0 then r.current
      else r.beginSeqNo) = r.beginSeqNo := by
    rw [if_neg]
    rintro ⟨hne, -⟩
    exact hne (hcurrent.trans hnum.symm)
  rw [retransmit, hbegin, hnum]

/-- The loop leaves a message out. -/
theorem retransmit_skip {r : Retransmit} {message : Message α} {s : State α} {num : ℕ}
    (hcurrent : r.current = num) (hnum : message.seqNum = num)
    (hfilled : message.header.Filled engine)
    (hskip : message.body.isAdmin ∨
      engine.application.toApp s.history (message.resent now) = false) :
    retransmit engine now r message s
      = .ok ⟨if r.beginSeqNo = 0 then num else r.beginSeqNo, num + 1, num, false⟩ s := by
  rw [retransmit_of_current hcurrent hnum]
  by_cases hadmin : message.body.isAdmin
  · rw [if_pos hadmin]
    rfl
  · rw [if_neg hadmin, bind_of_ok (resend_run hfilled s), hskip.resolve_left hadmin]
    rfl

/-- The loop sends a message again, after the gap fill for what it has left out. -/
theorem retransmit_resend {r : Retransmit} {message : Message α} {s : State α} {num : ℕ}
    (hcurrent : r.current = num) (hnum : message.seqNum = num)
    (hfilled : message.header.Filled engine) (hresponder : s.hasResponder)
    (happ : message.body.isAdmin = false)
    (htoApp : engine.application.toApp s.history (message.resent now)) :
    ∃ time fields, retransmit engine now r message s = .ok ⟨0, num + 1, num, true⟩
      (s.afterSending time ((if r.beginSeqNo = 0 then []
        else [gapFillMessage engine now r.beginSeqNo num fields]) ++ [message.resent now])) := by
  have hrun : ∀ s' : State α, s'.hasResponder →
      (sendString (message.resent now) >>= fun _ => pure ⟨0, num + 1, num, true⟩) s'
        = .ok (⟨0, num + 1, num, true⟩ : Retransmit)
          (s'.afterSending s'.lastSentTime [message.resent now]) := by
    intro s' hresponder'
    rw [bind_of_ok (afterSending_sendString hresponder' _)]
    rfl
  rw [retransmit_of_current hcurrent hnum, if_neg (by simp [happ]),
    bind_of_ok (resend_run hfilled s), htoApp]
  by_cases hgap : r.beginSeqNo = 0
  · -- No gap is open.
    have hgaps : ∀ gaps : List (Message α), (if r.beginSeqNo = 0 then [] else gaps) = [] :=
      fun _ => if_pos hgap
    refine ⟨s.lastSentTime, [], ?_⟩
    rw [hgaps, List.nil_append]
    show (when (r.beginSeqNo ≠ 0) _ >>= fun _ => sendString (message.resent now) >>= _) s = _
    rw [when, if_neg (by simp [hgap]), pure_bind_run]
    exact hrun s hresponder
  · -- The open gap is filled up to this message.
    obtain ⟨fields, hfill⟩ := afterSending_gapFill engine now hresponder hgap num
    have hgaps : ∀ gaps : List (Message α), (if r.beginSeqNo = 0 then [] else gaps) = gaps :=
      fun _ => if_neg hgap
    refine ⟨now, fields, ?_⟩
    rw [hgaps]
    show (when (r.beginSeqNo ≠ 0) _ >>= fun _ => sendString (message.resent now) >>= _) s = _
    rw [when, if_pos hgap, bind_of_ok hfill, ← afterSending_append s now now]
    exact hrun (s.afterSending now _) hresponder

/-- A step of the loop. -/
theorem pending_step {s : State α} {first num : ℕ} {r : Retransmit} {message : Message α}
    {outs : List (Message α)} (hs : Recorded engine s) (hresponder : s.hasResponder)
    (hpos : 1 ≤ num) (time : UtcTimeStamp) (h : Pending engine now s.store first num r outs)
    (hlookup : s.store.messages.lookup num = some message) :
    ∃ r' time' outs', retransmit engine now r message (s.afterSending time outs)
        = .ok r' (s.afterSending time' outs') ∧
      r'.msgSeqNum = num ∧ Pending engine now s.store first (num + 1) r' outs' := by
  have hnum : message.seqNum = num := by
    rw [Message.seqNum, hs.numbered num message hlookup]
    rfl
  have hfilled := hs.filled num message hlookup
  by_cases hskip : message.body.isAdmin ∨
      engine.application.toApp (s.afterSending time outs).history (message.resent now) = false
  · -- A skipped message opens a gap at its number, or lengthens the one that is open.
    refine ⟨_, time, outs, retransmit_skip h.current hnum hfilled hskip, rfl, rfl, ?_, ?_⟩
    · intro hbegin
      have : (if r.beginSeqNo = 0 then num else r.beginSeqNo) = 0 := hbegin
      split at this <;> omega
    · have hskipped : Skipped engine now s.store num :=
        ⟨message, hlookup, hskip.imp id fun htoApp => ⟨_, htoApp⟩⟩
      intro _
      by_cases hbegin : r.beginSeqNo = 0
      · simp only [if_pos hbegin]
        refine ⟨h.sent hbegin, Nat.lt_succ_self num, fun n hle hlt => ?_⟩
        rw [Nat.le_antisymm (Nat.le_of_lt_succ hlt) hle]
        exact hskipped
      · simp only [if_neg hbegin]
        obtain ⟨hsent, hlt, hall⟩ := h.skipped hbegin
        refine ⟨hsent, Nat.lt_succ_of_lt hlt, fun n hle hltn => ?_⟩
        cases Nat.lt_or_eq_of_le (Nat.le_of_lt_succ hltn) with
        | inl hltn => exact hall n hle hltn
        | inr heq =>
          rw [heq]
          exact hskipped
  · -- A resent message closes the open gap first, with a gap fill up to its number.
    obtain ⟨happ, htoApp⟩ := not_or.mp hskip
    have happ' : message.body.isAdmin = false := by simpa using happ
    have htoApp' : engine.application.toApp (s.afterSending time outs).history
        (message.resent now) = true := by simpa using htoApp
    obtain ⟨time', fields, hrun⟩ := retransmit_resend (s := s.afterSending time outs) h.current
      hnum hfilled hresponder happ' htoApp'
    rw [afterSending_append] at hrun
    have hresendable : Resendable engine now s.store num message := ⟨hlookup, happ', _, htoApp'⟩
    refine ⟨_, time', _, hrun, rfl, rfl, fun _ => ?_, fun hne => absurd rfl hne⟩
    by_cases hbegin : r.beginSeqNo = 0
    · rw [if_pos hbegin, List.nil_append]
      exact .message (h.sent hbegin) hresendable
    · obtain ⟨hsent, hlt, hall⟩ := h.skipped hbegin
      rw [if_neg hbegin]
      exact .gapMessage hsent hlt hall fields hresendable

/-- The first of some numbers has a stored message. -/
theorem filterMap_cons_lookup {messages : Finmap fun _ : ℕ => Message α} {num : ℕ}
    {message : Message α} (h : messages.lookup num = some message) (nums : List ℕ) :
    (num :: nums).filterMap messages.lookup = message :: nums.filterMap messages.lookup := by
  simp [h]

/-- The loop over `count + 1` numbers from `num` on. -/
theorem pending_run {s : State α} {first : ℕ} (hs : Recorded engine s)
    (hresponder : s.hasResponder) (count : ℕ) :
    ∀ {num : ℕ} {r : Retransmit} {outs : List (Message α)} (time : UtcTimeStamp), 1 ≤ num →
      Pending engine now s.store first num r outs →
      (∀ n, num ≤ n → n ≤ num + count → n ∈ s.store.messages) →
      ∃ r' time' outs',
        ((List.range' num (count + 1)).filterMap s.store.messages.lookup).foldlM
          (retransmit engine now) r (s.afterSending time outs)
            = .ok r' (s.afterSending time' outs') ∧
        r'.msgSeqNum = num + count ∧
        Pending engine now s.store first (num + count + 1) r' outs' := by
  induction count with
  | zero =>
    intro num r outs time hpos h hmem
    obtain ⟨message, hlookup⟩ := Finmap.mem_iff.mp (hmem num (Nat.le_refl _) (Nat.le_refl _))
    obtain ⟨r', time', outs', hrun, hnum, h'⟩ := pending_step hs hresponder hpos time h hlookup
    refine ⟨r', time', outs', ?_, hnum, h'⟩
    have hlist : (List.range' num (0 + 1)).filterMap s.store.messages.lookup = [message] := by
      rw [List.range'_succ, filterMap_cons_lookup hlookup]
      rfl
    rw [hlist, List.foldlM_cons, bind_of_ok hrun]
    rfl
  | succ count ih =>
    intro num r outs time hpos h hmem
    obtain ⟨message, hlookup⟩ := Finmap.mem_iff.mp (hmem num (Nat.le_refl _) (by omega))
    obtain ⟨r₁, time₁, outs₁, hrun, -, h₁⟩ := pending_step hs hresponder hpos time h hlookup
    obtain ⟨r', time', outs', hrest, hnum, h'⟩ := ih time₁ (Nat.le_succ_of_le hpos) h₁
      fun n hle hlt => hmem n (by omega) (by omega)
    refine ⟨r', time', outs', ?_, by omega, ?_⟩
    · rw [List.range'_succ, filterMap_cons_lookup hlookup, List.foldlM_cons, bind_of_ok hrun]
      exact hrest
    · rw [show num + (count + 1) + 1 = num + 1 + count + 1 by omega]
      exact h'

/-! ### The answer -/

/-- A range of numbers that have been given is in the store. -/
theorem get_of_recorded {s : State α} (hs : Recorded engine s)
    (hpersist : engine.settings.persistMessages) {beginSeqNo endSeqNo : ℕ} (hpos : 1 ≤ beginSeqNo)
    (hle : beginSeqNo ≤ endSeqNo) (hlt : endSeqNo < s.expectedSenderNum) :
    s.store.get beginSeqNo endSeqNo
      = (List.range' beginSeqNo (endSeqNo - beginSeqNo + 1)).filterMap s.store.messages.lookup := by
  rw [MemoryStore.get, if_pos (hs.dense hpersist beginSeqNo hpos (by omega)),
    show endSeqNo + 1 - beginSeqNo = endSeqNo - beginSeqNo + 1 by omega]

/-- In a state that has recorded what it sent, the requested numbers are answered. Only a gap fill
counts as sent at that time. -/
theorem generateRetransmits_answer (now : UtcTimeStamp) {s : State α} (hs : Recorded engine s)
    (hpersist : engine.settings.persistMessages) (hresponder : s.hasResponder)
    {beginSeqNo endSeqNo : ℕ} (hpos : 1 ≤ beginSeqNo) (hle : beginSeqNo ≤ endSeqNo)
    (hlt : endSeqNo < s.expectedSenderNum) :
    ∃ time outs, generateRetransmits engine now beginSeqNo endSeqNo s
        = .ok ⟨⟩ (s.afterSending time outs) ∧
      Answer engine now s.store beginSeqNo (endSeqNo + 1) outs ∧
      (time = now ∨ Resent engine now s.store beginSeqNo (endSeqNo + 1) outs) := by
  have hstart : Pending engine now s.store beginSeqNo beginSeqNo ⟨0, beginSeqNo, 0, false⟩ [] :=
    ⟨rfl, fun _ => .nothing, fun hne => absurd rfl hne⟩
  obtain ⟨r, time, outs, hrun, hnum, h⟩ := pending_run hs hresponder (endSeqNo - beginSeqNo)
    s.lastSentTime hpos hstart fun n hle' hlt' => hs.dense hpersist n (by omega) (by omega)
  have hnum' : r.msgSeqNum = endSeqNo := by omega
  have hstate : s.afterSending s.lastSentTime [] = s := by
    simp [State.afterSending]
  rw [← get_of_recorded hs hpersist hpos hle hlt, hstate] at hrun
  rw [show beginSeqNo + (endSeqNo - beginSeqNo) + 1 = endSeqNo + 1 by omega] at h
  -- What follows the loop: the last gap fill, and nothing for numbers after the last message.
  have hend : ∀ s' : State α, when (r.msgSeqNum < endSeqNo) (do
      let next := (← get).expectedSenderNum
      generateSequenceReset engine now
        (if r.appMessageJustSent then r.msgSeqNum + 1 else beginSeqNo) (min (endSeqNo + 1) next)) s'
      = .ok ⟨⟩ s' := by
    intro s'
    rw [when, if_neg (by omega)]
    rfl
  by_cases hbegin : r.beginSeqNo = 0
  · refine ⟨time, outs, ?_, .complete (h.sent hbegin), Or.inr (h.sent hbegin)⟩
    rw [generateRetransmits, get_bind, bind_of_ok hrun, when, if_neg (by simp [hbegin]),
      pure_bind_run]
    exact hend _
  · obtain ⟨hsent, hlt', hall⟩ := h.skipped hbegin
    obtain ⟨fields, hgap⟩ := afterSending_gapFill engine now
      (show (s.afterSending time outs).hasResponder from hresponder) hbegin (r.msgSeqNum + 1)
    rw [afterSending_append] at hgap
    rw [← hnum'] at hlt' hall ⊢
    refine ⟨now, _, ?_, .gap hsent hlt' hall fields, Or.inl rfl⟩
    rw [← hnum'] at hrun hend
    rw [generateRetransmits, get_bind, bind_of_ok hrun, when, if_pos hbegin, bind_of_ok hgap]
    exact hend _

/-- If nothing is sent again, nothing has been sent for the first numbers. -/
theorem resent_of_refused {first num : ℕ} {outs : List (Message α)}
    (hrefused : ∀ num message, ¬ Resendable engine now store num message)
    (h : Resent engine now store first num outs) : num = first ∧ outs = [] := by
  cases h with
  | nothing => exact ⟨rfl, rfl⟩
  | message _ h => exact absurd h (hrefused _ _)
  | gapMessage _ _ _ _ h => exact absurd h (hrefused _ _)

/-- If nothing is sent again, the answer is a gap fill. -/
theorem answer_of_refused {first next : ℕ} {outs : List (Message α)} (hlt : first < next)
    (hrefused : ∀ num message, ¬ Resendable engine now store num message)
    (h : Answer engine now store first next outs) :
    ∃ fields, outs = [gapFillMessage engine now first next fields] := by
  cases h with
  | complete h =>
    have := (resent_of_refused hrefused h).1
    omega
  | gap h _ _ fields =>
    obtain ⟨rfl, rfl⟩ := resent_of_refused hrefused h
    exact ⟨fields, rfl⟩

/-- After any run, a range of numbers that have been given is answered without a hole and without
an overlap, and the numbers that have been given stay as they are. -/
theorem retransmit_answer (engine : Engine α) (hpersist : engine.settings.persistMessages)
    (heartBtInt : ℤ) (start now : UtcTimeStamp) (inputs : List (UtcTimeStamp × Input α))
    (hresponder : (run engine (.new heartBtInt start) inputs).hasResponder)
    {beginSeqNo endSeqNo : ℕ} (hpos : 1 ≤ beginSeqNo) (hle : beginSeqNo ≤ endSeqNo)
    (hlt : endSeqNo < (run engine (.new heartBtInt start) inputs).expectedSenderNum) :
    let s := run engine (.new heartBtInt start) inputs
    ∃ outs, Answer engine now s.store beginSeqNo (endSeqNo + 1) outs ∧
      ∃ time, after (generateRetransmits engine now beginSeqNo endSeqNo) s
        = { s with lastSentTime := time, history := s.history ++ outs.map Output.sent } := by
  intro s
  obtain ⟨time, outs, hrun, hanswer, -⟩ := generateRetransmits_answer now
    (recorded_run engine heartBtInt start inputs) hpersist hresponder hpos hle hlt
  exact ⟨outs, hanswer, time, after_of_ok hrun⟩

/-- Two messages of a session are requested again. -/
theorem retransmit_answer_two :
    let engine : Engine ℕ := .plain "LEFT" "RIGHT"
    let s := run engine (.new 30 ⟨0⟩) (plainRun "RIGHT" "LEFT" ++
      [(⟨0⟩, .send (.new (.app "D" 7))), (⟨0⟩, .send (.new (.app "D" 8)))])
    ∃ outs, Answer engine ⟨0⟩ s.store 2 4 outs ∧
      ∃ time, after (generateRetransmits engine ⟨0⟩ 2 3) s
        = { s with lastSentTime := time, history := s.history ++ outs.map Output.sent } :=
  retransmit_answer (.plain "LEFT" "RIGHT") rfl 30 ⟨0⟩ ⟨0⟩ _ (by decide +kernel) (by decide)
    (by decide) (by decide +kernel)

end Harjus.Session
