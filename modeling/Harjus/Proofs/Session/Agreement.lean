import Harjus.Proofs.Session.Sequence
import Mathlib.Data.List.Sort

/-!
# `Harjus.Proofs.Session.Agreement`: two sessions that talk to each other

What the application of one session accepts, against what the application of the other has sent.
Between the two, messages may be lost, repeated and reordered.

* `accepted_sublist_published`: what is accepted since the numbers of the receiver last started
  again is among the messages that the sender has given numbers since its own last reset, in the
  same order and none of them twice.

The receiver contributes that the accepted numbers ascend (`InOrder`), and the sender that each
number stands for one message, whichever way it is sent (`Recorded`).
-/

set_option autoImplicit false

namespace Harjus.Session

open Harjus.Lib

variable {α : Type} {engine : Engine α} {P : Body α → Prop} {Q : Message α → Prop}

/-- The message of an entry that the application has accepted. -/
def Output.accepted : Output α → Option (Message α)
  | .fromApp message true => some message
  | _ => none

/-- What the application has accepted since the expected number last started again. -/
def State.accepted (s : State α) : List (Message α) :=
  (lastEpoch Output.isRestart s.history).filterMap Output.accepted

/-- The application messages that have been given numbers since the last reset, in the order of
the numbers. -/
def State.published (s : State α) : List (Message α) :=
  (s.store.get 1 (s.expectedSenderNum - 1)).filter fun message => !message.body.isAdmin

/-- What resending leaves of a message: its number and its body. -/
def Message.content (message : Message α) : ℕ × Body α := (message.seqNum, message.body)

/-- A resent message has its number and its content. -/
@[simp] theorem content_resent (message : Message α) (now : UtcTimeStamp) :
    (message.resent now).content = message.content := rfl

/-! ### The receiver -/

/-- What has been accepted since the expected number last started again was received, and was for
the application. -/
def Received (Q : Message α → Prop) (s : State α) : Prop :=
  ∀ message, Since Output.isRestart s.history (.fromApp message true) →
    Q message ∧ message.body.isAdmin = false

/-- An output of a received message keeps the outputs those of received ones. -/
theorem Received.concat {s s' : State α} (hs : Received Q s) {output : Output α}
    (hhistory : s'.history = s.history ++ [output])
    (houtput : ∀ message, output = .fromApp message true →
      Q message ∧ message.body.isAdmin = false) : Received Q s' := by
  intro message h
  rw [hhistory, since_concat] at h
  cases h with
  | inl h => exact houtput message h.symm
  | inr h => exact hs message h.1

/-- A move hands over only what has been received. -/
theorem Move.received {s s' : State α} (h : Move engine P Q s s') (hs : Received Q s) :
    Received Q s' := by
  cases h with
  | idle _ hhistory _ =>
    intro message h
    exact hs message (hhistory ▸ h)
  | notify output h =>
    refine hs.concat rfl fun message heq => ?_
    subst heq
    cases h
  | restart now => exact hs.concat rfl (by simp)
  | advance num _ => exact hs
  | wrap num => exact hs.concat rfl (by simp)
  | refuse message _ _ _ => exact hs.concat rfl (by simp)
  | accept message hQ happ _ =>
    refine hs.concat rfl fun message' heq => ?_
    cases heq
    exact ⟨hQ, happ⟩
  | publish message sent _ _ _ _ =>
    cases sent with
    | false => exact hs
    | true => exact hs.concat rfl (by simp)
  | fillGap message _ _ => exact hs.concat rfl (by simp)
  | resend message now num _ _ _ => exact hs.concat rfl (by simp)

/-- What is accepted since the expected number last started again stands in the history. -/
theorem mem_accepted {s : State α} {message : Message α} :
    message ∈ s.accepted ↔ Since Output.isRestart s.history (.fromApp message true) := by
  have hlast : message ∈ s.accepted
      ↔ Output.fromApp message true ∈ lastEpoch Output.isRestart s.history := by
    refine List.mem_filterMap.trans ⟨?_, fun h => ⟨_, h, rfl⟩⟩
    rintro ⟨output, hmem, houtput⟩
    cases output with
    | fromApp m accepted =>
      cases accepted with
      | false => cases houtput
      | true =>
        cases houtput
        exact hmem
    | _ => cases houtput
  exact (hlast.trans mem_lastEpoch).trans (and_iff_left rfl)

/-- The accepted messages are in the order of their numbers. -/
theorem accepted_ascending {s : State α} (hs : InOrder s) :
    s.accepted.Pairwise fun message message' => message.seqNum < message'.seqNum := by
  refine List.Pairwise.filterMap _ (fun output output' h message hmessage message' hmessage' => ?_)
    hs.ascending.pairwise_lastEpoch
  cases output with
  | fromApp m accepted =>
    cases accepted with
    | false => cases hmessage
    | true =>
      cases hmessage
      cases output' with
      | fromApp m' accepted' =>
        cases accepted' with
        | false => cases hmessage'
        | true =>
          cases hmessage'
          exact h
      | _ => cases hmessage'
  | _ => cases hmessage

/-! ### The sender -/

/-- The stored application messages are in the order of their numbers. -/
theorem published_ascending {s : State α} (hs : Recorded engine s) :
    s.published.Pairwise fun message message' => message.seqNum < message'.seqNum := by
  refine List.Pairwise.filter _ ?_
  unfold MemoryStore.get
  split
  · refine List.Pairwise.filterMap _ (fun num num' h message hmessage message' hmessage' => ?_)
      (List.pairwise_lt_range' (s := 1) (n := s.expectedSenderNum - 1 + 1 - 1))
    show message.seqNum < message'.seqNum
    rw [Message.seqNum, Message.seqNum, hs.numbered num message hmessage,
      hs.numbered num' message' hmessage']
    exact h
  · exact .nil

/-- An application message of the store is published. -/
theorem mem_published {s : State α} (hs : Recorded engine s)
    (hpersist : engine.settings.persistMessages) {num : ℕ} {message : Message α}
    (hlookup : s.store.messages.lookup num = some message) (happ : message.body.isAdmin = false) :
    message ∈ s.published := by
  have hbounded := hs.bounded num (Finmap.mem_of_lookup_eq_some hlookup)
  have hfirst : 1 ∈ s.store.messages := hs.dense hpersist 1 (Nat.le_refl 1) (by omega)
  refine List.mem_filter.mpr ⟨?_, by simp [happ]⟩
  rw [MemoryStore.get, if_pos hfirst]
  refine List.mem_filterMap.mpr ⟨num, List.mem_range'_1.mpr ?_, hlookup⟩
  omega

/-- What has been sent since the last reset, whether for the first time or again, has the content
of a message that is published. -/
theorem content_mem_published {s : State α} (hs : Recorded engine s)
    (hpersist : engine.settings.persistMessages) {message : Message α}
    (hsent : Since Output.isReset s.history (.sent message))
    (happ : message.body.isAdmin = false) :
    message.content ∈ s.published.map Message.content := by
  cases hdup : message.possDup with
  | false =>
    have hlookup := hs.stored hpersist message hsent hdup
    exact List.mem_map_of_mem (mem_published hs hpersist hlookup happ)
  | true =>
    obtain ⟨original, now, hlookup, hresent⟩ := hs.resent message hsent happ hdup
    have hbody : message.body = original.body := by rw [hresent]; rfl
    rw [hresent, content_resent]
    exact List.mem_map_of_mem (mem_published hs hpersist hlookup (hbody ▸ happ))

/-! ### Both -/

/-- The order of contents is the order of their numbers. -/
theorem content_pairwise {messages : List (Message α)}
    (h : messages.Pairwise fun message message' => message.seqNum < message'.seqNum) :
    (messages.map Message.content).Pairwise fun c c' => c.1 < c'.1 :=
  List.pairwise_map.mpr h

/-- A list in ascending order that only has entries of another is a sublist of it. -/
theorem sublist_of_ascending {β : Type} {l l' : List (ℕ × β)}
    (hl : l.Pairwise fun x y => x.1 < y.1) (hl' : l'.Pairwise fun x y => x.1 < y.1)
    (hsubset : l ⊆ l') : l.Sublist l' := by
  have : Std.Antisymm fun x y : ℕ × β => x.1 < y.1 :=
    ⟨fun x y h h' => absurd h (Nat.lt_asymm h')⟩
  have hnodup : l.Nodup := hl.imp fun {x y} h heq => by
    rw [heq] at h
    exact Nat.lt_irrefl _ h
  exact List.sublist_of_subperm_of_pairwise (List.subperm_of_subset hnodup hsubset) hl hl'

/-- Two sessions after any runs. At some point of its run `receiver` has nothing in its queue and has
accepted nothing since its expected number last started again, and every application message that
it is given from then on has been sent by `sender` since the last reset of `sender`: it may have
been sent twice, arrive in another order, or not arrive. Then the messages that the application of
`receiver` has accepted since its expected number last started again are, in order and none of them
twice, among those that `sender` has given numbers since then. -/
theorem accepted_sublist_published (sender receiver : Engine α)
    (hpersist : sender.settings.persistMessages) (heartBtInt heartBtInt' : ℤ)
    (start start' : UtcTimeStamp) (inputs before inputs' : List (UtcTimeStamp × Input α))
    (hqueue : (run receiver (.new heartBtInt' start') before).queue = ∅)
    (haccepted : (run receiver (.new heartBtInt' start') before).accepted = [])
    (hsent : ∀ now message, (now, Input.next message) ∈ inputs' → message.body.isAdmin = false →
      Since Output.isReset (run sender (.new heartBtInt start) inputs).history (.sent message)) :
    ((run receiver (.new heartBtInt' start') (before ++ inputs')).accepted.map
        Message.content).Sublist
      ((run sender (.new heartBtInt start) inputs).published.map Message.content) := by
  have hrecorded := recorded_run sender heartBtInt start inputs
  generalize run sender (.new heartBtInt start) inputs = s at hsent hrecorded ⊢
  have hbefore : InOrder (run receiver (.new heartBtInt' start') before) :=
    run_preserves heartBtInt' start' (inOrder_new heartBtInt' start')
      (fun _ _ hmove => hmove.inOrder) before
  rw [run_append]
  generalize run receiver (.new heartBtInt' start') before = r₀ at hqueue haccepted hbefore ⊢
  -- What the receiver knows of a message that it was given.
  let Q : Message α → Prop := fun message =>
    message.body.isAdmin = false → Since Output.isReset s.history (.sent message)
  have hmoves : Relation.ReflTransGen (Move receiver (fun _ => True) Q) r₀
      (run receiver r₀ inputs') := by
    refine run_moves (admits_all receiver) inputs' (fun num message h => ?_)
      (fun _ _ _ _ => trivial) fun input hinput message heq => ?_
    · rw [hqueue] at h
      cases h
    · obtain ⟨now, input⟩ := input
      cases heq
      exact hsent now message hinput
  generalize run receiver r₀ inputs' = r at hmoves ⊢
  have hr : InOrder r ∧ Received Q r := by
    induction hmoves with
    | refl =>
      refine ⟨hbefore, fun message h => ?_⟩
      rw [← mem_accepted, haccepted] at h
      cases h
    | tail _ hmove ih => exact ⟨hmove.inOrder ih.1, hmove.received ih.2⟩
  refine sublist_of_ascending (content_pairwise (accepted_ascending hr.1))
    (content_pairwise (published_ascending hrecorded)) fun content hcontent => ?_
  obtain ⟨message, hmessage, rfl⟩ := List.mem_map.mp hcontent
  obtain ⟨hQ, happ⟩ := hr.2 message (mem_accepted.mp hmessage)
  exact content_mem_published hrecorded hpersist (hQ happ) happ

/-- `RIGHT` has accepted a message and is disconnected. `LEFT` starts again with a logon that resets
the numbers, and sends another message, which arrives twice. -/
theorem accepted_sublist_published_twice :
    let inputs : List (UtcTimeStamp × Input ℕ) :=
      plainRun "RIGHT" "LEFT" ++ [(⟨0⟩, .send (.new (.app "D" 7)))]
    let logon : Message ℕ := ⟨plainHeader "LEFT" "RIGHT" 1, .logon (some true) (some 30) none⟩
    let before : List (UtcTimeStamp × Input ℕ) := plainRun "LEFT" "RIGHT" ++
      [(⟨0⟩, .next ⟨plainHeader "LEFT" "RIGHT" 2, .app "D" 5⟩), (⟨0⟩, .disconnect),
        (⟨0⟩, .setResponder true), (⟨0⟩, .next logon)]
    let arrival := (⟨0⟩, Input.next ⟨plainHeader "LEFT" "RIGHT" 2, .app "D" 7⟩)
    let receiver := run (Engine.plain "RIGHT" "LEFT") (.new 30 ⟨0⟩) (before ++ [arrival, arrival])
    receiver.accepted.map Message.content = [(2, .app "D" 7)] ∧
      (receiver.accepted.map Message.content).Sublist
        ((run (Engine.plain "LEFT" "RIGHT") (.new 30 ⟨0⟩) inputs).published.map
          Message.content) := by
  intro inputs logon before arrival receiver
  refine ⟨by decide +kernel, accepted_sublist_published (Engine.plain "LEFT" "RIGHT") _ rfl 30 30
    ⟨0⟩ ⟨0⟩ inputs before [arrival, arrival] (by decide +kernel) (by decide +kernel)
    fun now message hmem happ => ?_⟩
  have hhistory : (run (Engine.plain "LEFT" "RIGHT") (.new 30 ⟨0⟩) inputs).history
      = [.sent (plainLogon "LEFT" "RIGHT"), .fromAdmin (plainLogon "RIGHT" "LEFT") true, .onLogon]
        ++ .sent ⟨plainHeader "LEFT" "RIGHT" 2, .app "D" 7⟩ :: [] := by decide +kernel
  have hmessage : message = ⟨plainHeader "LEFT" "RIGHT" 2, .app "D" 7⟩ := by
    have hmem' : now = ⟨0⟩ ∧ message = ⟨plainHeader "LEFT" "RIGHT" 2, .app "D" 7⟩ := by
      simpa [arrival] using hmem
    exact hmem'.2
  rw [hmessage, hhistory]
  exact ⟨_, [], rfl, by simp⟩

end Harjus.Session
