import Harjus.Proofs.Wire.RoundTrip

/-!
# `Harjus.Proofs.Wire.Transfer`: from the sender's messages to the receiver's session

The sender writes messages with `toString`, the bytes come in any chunks, the connection cuts them
into texts, and `setString` reads each text.

* `received_eq_messages`: the session reads each message once, in order and as it was sent.
-/

set_option autoImplicit false

namespace Harjus.FIX

open Harjus.Lib
open Harjus.Wire (Message DataDictionary DecodeError FieldMap FieldBase)

namespace Connection

/-- The texts of sound messages are frames. -/
theorem framed_toString {messages : List Message} (h : ∀ message ∈ messages, message.Sound) :
    Framed IsFrame (messages.map Message.toString) [] (messages.map Message.toString).flatten where
  isFrame := by
    intro frame hframe
    obtain ⟨message, hmessage, rfl⟩ := List.mem_map.mp hframe
    exact Message.isFrame_toString (h message hmessage)
  isPart := cuts_readFixMessage.part_nil isFrame_shortFrame
  eq := (List.append_nil _).symm

/-- The bytes of some messages are received in whichever chunks. As long as the connection is open,
its session is given texts that are read as the messages, each once and in order, and nothing is
left in the parser. -/
theorem received_eq_messages {σ : Type} (session : Session σ) (messages : List Message)
    {dictionary : DataDictionary} (hsound : ∀ message ∈ messages, message.Sound)
    (hfits : ∀ message ∈ messages, ∃ msgType, message.complete.Fits dictionary msgType) (state : σ)
    (received : List Received)
    (hbytes : (received.map Received.chunk).flatten = (messages.map Message.toString).flatten)
    {connection : Connection σ} {events : List Event}
    (hrun : (machine session).run ⟨⟨[]⟩, state⟩ received = .ok (connection, events)) :
    ((delivered events).map fun string =>
        Message.setString string true (some dictionary) (some dictionary))
      = (messages.map fun message => .ok message.complete.calculate) ∧
      connection.parser = ⟨[]⟩ := by
  have hframed : Framed IsFrame (messages.map Message.toString) []
      (received.map Received.chunk).flatten := by
    rw [hbytes]
    exact framed_toString hsound
  have hempty : Part IsFrame (⟨⟨[]⟩, state⟩ : Connection σ).parser.buffer := hframed.isPart
  obtain ⟨hdelivered, hparser⟩ := run_framed session hempty hframed hrun
  refine ⟨?_, hparser⟩
  rw [hdelivered, List.map_map]
  refine List.map_congr_left fun message hmessage => ?_
  obtain ⟨msgType, hmessageFits⟩ := hfits message hmessage
  have hmessageSound := hsound message hmessage
  exact Message.setString_text
    (Message.validate_complete hmessageSound.sorted hmessageSound.bounded.length) hmessageFits

/-! ### A message in two chunks -/

/-- The bytes of the message, twice. -/
def orderChunks : List Received :=
  [.bytes (Message.orderList.toString.take 20), .timeout,
    .bytes (Message.orderList.toString.drop 20 ++ Message.orderList.toString)]

/-- The message is sent twice, in two chunks with a pause between them. -/
theorem received_eq_messages_twice : ∃ connection events,
    (machine acceptingSession).run ⟨⟨[]⟩, ()⟩ orderChunks = .ok (connection, events) ∧
      ((delivered events).map fun string => Message.setString string true
          (some Message.orderDictionary) (some Message.orderDictionary))
        = [.ok Message.orderList.complete.calculate, .ok Message.orderList.complete.calculate] ∧
      connection.parser = ⟨[]⟩ := by
  have hnext : ∀ state message, (acceptingSession.next state message).2 = .returned :=
    fun _ _ => rfl
  obtain ⟨connection, events, hrun⟩ :=
    run_of_accepts hnext (fun _ => rfl) ⟨⟨[]⟩, ()⟩ orderChunks
  have hsame : ∀ message ∈ [Message.orderList, Message.orderList], message = Message.orderList := by
    simp
  refine ⟨connection, events, hrun, received_eq_messages acceptingSession
    [Message.orderList, Message.orderList] (fun message hmessage => ?_)
    (fun message hmessage => ⟨['E'], ?_⟩) () orderChunks ?_ hrun⟩
  · rw [hsame message hmessage]
    exact Message.sound_orderList
  · rw [hsame message hmessage]
    exact Message.fits_orderList
  · simp only [orderChunks, List.map_cons, List.map_nil, Received.chunk, List.flatten_cons,
      List.flatten_nil, List.nil_append, List.append_nil]
    rw [← List.append_assoc, List.take_append_drop]

end Connection

end Harjus.FIX
