import Harjus.Parser
import Harjus.Lib.Machine

/-!
# `Harjus.Connection`: what a connection passes to its session

`FstackMicroThreadedSSLSocketConnection` (`flashfix/src/FstackMicroThreadedSSLSocketConnection.cpp`)
reads bytes from its socket into a `Parser`, and passes what it reads from the parser to
`Session::next`. The session is set.

The session is a parameter with a state of its own. `Connection.machine` reads from the socket
once per step, and a run ends where the connection does. Its outputs are the calls of
`readFixMessage` and of `Session::next`.
-/

set_option autoImplicit false

namespace Harjus.FIX

open Harjus.Lib

/-- How `Session::next` ends. -/
inductive NextResult where
  | returned
  | invalidMessage
  | otherException
  deriving DecidableEq, Repr

/-- `Session`, with a state `σ`. `disconnected` is `m_disconnect` of the connection, which the
session sets as it disconnects its responder. -/
structure Session (σ : Type) where
  next : σ → List Char → σ × NextResult
  nextTimeStamp : σ → σ
  isLoggedOn : σ → Bool
  disconnected : σ → Bool

/-- What the socket gives: nothing for a while, or bytes. -/
inductive Received where
  | timeout
  | bytes (chunk : List Char)
  deriving DecidableEq, Repr

/-- A call that a connection makes. -/
inductive Event where
  | readFixMessage (parser : Parser)
  | next (message : List Char)
  deriving DecidableEq, Repr

/-- The connection is closed. -/
inductive ConnectionClosed where
  | closed
  deriving DecidableEq, Repr

/-- `FstackMicroThreadedSSLSocketConnection`, with the state of its session. -/
structure Connection (σ : Type) where
  parser : Parser
  session : σ
  deriving DecidableEq, Repr

namespace Parser

/-- `readMessage`, on the parser and `message`. -/
def readMessage (parser : Parser) (message : List Char) : Parser × List Char × Bool :=
  match parser.readFixMessage with
  | (parser', .ok (some str)) => (parser', str, true)
  | (parser', .ok none) => (parser', message, false)
  -- `MessageParseError` is caught and nothing is done about it
  | (parser', .error _) => (parser', message, true)

variable {parser parser' : Parser} {message message' : List Char}

/-- `readMessage` returns `false` where the parser asks for more bytes. -/
theorem of_readMessage_false (h : parser.readMessage message = (parser', message', false)) :
    parser.readFixMessage = (parser', .ok none) := by
  unfold readMessage at h
  split at h
  · cases h
  · rename_i hread
    cases h
    exact hread
  · cases h

/-- `readMessage` returns `true` with a frame, or after a call that throws with the message that
it had. -/
theorem of_readMessage_true (h : parser.readMessage message = (parser', message', true)) :
    (∃ e, parser.readFixMessage = (parser', .error e) ∧ message' = message) ∨
      parser.readFixMessage = (parser', .ok (some message')) := by
  unfold readMessage at h
  split at h
  · rename_i hread
    cases h
    exact Or.inr hread
  · cases h
  · rename_i e hread
    cases h
    exact Or.inl ⟨e, hread, rfl⟩

/-- The parser has fewer bytes after `readMessage` returns `true`. -/
theorem length_readMessage_lt (h : parser.readMessage message = (parser', message', true)) :
    parser'.buffer.length < parser.buffer.length := by
  rcases of_readMessage_true h with ⟨e, hread, -⟩ | hread
  · exact length_readFixMessage_lt hread (by simp)
  · exact length_readFixMessage_lt hread (by simp)

end Parser

namespace Connection

variable {σ : Type} (session : Session σ)

/-- The loop of `processStream`, with its `message`. -/
def processStream (parser : Parser) (state : σ) (message : List Char) :
    Except ConnectionClosed (Connection σ × List Event) :=
  match _hread : parser.readMessage message with
  | (parser', _, false) => .ok (⟨parser', state⟩, [.readFixMessage parser])
  | (parser', message', true) =>
    let (state', result) := session.next state message'
    if result = .otherException then .error .closed
    else if result = .invalidMessage ∧ ¬ session.isLoggedOn state' then .error .closed
    else
      match processStream parser' state' message' with
      | .error e => .error e
      | .ok (connection, events) =>
        .ok (connection, .readFixMessage parser :: .next message' :: events)
  termination_by parser.buffer.length
  decreasing_by exact Parser.length_readMessage_lt _hread

/-- `read`. -/
def read (connection : Connection σ) :
    Received → Except ConnectionClosed (Connection σ × List Event)
  | .timeout => .ok ({ connection with session := session.nextTimeStamp connection.session }, [])
  | .bytes chunk =>
    match processStream session (connection.parser.addToStream chunk) connection.session [] with
    | .error e => .error e
    | .ok (connection, events) =>
      if session.disconnected connection.session then .error .closed else .ok (connection, events)

/-- The connection as a machine over what the socket gives. -/
def machine : Machine (Connection σ) Received Event ConnectionClosed := ⟨read session⟩

end Connection

end Harjus.FIX
