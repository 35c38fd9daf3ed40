import Harjus.Connection

/-!
# `Harjus.Proofs.Connection`: what the session gets of a stream

`readMessage` returns `true` after a `MessageParseError`, with the message that it had before. So
each failed call passes a message to the session once more, the empty one if there was none.

* `balanced_processStream`: the loop passes one message for each call that does not ask for more
  bytes.
* `delivered_eq_frames_iff`: the session gets the frames, each once and in order, exactly when no
  call throws.
-/

set_option autoImplicit false

namespace Harjus.FIX

open Harjus.Lib

namespace Event

/-- The frame of a successful call of `readFixMessage`. -/
def frame : Event → Option (List Char)
  | .readFixMessage parser => parser.readFixMessage.2.toOption.join
  | .next _ => none

/-- The message of a call of `Session::next`. -/
def message : Event → Option (List Char)
  | .readFixMessage _ => none
  | .next message => some message

/-- The parser of a call of `readFixMessage` that throws. -/
def failure : Event → Option Parser
  | .readFixMessage parser =>
    match parser.readFixMessage.2 with
    | .ok _ => none
    | .error _ => some parser
  | .next _ => none

variable {parser parser' : Parser}

/-- A call that returns has a frame if it reads one, and is no failure. -/
theorem of_ok {str : Option (List Char)} (h : parser.readFixMessage = (parser', .ok str)) :
    frame (.readFixMessage parser) = str ∧ failure (.readFixMessage parser) = none := by
  rw [frame, failure, h]
  exact ⟨rfl, rfl⟩

/-- A call that throws has no frame, and is a failure. -/
theorem of_error {e : MessageParseError} (h : parser.readFixMessage = (parser', .error e)) :
    frame (.readFixMessage parser) = none ∧ failure (.readFixMessage parser) = some parser := by
  rw [frame, failure, h]
  exact ⟨rfl, rfl⟩

end Event

/-- The frames that the successful calls of `readFixMessage` return. -/
def frames (events : List Event) : List (List Char) := events.filterMap Event.frame

/-- The messages that are passed to `Session::next`. -/
def delivered (events : List Event) : List (List Char) := events.filterMap Event.message

/-- The parsers whose calls of `readFixMessage` throw. -/
def failures (events : List Event) : List Parser := events.filterMap Event.failure

/-- Each frame and each failure is passed on, the frames alone as they are. -/
structure Balanced (events : List Event) : Prop where
  length_eq : (delivered events).length = (frames events).length + (failures events).length
  eq_of_nil : failures events = [] → delivered events = frames events

namespace Balanced

/-- Nothing has been read and nothing passed on. -/
theorem nil : Balanced [] := ⟨rfl, fun _ => rfl⟩

/-- Balanced events in a row are balanced. -/
theorem append {events events' : List Event} (h : Balanced events) (h' : Balanced events') :
    Balanced (events ++ events') where
  length_eq := by
    have hlength := h.length_eq
    have hlength' := h'.length_eq
    simp only [delivered, frames, failures, List.filterMap_append, List.length_append]
      at hlength hlength' ⊢
    omega
  eq_of_nil hnil := by
    rw [failures, List.filterMap_append, List.append_eq_nil_iff] at hnil
    rw [delivered, frames, List.filterMap_append, List.filterMap_append]
    exact congrArg₂ _ (h.eq_of_nil hnil.1) (h'.eq_of_nil hnil.2)

/-- What is passed on is the frames exactly when there is no failure. -/
theorem eq_iff {events : List Event} (h : Balanced events) :
    delivered events = frames events ↔ failures events = [] := by
  constructor
  · intro heq
    have hlength := h.length_eq
    rw [heq] at hlength
    exact List.eq_nil_of_length_eq_zero (by omega)
  · exact h.eq_of_nil

end Balanced

/-- A call of `readFixMessage` throws exactly at a malformed length. -/
theorem failures_eq_nil_iff {events : List Event} :
    failures events = [] ↔ ∀ parser, .readFixMessage parser ∈ events → ¬ parser.Malformed := by
  rw [failures, List.filterMap_eq_nil_iff]
  constructor
  · intro h parser hmem hmalformed
    have hfailure := h _ hmem
    rcases parser.readFixMessage_cases with ⟨-, hread⟩ | ⟨hnot, -⟩
    · rw [(Event.of_error hread).2] at hfailure
      cases hfailure
    · exact hnot hmalformed
  · intro h event hmem
    cases event with
    | next message => rfl
    | readFixMessage parser =>
      rcases parser.readFixMessage_cases with
        ⟨hmalformed, -⟩ | ⟨-, ⟨n, hread⟩ | ⟨-, n, str, hread⟩⟩
      · exact absurd hmalformed (h parser hmem)
      · exact (Event.of_ok hread).2
      · exact (Event.of_ok hread).2

namespace Connection

variable {σ : Type} (session : Session σ)

/-- A call that asks for more bytes. -/
theorem balanced_more {parser parser' : Parser} {message message' : List Char}
    (h : parser.readMessage message = (parser', message', false)) :
    Balanced [.readFixMessage parser] := by
  have hread := Parser.of_readMessage_false h
  have hframes : frames [.readFixMessage parser] = [] :=
    List.filterMap_cons_none (Event.of_ok hread).1
  have hfailures : failures [.readFixMessage parser] = [] :=
    List.filterMap_cons_none (Event.of_ok hread).2
  exact ⟨by rw [hframes, hfailures]; rfl, fun _ => by rw [hframes]; rfl⟩

/-- A call that returns a message or throws, and what is passed on. -/
theorem balanced_passed {parser parser' : Parser} {message message' : List Char}
    (h : parser.readMessage message = (parser', message', true)) :
    Balanced [.readFixMessage parser, .next message'] := by
  rcases Parser.of_readMessage_true h with ⟨e, hread, -⟩ | hread
  · have hframes : frames [.readFixMessage parser, .next message'] = [] :=
      List.filterMap_cons_none (Event.of_error hread).1
    have hfailures : failures [.readFixMessage parser, .next message'] = [parser] :=
      List.filterMap_cons_some (Event.of_error hread).2
    refine ⟨by rw [hframes, hfailures]; rfl, fun hnil => ?_⟩
    rw [hfailures] at hnil
    cases hnil
  · have hframes : frames [.readFixMessage parser, .next message'] = [message'] :=
      List.filterMap_cons_some (Event.of_ok hread).1
    have hfailures : failures [.readFixMessage parser, .next message'] = [] :=
      List.filterMap_cons_none (Event.of_ok hread).2
    exact ⟨by rw [hframes, hfailures]; rfl, fun _ => by rw [hframes]; rfl⟩

/-- The loop passes one message for each call that does not ask for more bytes. -/
theorem balanced_processStream {parser : Parser} {state : σ} {message : List Char}
    {connection : Connection σ} {events : List Event}
    (h : processStream session parser state message = .ok (connection, events)) :
    Balanced events := by
  fun_induction processStream session parser state message generalizing connection events with
  | case1 parser state message parser' message' hread =>
    cases h
    exact balanced_more hread
  | case2 => cases h
  | case3 => cases h
  | case4 => cases h
  | case5 parser state message parser' message' hread state' result hnext hcaught hlogged
      connection' events' hrest ih =>
    cases h
    exact (balanced_passed hread).append (ih hrest)

/-- What the socket gives is passed on in balance. -/
theorem balanced_read {connection connection' : Connection σ} {received : Received}
    {events : List Event}
    (h : read session connection received = .ok (connection', events)) : Balanced events := by
  cases received with
  | timeout =>
    cases h
    exact .nil
  | bytes chunk =>
    rw [read] at h
    split at h
    · cases h
    · rename_i hprocess
      split at h
      · cases h
      · cases h
        exact balanced_processStream session hprocess

/-- For every stream of bytes, cut into chunks in any way, the session gets the frames that
`readFixMessage` returns, each once and in order, exactly when no call throws. -/
theorem delivered_eq_frames_iff (connection : Connection σ) (received : List Received)
    {connection' : Connection σ} {events : List Event}
    (hrun : (machine session).run connection received = .ok (connection', events)) :
    delivered events = frames events ↔
      ∀ parser, .readFixMessage parser ∈ events → ¬ parser.Malformed := by
  have hbalanced : Balanced ([] ++ events) :=
    Machine.run_tracks (T := fun _ events => Balanced events)
      (fun _ _ _ _ _ h hstep => h.append (balanced_read session hstep)) .nil hrun
  rw [List.nil_append] at hbalanced
  rw [hbalanced.eq_iff, failures_eq_nil_iff]

/-! ### Two streams -/

/-- The loop ends where `readMessage` asks for more bytes. -/
theorem processStream_more {parser parser' : Parser} {state : σ} {message message' : List Char}
    (h : parser.readMessage message = (parser', message', false)) :
    processStream session parser state message
      = .ok (⟨parser', state⟩, [.readFixMessage parser]) := by
  rw [processStream]
  split
  · rename_i hread
    cases h.symm.trans hread
    rfl
  · rename_i hread
    cases h.symm.trans hread

/-- The loop goes on where `Session::next` returns. -/
theorem processStream_next {parser parser' : Parser} {state state' : σ}
    {message message' : List Char} {connection : Connection σ} {events : List Event}
    (h : parser.readMessage message = (parser', message', true))
    (hnext : session.next state message' = (state', .returned))
    (hrest : processStream session parser' state' message' = .ok (connection, events)) :
    processStream session parser state message
      = .ok (connection, .readFixMessage parser :: .next message' :: events) := by
  rw [processStream]
  split
  · rename_i hread
    cases h.symm.trans hread
  · rename_i hread
    cases h.symm.trans hread
    simp only [hnext, hrest]
    rfl

/-- A chunk that the loop reads to its end. -/
theorem read_bytes {connection connection' : Connection σ} {chunk : List Char}
    {events : List Event}
    (h : processStream session (connection.parser.addToStream chunk) connection.session []
      = .ok (connection', events))
    (hopen : session.disconnected connection'.session = false) :
    read session connection (.bytes chunk) = .ok (connection', events) := by
  rw [read]
  simp only [h]
  rw [hopen]
  rfl

/-- A session that takes every message. -/
def acceptingSession : Session Unit where
  next state _ := (state, .returned)
  nextTimeStamp state := state
  isLoggedOn _ := true
  disconnected _ := false

/-- A heartbeat. -/
def heartbeat : List Char := "8=FIX.4.4\x019=5\x0135=0\x0110=163\x01".toList

/-- The start of a message whose body length is no number. -/
def badLength : List Char := "8=FIX.4.4\x019=abc\x01".toList

/-- An empty buffer. -/
private theorem processStream_empty (message : List Char) :
    processStream acceptingSession ⟨[]⟩ () message
      = .ok (⟨⟨[]⟩, ()⟩, [.readFixMessage ⟨[]⟩]) :=
  processStream_more acceptingSession
    (show Parser.readMessage ⟨[]⟩ message = (⟨[]⟩, message, false) from rfl)

/-- A heartbeat in two chunks, with a pause between them, is passed on once. -/
theorem delivered_eq_frames_iff_heartbeat :
    ∃ connection events,
      (machine acceptingSession).run ⟨⟨[]⟩, ()⟩
        [.bytes (heartbeat.take 7), .timeout, .bytes (heartbeat.drop 7)]
        = .ok (connection, events) ∧
      delivered events = frames events ∧ delivered events = [heartbeat] := by
  have hfirst : read acceptingSession ⟨⟨[]⟩, ()⟩ (.bytes (heartbeat.take 7))
      = .ok (⟨⟨heartbeat.take 7⟩, ()⟩, [.readFixMessage ⟨heartbeat.take 7⟩]) :=
    read_bytes _ (processStream_more _ (show _ = (_, [], _) by decide)) rfl
  have hsecond : read acceptingSession ⟨⟨heartbeat.take 7⟩, ()⟩ (.bytes (heartbeat.drop 7))
      = .ok (⟨⟨[]⟩, ()⟩, [.readFixMessage ⟨heartbeat⟩, .next heartbeat, .readFixMessage ⟨[]⟩]) :=
    read_bytes _ (processStream_next _ (by decide) rfl (processStream_empty heartbeat)) rfl
  have hrun : (machine acceptingSession).run ⟨⟨[]⟩, ()⟩
      [.bytes (heartbeat.take 7), .timeout, .bytes (heartbeat.drop 7)]
        = .ok (⟨⟨[]⟩, ()⟩, [.readFixMessage ⟨heartbeat.take 7⟩] ++ ([] ++ ([.readFixMessage
          ⟨heartbeat⟩, .next heartbeat, .readFixMessage ⟨[]⟩] ++ []))) :=
    (Machine.run_cons _).mpr ⟨_, _, _, hfirst,
      (Machine.run_cons _).mpr ⟨_, _, _, rfl,
        (Machine.run_cons _).mpr ⟨_, _, _, hsecond, rfl, rfl⟩, rfl⟩, rfl⟩
  refine ⟨_, _, hrun, (delivered_eq_frames_iff acceptingSession _ _ hrun).mpr ?_, by decide⟩
  -- No reading of the buffer throws.
  have hok : ∀ buffer ∈ [heartbeat.take 7, heartbeat, []],
      (Parser.readFixMessage ⟨buffer⟩).2 ≠ .error .messageParseError := by decide
  have hnot : ∀ buffer ∈ [heartbeat.take 7, heartbeat, []], ¬ Parser.Malformed ⟨buffer⟩ := by
    intro buffer hbuffer hmalformed
    rcases Parser.readFixMessage_cases ⟨buffer⟩ with ⟨-, herror⟩ | ⟨hwell, -⟩
    · exact hok buffer hbuffer (by rw [herror])
    · exact hwell hmalformed
  rintro ⟨buffer⟩ hread
  exact hnot buffer (by simpa using hread)

/-- A message with a malformed length after a heartbeat: the heartbeat is passed on twice. -/
theorem heartbeat_delivered_twice :
    ∃ connection events,
      (machine acceptingSession).run ⟨⟨[]⟩, ()⟩ [.bytes (heartbeat ++ badLength)]
        = .ok (connection, events) ∧
      frames events = [heartbeat] ∧ delivered events = [heartbeat, heartbeat] := by
  have hfailure : processStream acceptingSession ⟨badLength⟩ () heartbeat
      = .ok (⟨⟨[]⟩, ()⟩, [.readFixMessage ⟨badLength⟩, .next heartbeat, .readFixMessage ⟨[]⟩]) :=
    processStream_next acceptingSession (by decide) rfl (processStream_empty heartbeat)
  have hread : read acceptingSession ⟨⟨[]⟩, ()⟩ (.bytes (heartbeat ++ badLength))
      = .ok (⟨⟨[]⟩, ()⟩, [.readFixMessage ⟨heartbeat ++ badLength⟩, .next heartbeat,
          .readFixMessage ⟨badLength⟩, .next heartbeat, .readFixMessage ⟨[]⟩]) :=
    read_bytes _ (processStream_next acceptingSession (by decide) rfl hfailure) rfl
  refine ⟨_, _, (Machine.run_cons _).mpr ⟨_, _, _, hread, rfl, rfl⟩, ?_, ?_⟩
  · decide
  · decide

end Connection

end Harjus.FIX
