import Harjus.Lib.Framing
import Harjus.Proofs.Connection
import Harjus.Proofs.Wire.Integers

/-!
# `Harjus.Proofs.Wire.Framing`: a connection finds the messages in its bytes

`Parser` cuts a stream of bytes where the body lengths of the messages say.

* `cuts_readFixMessage`: it takes each frame off the front, whatever follows, and waits on every part
  of a frame. A frame may contain any bytes, among them the ends of fields and `10=`.
* `run_of_accepts`: a session that takes every message keeps its connection open.
* `delivered_eq_frames`: whichever chunks the bytes of some frames come in, the session is given
  each frame once and in order, and the parser keeps the part of the next one.
-/

set_option autoImplicit false

namespace Harjus.FIX

open Harjus.Lib
open Harjus.Wire (integerToString)

/-! ### Searching -/

section Find
variable {pattern s : List Char} {pos i : ℕ}

/-- `find` is the first position of the pattern. -/
theorem find_eq_some_iff (hpattern : pattern ≠ []) :
    find pattern s pos = some i ↔
      pos ≤ i ∧ pattern <+: s.drop i ∧ ∀ j, pos ≤ j → j < i → ¬ pattern <+: s.drop j := by
  rw [find, Option.map_eq_some_iff]
  simp only [List.findIdx?_eq_some_iff_getElem, List.getElem_tails, List.isPrefixOf_iff_prefix,
    List.drop_drop, List.length_tails, List.length_drop]
  constructor
  · rintro ⟨n, ⟨_, hbefore, hfirst⟩, rfl⟩
    refine ⟨Nat.le_add_right pos n, hbefore, fun j hle hlt => ?_⟩
    have hnot := hfirst (j - pos) (by omega)
    rwa [Nat.add_sub_cancel' hle] at hnot
  · rintro ⟨hle, hbefore, hfirst⟩
    have hlength : i < s.length := by
      by_contra hge
      rw [List.drop_eq_nil_of_le (by omega)] at hbefore
      exact hpattern (List.prefix_nil.mp hbefore)
    refine ⟨i - pos, ⟨by omega, ?_, fun j hj => hfirst (pos + j) (by omega) (by omega)⟩, by omega⟩
    rwa [Nat.add_sub_cancel' hle]

/-- The pattern may stand right at the position. -/
theorem find_here (hpattern : pattern ≠ []) (h : pattern <+: s.drop pos) :
    find pattern s pos = some pos :=
  (find_eq_some_iff hpattern).mpr ⟨le_refl pos, h, fun j hle hlt => absurd hle (by omega)⟩

/-- A pattern is found where its first character first stands. -/
theorem find_after {c : Char} {a b : List Char} (h : s.drop pos = a ++ (c :: pattern) ++ b)
    (hc : c ∉ a) : find (c :: pattern) s pos = some (pos + a.length) := by
  have hdrop : ∀ n ≤ a.length, s.drop (pos + n) = a.drop n ++ ((c :: pattern) ++ b) := by
    intro n hn
    rw [← List.drop_drop, h, List.append_assoc, List.drop_append_of_le_length hn]
  refine (find_eq_some_iff (List.cons_ne_nil c pattern)).mpr ⟨Nat.le_add_right _ _, ?_, ?_⟩
  · rw [hdrop a.length (le_refl _), List.drop_length, List.nil_append]
    exact List.prefix_append _ _
  · intro j hle hlt hbefore
    have hj := hdrop (j - pos) (by omega)
    rw [Nat.add_sub_cancel' hle] at hj
    rw [hj] at hbefore
    have hne : a.drop (j - pos) ≠ [] := by
      rw [Ne, List.drop_eq_nil_iff]
      omega
    obtain ⟨d, rest, hcons⟩ := List.exists_cons_of_ne_nil hne
    rw [hcons, List.cons_append] at hbefore
    have hhead : c = d := (List.cons_prefix_cons.mp hbefore).1
    have hmem : d ∈ a.drop (j - pos) := by
      rw [hcons]
      exact List.mem_cons_self
    exact hc (hhead ▸ List.mem_of_mem_drop hmem)

/-- What is found in a part is found in the whole. -/
theorem find_of_prefix (hpattern : pattern ≠ []) {before : List Char} (hbefore : before <+: s)
    (h : find pattern before pos = some i) : find pattern s pos = some i := by
  obtain ⟨hle, hhere, hfirst⟩ := (find_eq_some_iff hpattern).mp h
  refine (find_eq_some_iff hpattern).mpr ⟨hle, hhere.trans (hbefore.drop i), fun j hj hlt hin => ?_⟩
  have hlength := hhere.length_le
  rw [List.length_drop] at hlength
  have hlonger : pattern <+: before.drop j :=
    List.prefix_of_prefix_length_le hin (hbefore.drop j) (by rw [List.length_drop]; omega)
  exact hfirst j hj hlt hlonger

/-- What is found is inside the text. -/
theorem length_of_find (hpattern : pattern ≠ []) (h : find pattern s pos = some i) :
    i + pattern.length ≤ s.length := by
  obtain ⟨-, hhere, -⟩ := (find_eq_some_iff hpattern).mp h
  have hlength := hhere.length_le
  have hpos := List.length_pos_of_ne_nil hpattern
  rw [List.length_drop] at hlength
  omega

end Find

/-! ### Frames -/

/-- The tag of the begin string, as bytes. -/
theorem toList_beginString : "8=".toList = ['8', '='] := rfl

/-- The tag of the body length, as bytes. -/
theorem toList_bodyLength : "9=".toList = ['9', '='] := rfl

/-- The tag of the checksum, as bytes. -/
theorem toList_checkSum : "10=".toList = ['1', '0', '='] := rfl

/-- The parts of a message that the parser looks at: the value of `BeginString`, the fields that the
body length counts, and the value of `CheckSum`. -/
structure Frame where
  beginString : List Char
  content : List Char
  checkSum : List Char

namespace Frame

/-- The text of the message. -/
def text (frame : Frame) : List Char :=
  (['8', '='] ++ frame.beginString) ++ (SOH :: ['9', '=']) ++
    integerToString frame.content.length ++ SOH :: frame.content ++ ['1', '0', '='] ++
    frame.checkSum ++ [SOH]

/-- The first and the last value are those of a field, the content is a sequence of fields, and its
length is an `int`. -/
structure Valid (frame : Frame) : Prop where
  beginString : SOH ∉ frame.beginString
  content : ∃ fields, SOH :: frame.content = fields ++ [SOH]
  length : frame.content.length ≤ IntConvertor.VALUE_MAX
  checkSum : SOH ∉ frame.checkSum

/-- The number of bytes up to `10=`. -/
def bodyEnd (frame : Frame) : ℕ :=
  (['8', '='] ++ frame.beginString).length + 3 + (integerToString frame.content.length).length + 1 +
    frame.content.length

/-- The length of a frame, from where its body ends. -/
theorem length_text (frame : Frame) :
    frame.text.length = frame.bodyEnd + 3 + frame.checkSum.length + 1 := by
  simp only [text, bodyEnd, List.length_append, List.length_cons, List.length_nil]
  omega

/-- The text starts with `8=`. -/
theorem prefix_text (frame : Frame) (rest : List Char) : ['8', '='] <+: frame.text ++ rest := by
  simp only [text, List.append_assoc]
  exact List.prefix_append _ _

end Frame

/-- The text of a valid frame. -/
def IsFrame (text : List Char) : Prop := ∃ frame : Frame, frame.Valid ∧ frame.text = text

section Whole
variable {frame : Frame} (h : frame.Valid) (rest : List Char)
include h

/-- The body length of a frame, and where its content starts. -/
theorem extractLength_frame :
    Parser.extractLength (frame.text ++ rest)
      = .ok (some ((frame.content.length : ℤ), frame.bodyEnd - frame.content.length)) := by
  set start := ['8', '='] ++ frame.beginString with hstart
  set digits := integerToString frame.content.length with hdigits
  set tail := frame.content ++ ['1', '0', '='] ++ frame.checkSum ++ [SOH] ++ rest with htail
  have htext : frame.text ++ rest = start ++ (SOH :: ['9', '=']) ++ (digits ++ SOH :: tail) := by
    simp only [Frame.text, hstart, hdigits, htail, List.append_assoc, List.cons_append]
  -- The first separator of the text ends BeginString, so the first length is the frame's own.
  have hsoh : SOH ∉ start := by
    intro hmem
    rcases List.mem_append.mp hmem with hmem | hmem
    · exact absurd hmem (by decide)
    · exact h.beginString hmem
  have hfind : find (SOH :: ['9', '=']) (frame.text ++ rest) 0 = some start.length := by
    have hafter : find (SOH :: ['9', '=']) (frame.text ++ rest) 0 = some (0 + start.length) :=
      find_after (by rw [List.drop_zero]; exact htext) hsoh
    rwa [Nat.zero_add] at hafter
  have hdrop : (frame.text ++ rest).drop (start.length + 3) = digits ++ SOH :: tail := by
    have hthree : (start ++ (SOH :: ['9', '='])).length = start.length + 3 := List.length_append
    rw [htext, ← hthree]
    exact List.drop_left
  have hend : find [SOH] (frame.text ++ rest) (start.length + 3)
      = some (start.length + 3 + digits.length) :=
    find_after (by rw [hdrop, List.append_assoc]; rfl) (Wire.soh_notMem_integerToString _)
  have hlength : IntConvertor.convert digits = some (frame.content.length : ℤ) := by
    have hmax := h.length
    exact Wire.convert_integerToString (by omega) (by omega)
  rw [Parser.extractLength, toList_bodyLength, hfind]
  simp only [hend, hdrop, Nat.add_sub_cancel_left, List.take_left, hlength]
  rw [if_neg (by omega)]
  have hbodyEnd : frame.bodyEnd = start.length + 3 + digits.length + 1 + frame.content.length := rfl
  rw [hbodyEnd, Nat.add_sub_cancel]

/-- What stands in front of `10=`. -/
theorem drop_bodyEnd : ∃ before, frame.text ++ rest
      = before ++ (SOH :: ['1', '0', '=']) ++ (frame.checkSum ++ SOH :: rest) ∧
    before.length + 1 = frame.bodyEnd := by
  obtain ⟨fields, hfields⟩ := h.content
  refine ⟨(['8', '='] ++ frame.beginString) ++ (SOH :: ['9', '=']) ++
    integerToString frame.content.length ++ fields, ?_, ?_⟩
  · have htext : frame.text ++ rest = (['8', '='] ++ frame.beginString) ++ (SOH :: ['9', '=']) ++
        integerToString frame.content.length ++ (SOH :: frame.content) ++
        (['1', '0', '='] ++ (frame.checkSum ++ SOH :: rest)) := by
      simp only [Frame.text, List.append_assoc, List.cons_append, List.nil_append]
    rw [htext, hfields]
    simp only [List.append_assoc, List.cons_append, List.nil_append]
  · have hlength := congrArg List.length hfields
    simp only [List.length_append, List.length_cons, List.length_nil] at hlength
    simp only [Frame.bodyEnd, List.length_append, List.length_cons, List.length_nil]
    omega

/-- The checksum field of a frame is found where its body ends. -/
theorem find_checkSum :
    find (SOH :: ['1', '0', '=']) (frame.text ++ rest) (frame.bodyEnd - 1)
      = some (frame.bodyEnd - 1) := by
  obtain ⟨before, htext, hlength⟩ := drop_bodyEnd h rest
  refine find_here (List.cons_ne_nil _ _) ?_
  rw [htext, List.append_assoc, show frame.bodyEnd - 1 = before.length by omega, List.drop_left]
  exact List.prefix_append _ _

/-- The end of the checksum field is the end of the frame. -/
theorem find_end :
    find [SOH] (frame.text ++ rest) (frame.bodyEnd - 1 + 4) = some (frame.text.length - 1) := by
  obtain ⟨before, htext, hlength⟩ := drop_bodyEnd h rest
  have hdrop : (frame.text ++ rest).drop (frame.bodyEnd - 1 + 4)
      = frame.checkSum ++ [SOH] ++ rest := by
    have hfour : (before ++ (SOH :: ['1', '0', '='])).length = before.length + 4 :=
      List.length_append
    rw [htext, show frame.bodyEnd - 1 + 4 = before.length + 4 by omega, ← hfour, List.drop_left,
      List.append_assoc]
    rfl
  rw [find_after hdrop h.checkSum, frame.length_text]
  congr 1
  omega

/-- `readFixMessage` takes a frame off the front of its buffer. -/
theorem readFixMessage_frame :
    Parser.readFixMessage ⟨frame.text ++ rest⟩ = (⟨rest⟩, .ok (some frame.text)) := by
  have hlength := frame.length_text
  have hbodyEnd : frame.content.length ≤ frame.bodyEnd := Nat.le_add_left _ _
  have hfirst : find ['8', '='] (frame.text ++ rest) 0 = some 0 := by
    exact find_here (List.cons_ne_nil _ _) (frame.prefix_text rest)
  rw [Parser.readFixMessage, if_neg (by simp only [List.length_append]; omega),
    toList_beginString, toList_checkSum]
  simp only [hfirst, List.drop_zero, extractLength_frame h rest]
  rw [Int.toNat_natCast, Nat.sub_add_cancel hbodyEnd,
    if_neg (by simp only [List.length_append]; omega)]
  simp only [find_checkSum h rest, find_end h rest]
  rw [Nat.sub_add_cancel (by omega), List.drop_left, List.take_left]

end Whole

/-- A result of `extractLength` on a part is the result on the whole. -/
theorem extractLength_of_prefix {before buffer : List Char} (hbefore : before <+: buffer)
    {length : ℤ} {pos : ℕ} (h : Parser.extractLength buffer = .ok (some (length, pos))) :
    Parser.extractLength before = .ok none ∨
      Parser.extractLength before = .ok (some (length, pos)) := by
  cases hstart : find (SOH :: ['9', '=']) before 0 with
  | none =>
    left
    rw [Parser.extractLength, toList_bodyLength, hstart]
  | some startPos =>
    cases hend : find [SOH] before (startPos + 3) with
    | none =>
      left
      rw [Parser.extractLength, toList_bodyLength, hstart]
      simp only [hend]
    | some endPos =>
      right
      have hstart' := find_of_prefix (List.cons_ne_nil _ _) hbefore hstart
      have hend' := find_of_prefix (List.cons_ne_nil _ _) hbefore hend
      have hlength := length_of_find (List.cons_ne_nil _ _) hend
      rw [List.length_singleton] at hlength
      obtain ⟨after, rfl⟩ := hbefore
      -- The text of the length lies in the part.
      have htext : ((before ++ after).drop (startPos + 3)).take (endPos - (startPos + 3))
          = (before.drop (startPos + 3)).take (endPos - (startPos + 3)) := by
        have hle := ((find_eq_some_iff (List.cons_ne_nil _ _)).mp hend).1
        rw [List.drop_append_of_le_length (by omega), List.take_append_of_le_length]
        rw [List.length_drop]
        omega
      rw [Parser.extractLength, toList_bodyLength, hstart'] at h
      simp only [hend', htext] at h
      rw [Parser.extractLength, toList_bodyLength, hstart]
      simp only [hend]
      exact h

/-- `readFixMessage` waits on a part of a frame. -/
theorem readFixMessage_part {frame : Frame} (h : frame.Valid) {before : List Char}
    (hbefore : before <+: frame.text) (hne : before ≠ frame.text) :
    Parser.readFixMessage ⟨before⟩ = (⟨before⟩, .ok none) := by
  have hshort : before.length < frame.text.length := by
    refine Nat.lt_of_le_of_ne hbefore.length_le fun heq => hne ?_
    exact hbefore.eq_of_length heq
  rw [Parser.readFixMessage, toList_beginString, toList_checkSum]
  split
  · rfl
  · rename_i htwo
    have htwo : 2 ≤ before.length := Nat.not_lt.mp htwo
    have hfirst : find ['8', '='] before 0 = some 0 := by
      have hstart := frame.prefix_text []
      rw [List.append_nil] at hstart
      exact find_here (List.cons_ne_nil _ _) (List.prefix_of_prefix_length_le hstart hbefore htwo)
    have hextract := extractLength_frame h []
    have hcheckSum := find_checkSum h []
    have hend := find_end h []
    rw [List.append_nil] at hextract hcheckSum hend
    have hbodyEnd : frame.content.length ≤ frame.bodyEnd := Nat.le_add_left _ _
    simp only [hfirst, List.drop_zero]
    rcases extractLength_of_prefix hbefore hextract with hextract | hextract
    · simp only [hextract]
    · simp only [hextract, Int.toNat_natCast, Nat.sub_add_cancel hbodyEnd]
      split
      · rfl
      · cases hfind : find (SOH :: ['1', '0', '=']) before (frame.bodyEnd - 1) with
        | none => rfl
        | some pos =>
          have hpos := find_of_prefix (List.cons_ne_nil _ _) hbefore hfind
          cases hcheckSum.symm.trans hpos
          cases hfind' : find [SOH] before (frame.bodyEnd - 1 + 4) with
          | none => simp only [hfind']
          | some last =>
            -- The end of the frame does not lie in a part of it.
            have hlast := find_of_prefix (List.cons_ne_nil _ _) hbefore hfind'
            cases hend.symm.trans hlast
            have hlength := length_of_find (List.cons_ne_nil _ _) hfind'
            rw [List.length_singleton] at hlength
            omega

/-- What `readFixMessage` takes off the front of a buffer. -/
def cutMessage (buffer : List Char) : Option (List Char × List Char) :=
  match Parser.readFixMessage ⟨buffer⟩ with
  | (parser, .ok (some str)) => some (str, parser.buffer)
  | _ => none

/-- `readFixMessage` cuts frames. -/
theorem cuts_readFixMessage : Cuts cutMessage IsFrame where
  ne_nil := by
    rintro _ ⟨frame, -, rfl⟩ hnil
    have hlength := frame.length_text
    rw [hnil, List.length_nil] at hlength
    omega
  whole := by
    rintro _ rest ⟨frame, h, rfl⟩
    rw [cutMessage, readFixMessage_frame h rest]
  part := by
    rintro _ before ⟨frame, h, rfl⟩ hbefore hne
    rw [cutMessage, readFixMessage_part h hbefore hne]

/-! ### Connections -/

/-- The bytes that the socket gives. -/
def Received.chunk : Received → List Char
  | .timeout => []
  | .bytes chunk => chunk

namespace Connection
variable {σ : Type} (session : Session σ)

/-- `processStream` goes on after it has passed a message. -/
theorem processStream_passed {parser parser' : Parser} {state : σ} {message message' : List Char}
    {connection : Connection σ} {events : List Event}
    (hread : parser.readMessage message = (parser', message', true))
    (h : processStream session parser state message = .ok (connection, events)) :
    ∃ state' events', processStream session parser' state' message' = .ok (connection, events') ∧
      events = .readFixMessage parser :: .next message' :: events' := by
  revert h
  fun_cases processStream session parser state message with
  | case1 parser'' message'' hmore => cases hread.symm.trans hmore
  | case2 =>
    intro h
    cases h
  | case3 =>
    intro h
    cases h
  | case4 =>
    intro h
    cases h
  | case5 parser'' message'' hnext state' result hresult hcaught hlogged connection' events' hrest =>
    intro h
    cases h
    cases hread.symm.trans hnext
    exact ⟨state', events', hrest, rfl⟩

/-- `processStream` passes the frames in the buffer. -/
theorem processStream_framed {frames : List (List Char)} {part buffer : List Char}
    (hframed : Framed IsFrame frames part buffer) {state : σ} {message : List Char}
    {connection : Connection σ} {events : List Event}
    (h : processStream session ⟨buffer⟩ state message = .ok (connection, events)) :
    delivered events = frames ∧ connection.parser = ⟨part⟩ := by
  induction frames generalizing buffer state message events with
  | nil =>
    obtain ⟨frame, ⟨shape, hvalid, rfl⟩, hbefore, hne⟩ := hframed.isPart
    have hmore : Parser.readMessage ⟨part⟩ message = (⟨part⟩, message, false) := by
      rw [Parser.readMessage, readFixMessage_part hvalid hbefore hne]
    have hbuffer : buffer = part := hframed.eq
    rw [hbuffer, processStream_more session hmore] at h
    cases h
    exact ⟨rfl, rfl⟩
  | cons frame frames ih =>
    obtain ⟨⟨shape, hvalid, rfl⟩, hrest⟩ := hframed.of_cons
    have hread : Parser.readMessage ⟨buffer⟩ message
        = (⟨frames.flatten ++ part⟩, shape.text, true) := by
      rw [Parser.readMessage, hframed.eq, List.flatten_cons, List.append_assoc,
        readFixMessage_frame hvalid]
    obtain ⟨state', events', hnext, rfl⟩ := processStream_passed session hread h
    obtain ⟨hdelivered, hparser⟩ := ih hrest hnext
    refine ⟨?_, hparser⟩
    show shape.text :: delivered events' = _
    rw [hdelivered]

/-- One read passes the frames that are complete then. -/
theorem read_framed {frames : List (List Char)} {part : List Char}
    {connection connection' : Connection σ} {received : Received} {events : List Event}
    (hframed : Framed IsFrame frames part (connection.parser.buffer ++ received.chunk))
    (hpart : Part IsFrame connection.parser.buffer)
    (h : read session connection received = .ok (connection', events)) :
    delivered events = frames ∧ connection'.parser = ⟨part⟩ := by
  cases received with
  | timeout =>
    cases h
    rw [Received.chunk, List.append_nil] at hframed
    obtain ⟨rfl, rfl⟩ := cuts_readFixMessage.framed_part hpart hframed
    exact ⟨rfl, rfl⟩
  | bytes chunk =>
    rw [read] at h
    split at h
    · cases h
    · rename_i connection'' events' hprocess
      split at h
      · cases h
      · cases h
        exact processStream_framed session hframed hprocess

/-- The frames that a connection has been given are passed, with what it had of the first of them.
The induction is over the chunks. -/
theorem run_framed {received : List Received} {part : List Char} {start connection : Connection σ}
    {frames : List (List Char)} {events : List Event} (hpart : Part IsFrame start.parser.buffer)
    (hframed : Framed IsFrame frames part
      (start.parser.buffer ++ (received.map Received.chunk).flatten))
    (hrun : (machine session).run start received = .ok (connection, events)) :
    delivered events = frames ∧ connection.parser = ⟨part⟩ := by
  obtain ⟨frame, hframe, -, -⟩ := id hpart
  have hempty : Part IsFrame [] := cuts_readFixMessage.part_nil hframe
  induction received generalizing start frames events with
  | nil =>
    cases hrun
    rw [List.map_nil, List.flatten_nil, List.append_nil] at hframed
    obtain ⟨rfl, rfl⟩ := cuts_readFixMessage.framed_part hpart hframed
    exact ⟨rfl, rfl⟩
  | cons one received ih =>
    obtain ⟨next, events₁, events₂, hread, hrest, rfl⟩ := ((machine session).run_cons).mp hrun
    rw [List.map_cons, List.flatten_cons, ← List.append_assoc] at hframed
    obtain ⟨frames₁, part₁, ⟨frames₂, rfl⟩, harrived⟩ :=
      hframed.of_prefix hempty (List.prefix_append (start.parser.buffer ++ one.chunk) _)
    obtain ⟨hdelivered, hparser⟩ := read_framed session harrived hpart hread
    have hbuffer : next.parser.buffer = part₁ := by rw [hparser]
    obtain ⟨hdelivered', hparser'⟩ := ih (hbuffer ▸ harrived.isPart)
      (hbuffer ▸ hframed.remaining harrived rfl) hrest
    refine ⟨?_, hparser'⟩
    rw [← hdelivered, ← hdelivered']
    exact List.filterMap_append

/-- A connection receives the bytes of some frames, and of a part of another one, in whichever
chunks. As long as the connection is open, its session has been given each of the frames once and in
order, and nothing else. -/
theorem delivered_eq_frames {frames : List (List Char)} {part : List Char} (state : σ)
    (received : List Received)
    (hframed : Framed IsFrame frames part (received.map Received.chunk).flatten)
    {connection : Connection σ} {events : List Event}
    (hrun : (machine session).run ⟨⟨[]⟩, state⟩ received = .ok (connection, events)) :
    delivered events = frames ∧ connection.parser = ⟨part⟩ := by
  obtain ⟨frame, hframe, -, -⟩ := hframed.isPart
  have hempty : Part IsFrame (⟨⟨[]⟩, state⟩ : Connection σ).parser.buffer :=
    cuts_readFixMessage.part_nil hframe
  exact run_framed session hempty hframed hrun

/-! ### A session that takes every message -/

section Accepting
variable {σ : Type} {session : Session σ} (hnext : ∀ state message,
  (session.next state message).2 = .returned)
include hnext

/-- A session that takes every message is given the whole stream. -/
theorem processStream_of_accepts (parser : Parser) (state : σ) (message : List Char) :
    ∃ connection events,
      processStream session parser state message = .ok (connection, events) := by
  fun_induction processStream session parser state message with
  | case1 parser parser' state message message' hread =>
    exact ⟨_, _, rfl⟩
  | case2 parser state message parser' message' _ state' hresult =>
    have hreturned := hnext state message'
    rw [hresult] at hreturned
    cases hreturned
  | case3 parser state message parser' message' _ state' result hresult _ hcaught =>
    have hreturned := hnext state message'
    rw [hresult, hcaught.1] at hreturned
    cases hreturned
  | case4 parser state message parser' message' _ state' result _ _ _ error herror ih =>
    obtain ⟨connection, events, hok⟩ := ih
    cases herror.symm.trans hok
  | case5 => exact ⟨_, _, rfl⟩

/-- The connection stays open, whatever it receives. -/
theorem run_of_accepts (hopen : ∀ state, session.disconnected state = false)
    (start : Connection σ) (received : List Received) :
    ∃ connection events, (machine session).run start received = .ok (connection, events) := by
  induction received generalizing start with
  | nil => exact ⟨start, [], rfl⟩
  | cons one received ih =>
    have hread : ∃ next events, read session start one = .ok (next, events) := by
      cases one with
      | timeout => exact ⟨_, _, rfl⟩
      | bytes chunk =>
        obtain ⟨next, events, hprocess⟩ :=
          processStream_of_accepts hnext (start.parser.addToStream chunk) start.session []
        refine ⟨next, events, ?_⟩
        rw [read, hprocess]
        simp only [hopen, Bool.false_eq_true, if_false]
    obtain ⟨next, events, hread⟩ := hread
    obtain ⟨connection, events', hrest⟩ := ih next
    exact ⟨connection, events ++ events',
      ((machine session).run_cons).mpr ⟨next, events, events', hread, hrest, rfl⟩⟩

end Accepting

/-! ### A frame and a part -/

/-- A heartbeat without a sequence number. -/
def shortFrame : Frame := ⟨['F'], ['3', '5', '=', '0', SOH], ['1', '6', '3']⟩

/-- The short frame is a frame. -/
theorem isFrame_shortFrame : IsFrame shortFrame.text :=
  ⟨shortFrame, ⟨by decide, ⟨[SOH, '3', '5', '=', '0'], rfl⟩, by decide, by decide⟩, rfl⟩

/-- A frame in two chunks, with the first byte of another one behind it. -/
theorem delivered_eq_frames_part : ∃ connection events,
    (machine acceptingSession).run ⟨⟨[]⟩, ()⟩
        [.bytes (shortFrame.text.take 9), .bytes (shortFrame.text.drop 9 ++ ['8'])]
        = .ok (connection, events) ∧
      delivered events = [shortFrame.text] ∧ connection.parser = ⟨['8']⟩ := by
  have hpart : Part IsFrame ['8'] := ⟨_, isFrame_shortFrame, ⟨_, rfl⟩, by decide⟩
  have hframed : Framed IsFrame [shortFrame.text] ['8']
      ([.bytes (shortFrame.text.take 9), .bytes (shortFrame.text.drop 9 ++ ['8'])].map
        Received.chunk).flatten :=
    ⟨fun frame hframe => List.mem_singleton.mp hframe ▸ isFrame_shortFrame, hpart, by decide⟩
  have hnext : ∀ state message, (acceptingSession.next state message).2 = .returned :=
    fun _ _ => rfl
  obtain ⟨connection, events, hrun⟩ := run_of_accepts hnext (fun _ => rfl) ⟨⟨[]⟩, ()⟩
    [.bytes (shortFrame.text.take 9), .bytes (shortFrame.text.drop 9 ++ ['8'])]
  exact ⟨connection, events, hrun, delivered_eq_frames acceptingSession () _ hframed hrun⟩

end Connection

end Harjus.FIX
