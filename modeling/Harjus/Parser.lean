import Mathlib.Data.Int.Notation
import Mathlib.Data.List.Basic

/-!
# `Harjus.Parser`: frames in a stream of bytes

`Parser` (`flashfix/include/Parser.h`, `flashfix/src/Parser.cpp`) collects the bytes that a
connection receives and cuts FIX messages off their front. A `std::string` is the list of its
bytes, each as the character with its code.

A C++ function with references as results returns them. Where it throws, the exception comes
with what the references hold then, because `readFixMessage` reads `length` in its `catch`.
-/

set_option autoImplicit false

namespace Harjus.FIX

/-- `'\001'`, the end of a field. -/
def SOH : Char := '\x01'

/-- `std::string::find` of a text that is not empty, from a position on. -/
def find (pattern s : List Char) (pos : ℕ) : Option ℕ :=
  ((s.drop pos).tails.findIdx? fun t => pattern.isPrefixOf t).map (pos + ·)

/-! ### `IntConvertor` -/

namespace IntConvertor

/-- `VALUE_MAX` of `int`. -/
def VALUE_MAX : ℕ := 2147483647

def OVERFLOW_MAX : ℕ := VALUE_MAX / 10

/-- The loop of `IntConvertor::convert` over the digits, on the unsigned `x`. -/
def convertDigits : List Char → ℕ → Option ℕ
  | [], x => some x
  | c :: cs, x =>
    if OVERFLOW_MAX < x then none
    else if ¬ c.isDigit then none
    else
      let nx := (10 * x + (c.toNat - '0'.toNat)) % 2 ^ 32
      if nx < x then none else convertDigits cs nx

/-- `IntConvertor::convert`. It throws `FieldConvertError` where this is `none`. -/
def convert (value : List Char) : Option ℤ :=
  match value with
  | [] => none
  | '-' :: digits =>
    if digits = [] then none
    else do
      let x ← convertDigits digits 0
      if VALUE_MAX + 1 < x then none else some (-x)
  | digits => do
    let x ← convertDigits digits 0
    if VALUE_MAX < x then none else some x

example : convert "12".toList = some 12 := by decide

example : convert "-2147483648".toList = some (-2147483648) := by decide

example : convert "2147483648".toList = none := by decide

end IntConvertor

/-! ### `Parser` -/

/-- `MessageParseError`. -/
inductive MessageParseError where
  | messageParseError
  deriving DecidableEq, Repr

/-- `Parser`. -/
structure Parser where
  buffer : List Char
  deriving DecidableEq, Repr

namespace Parser

/-- `Parser::addToStream`. -/
def addToStream (parser : Parser) (str : List Char) : Parser := ⟨parser.buffer ++ str⟩

/-- `Parser::extractLength`: `length` and `pos` where it returns `true`. The exception comes with
what it leaves in `length`. -/
def extractLength (buffer : List Char) : Except (MessageParseError × ℤ) (Option (ℤ × ℕ)) :=
  match find (SOH :: "9=".toList) buffer 0 with
  | none => .ok none
  | some startPos =>
    match find [SOH] buffer (startPos + 3) with
    | none => .ok none
    | some endPos =>
      let strLength := (buffer.drop (startPos + 3)).take (endPos - (startPos + 3))
      match IntConvertor.convert strLength with
      | none => .error (.messageParseError, 0)
      | some length =>
        if length < 0 then .error (.messageParseError, length)
        else .ok (some (length, endPos + 1))

/-- `Parser::readFixMessage`: `str` where it returns `true`. -/
def readFixMessage (parser : Parser) : Parser × Except MessageParseError (Option (List Char)) :=
  if parser.buffer.length < 2 then (parser, .ok none)
  else
    match find "8=".toList parser.buffer 0 with
    | none => (parser, .ok none)
    | some pos =>
      let buffer := parser.buffer.drop pos
      match extractLength buffer with
      | .error (e, length) =>
        if 0 < length then (⟨buffer.drop (pos + length.toNat)⟩, .error e) else (⟨[]⟩, .error e)
      | .ok none => (⟨buffer⟩, .ok none)
      | .ok (some (length, pos)) =>
        let pos := pos + length.toNat
        if buffer.length < pos then (⟨buffer⟩, .ok none)
        else
          match find (SOH :: "10=".toList) buffer (pos - 1) with
          | none => (⟨buffer⟩, .ok none)
          | some pos =>
            match find [SOH] buffer (pos + 4) with
            | none => (⟨buffer⟩, .ok none)
            | some pos => (⟨buffer.drop (pos + 1)⟩, .ok (some (buffer.take (pos + 1))))

/-! ### When it throws -/

/-- The text of the first field `9` is a body length that `IntConvertor` does not take, or a
negative one. -/
def MalformedLength (buffer : List Char) : Prop :=
  ∃ startPos endPos, find (SOH :: "9=".toList) buffer 0 = some startPos ∧
    find [SOH] buffer (startPos + 3) = some endPos ∧
    ∀ length, IntConvertor.convert ((buffer.drop (startPos + 3)).take (endPos - (startPos + 3)))
      = some length → length < 0

/-- The first message in the buffer, complete or not, has such a body length. -/
def Malformed (parser : Parser) : Prop :=
  2 ≤ parser.buffer.length ∧ ∃ pos, find "8=".toList parser.buffer 0 = some pos ∧
    MalformedLength (parser.buffer.drop pos)

/-- `extractLength` throws at a malformed length and leaves no positive `length` then. -/
theorem extractLength_cases (buffer : List Char) :
    (MalformedLength buffer ∧
      ∃ length ≤ 0, extractLength buffer = .error (.messageParseError, length)) ∨
    ¬ MalformedLength buffer ∧ ∃ result, extractLength buffer = .ok result := by
  cases hstart : find (SOH :: "9=".toList) buffer 0 with
  -- Without the field, or without its end, there is no length yet and nothing throws.
  | none =>
    right
    refine ⟨?_, none, by rw [extractLength, hstart]⟩
    rintro ⟨startPos, endPos, hfind, -⟩
    rw [hstart] at hfind
    cases hfind
  | some startPos =>
    cases hend : find [SOH] buffer (startPos + 3) with
    | none =>
      right
      refine ⟨?_, none, by rw [extractLength, hstart]; simp only [hend]⟩
      rintro ⟨startPos', endPos, hfind, hfind', -⟩
      cases hstart.symm.trans hfind
      rw [hend] at hfind'
      cases hfind'
    | some endPos =>
      have hmalformed : MalformedLength buffer ↔ ∀ length, IntConvertor.convert
          ((buffer.drop (startPos + 3)).take (endPos - (startPos + 3))) = some length
            → length < 0 := by
        constructor
        · rintro ⟨startPos', endPos', hfind, hfind', h⟩
          cases hstart.symm.trans hfind
          cases hend.symm.trans hfind'
          exact h
        · intro h
          exact ⟨startPos, endPos, hstart, hend, h⟩
      rw [hmalformed, extractLength, hstart]
      simp only [hend]
      -- The text of the length is no number, a negative one, or the length.
      cases hconvert : IntConvertor.convert
          ((buffer.drop (startPos + 3)).take (endPos - (startPos + 3))) with
      | none =>
        left
        exact ⟨fun length h => (nomatch h), 0, Int.le_refl 0, rfl⟩
      | some length =>
        by_cases hneg : length < 0
        · left
          refine ⟨fun length' h => Option.some.inj h ▸ hneg, length, Int.le_of_lt hneg, ?_⟩
          simp only [if_pos hneg]
        · right
          refine ⟨fun h => hneg (h length rfl), some (length, endPos + 1), ?_⟩
          simp only [if_neg hneg]

/-- `readFixMessage` throws where the length is malformed, and forgets the buffer. Otherwise it
cuts bytes off the front, and at least one of them where it returns a message. -/
theorem readFixMessage_cases (parser : Parser) :
    (parser.Malformed ∧ parser.readFixMessage = (⟨[]⟩, .error .messageParseError)) ∨
    ¬ parser.Malformed ∧
      ((∃ n, parser.readFixMessage = (⟨parser.buffer.drop n⟩, .ok none)) ∨
        2 ≤ parser.buffer.length ∧
          ∃ n str, parser.readFixMessage = (⟨parser.buffer.drop (n + 1)⟩, .ok (some str))) := by
  by_cases hlength : parser.buffer.length < 2
  · right
    refine ⟨fun h => Nat.not_le.mpr hlength h.1, Or.inl ⟨0, ?_⟩⟩
    rw [readFixMessage, if_pos hlength, List.drop_zero]
  · rw [readFixMessage, if_neg hlength]
    cases hfind : find "8=".toList parser.buffer 0 with
    | none =>
      right
      refine ⟨?_, Or.inl ⟨0, by rw [List.drop_zero]⟩⟩
      rintro ⟨-, pos, hpos, -⟩
      rw [hfind] at hpos
      cases hpos
    | some pos =>
      have hmalformed : parser.Malformed ↔ MalformedLength (parser.buffer.drop pos) := by
        constructor
        · rintro ⟨-, pos', hpos, h⟩
          cases hfind.symm.trans hpos
          exact h
        · intro h
          exact ⟨Nat.not_lt.mp hlength, pos, hfind, h⟩
      rw [hmalformed]
      simp only []
      rcases extractLength_cases (parser.buffer.drop pos) with
        ⟨h, length, hle, hextract⟩ | ⟨h, result, hextract⟩
      · left
        refine ⟨h, ?_⟩
        rw [hextract]
        simp only [if_neg (Int.not_lt.mpr hle)]
      · right
        refine ⟨h, ?_⟩
        rw [hextract]
        -- With a length: the message is not complete yet, or it is cut off with what precedes it.
        cases result with
        | none => exact Or.inl ⟨pos, rfl⟩
        | some result =>
          simp only []
          split
          · exact Or.inl ⟨pos, rfl⟩
          · split
            · exact Or.inl ⟨pos, rfl⟩
            · split
              · exact Or.inl ⟨pos, rfl⟩
              · rename_i last _
                right
                exact ⟨Nat.not_lt.mp hlength, pos + last, _, by rw [List.drop_drop, Nat.add_assoc]⟩

/-- The parser has fewer bytes after a call that returns a message or throws. -/
theorem length_readFixMessage_lt {parser parser' : Parser}
    {result : Except MessageParseError (Option (List Char))}
    (h : parser.readFixMessage = (parser', result)) (hresult : result ≠ .ok none) :
    parser'.buffer.length < parser.buffer.length := by
  rcases parser.readFixMessage_cases with
    ⟨⟨hlength, -⟩, hread⟩ | ⟨-, ⟨n, hread⟩ | ⟨hlength, n, str, hread⟩⟩
  · cases hread.symm.trans h
    show 0 < parser.buffer.length
    omega
  · cases hread.symm.trans h
    exact absurd rfl hresult
  · cases hread.symm.trans h
    show (parser.buffer.drop (n + 1)).length < _
    rw [List.length_drop]
    omega

end Parser

end Harjus.FIX
