import Harjus.FieldMap

/-!
# `Harjus.Message`: messages and their text

`Message` (`flashfix/include/Message.h`, `flashfix/src/Message.cpp`) has three field maps.
`toString` writes them as the text of a FIX message, and `setString` reads such a text again: it
splits it into fields, sorts each field into the header, the body or the trailer, and puts the
fields of repeating groups together (`setGroup`). Then it validates the body length and the
checksum.

* A text and a position in it are the rest of the text from there on.
* `DataDictionary` (`flashfix/include/DataDictionary.h`) has what `Message` asks of it.
* Each field that is read makes the rest shorter, so its length bounds the steps of the loops.
* The body length and the total of a message are numbers without the end of `int`. For a message
  that is `Bounded` they are those of the source.
* The length of a data field may point outside the text. What the source reads then is undefined,
  and the model stops with `undefined`.
-/

set_option autoImplicit false

namespace Harjus.Wire

open Harjus.FIX (SOH)
open Harjus.FIX.IntConvertor (convert VALUE_MAX)

/-- How reading a text ends without a message. -/
inductive DecodeError where
  | invalidMessage (what : String)
  | undefined
  deriving DecidableEq, Repr

/-- What `Message` asks of a `DataDictionary`. A group is found by its count and the type of the
message, and has a delimiter and a dictionary. -/
structure DataDictionary where
  headerFields : List ℤ
  trailerFields : List ℤ
  dataFields : List ℤ
  fields : List ℤ
  orderedFields : List ℤ
  groups : List ((ℤ × List Char) × ℤ × DataDictionary)

namespace DataDictionary

/-- `isHeaderField`. -/
def isHeaderField (dictionary : DataDictionary) (field : ℤ) : Bool :=
  field ∈ dictionary.headerFields

/-- `isTrailerField`. -/
def isTrailerField (dictionary : DataDictionary) (field : ℤ) : Bool :=
  field ∈ dictionary.trailerFields

/-- `isDataField`. -/
def isDataField (dictionary : DataDictionary) (field : ℤ) : Bool :=
  field ∈ dictionary.dataFields

/-- `isField`. -/
def isField (dictionary : DataDictionary) (field : ℤ) : Bool := field ∈ dictionary.fields

/-- `getOrderedFields`. -/
def getOrderedFields (dictionary : DataDictionary) : MessageOrder := .group dictionary.orderedFields

/-- `getGroup`: the delimiter and the dictionary where it returns `true`. -/
def getGroup (dictionary : DataDictionary) (msg : List Char) (field : ℤ) :
    Option (ℤ × DataDictionary) :=
  dictionary.groups.lookup (field, msg)

end DataDictionary

/-- `Message`. The tag is the first that is out of place. -/
structure Message where
  header : FieldMap
  body : FieldMap
  trailer : FieldMap
  validStructure : Bool
  tag : ℤ

namespace Message

/-- The constructor of an empty message. -/
def new : Message := ⟨.new .header, .new .normal, .new .trailer, true, 0⟩

/-! ### Kinds of fields -/

/-- `isHeaderField`. -/
def isHeaderField (field : ℤ) (dictionary : Option DataDictionary) : Bool :=
  field ∈ ([8, 9, 35, 49, 56, 115, 128, 90, 34, 50, 142, 57, 143, 116, 144, 129, 145, 43, 97, 52,
    122, 212, 213, 347, 369, 370, 1128, 1129, 627] : List ℤ) ||
    dictionary.any fun dictionary => dictionary.isHeaderField field

/-- `isTrailerField`. -/
def isTrailerField (field : ℤ) (dictionary : Option DataDictionary) : Bool :=
  field ∈ ([93, 89, 10] : List ℤ) ||
    dictionary.any fun dictionary => dictionary.isTrailerField field

/-- `IsDataField`. -/
def isDataField (field : ℤ) (sessionDD appDD : Option DataDictionary) : Bool :=
  (sessionDD.any fun dictionary => dictionary.isDataField field) ||
    appDD.any fun dictionary => dictionary.isDataField field

/-- `isAdminMsgType`. `strchr` also finds the character that ends its text. -/
def isAdminMsgType (msgType : List Char) : Bool :=
  match msgType with
  | [c] => c ∈ "0A12345".toList ++ [Char.ofNat 0]
  | _ => false

/-! ### Writing a message -/

/-- `bodyLength`. -/
def bodyLength (message : Message) : ℕ :=
  message.header.calculateLength + message.body.calculateLength + message.trailer.calculateLength

/-- The sum of which `checkSum` takes the rest. -/
def total (message : Message) : ℕ :=
  message.header.calculateTotal + message.body.calculateTotal + message.trailer.calculateTotal

/-- `checkSum`, where the sum is at most `VALUE_MAX`. -/
def checkSum (message : Message) : ℕ := message.total % 256

/-- The message with the body length and the checksum that `toString` sets. -/
def complete (message : Message) : Message :=
  let message := { message with
    header := message.header.setField (.new 9 (integerToString message.bodyLength)) }
  { message with trailer := message.trailer.setField (.new 10 (checkSumText message.checkSum)) }

/-- The sums of `toString` are an `int`: the length of the body, and the total with the body length.
All that is added on the way to them is at most as large. -/
structure Bounded (message : Message) : Prop where
  length : message.bodyLength ≤ VALUE_MAX
  total : message.complete.total ≤ VALUE_MAX

/-- `toString`. -/
def toString (message : Message) : List Char :=
  let message := message.complete
  message.header.calculateString ++ message.body.calculateString ++ message.trailer.calculateString

/-! ### Reading a field -/

/-- The field that has the length of a data field. -/
def lengthField (field : ℤ) : ℤ := if field = 89 then 93 else field - 1

/-- Where `extractField` looks for the length field. -/
def location (message : Message) (lenField : ℤ) (sessionDD : Option DataDictionary)
    (group : Option FieldMap) : FieldMap :=
  group.getD <|
    if isHeaderField lenField sessionDD then message.header
    else if isTrailerField lenField sessionDD then message.trailer
    else message.body

/-- The number of bytes of a data field in front of `rest`, as its length field says. -/
def dataLength (message : Message) (field : ℤ) (sessionDD : Option DataDictionary)
    (group : Option FieldMap) (rest : List Char) : Except DecodeError ℕ :=
  let lenField := lengthField field
  match (message.location lenField sessionDD group).reverseFind lenField with
  | none => .error <| .invalidMessage
      ("Data length field " ++ String.ofList (integerToString lenField) ++
        " was not found for data field " ++ String.ofList (integerToString field))
  | some fieldLength =>
    match convert fieldLength.string with
    | none => .error <| .invalidMessage
        ("Unable to determine SOH for data field " ++ String.ofList (integerToString field) ++
          ": Could not convert field" ++ (if fieldLength.string = [] then "" else ": ") ++
          String.ofList fieldLength.string)
    | some length =>
      if 0 ≤ length ∧ length < rest.length then .ok length.toNat else .error .undefined

/-- The number of bytes of a value in front of `rest`. -/
def valueLength (message : Message) (field : ℤ) (sessionDD appDD : Option DataDictionary)
    (group : Option FieldMap) (rest : List Char) : Except DecodeError ℕ :=
  if isDataField field sessionDD appDD then message.dataLength field sessionDD group rest
  else .ok (rest.takeWhile (· ≠ SOH)).length

/-- `extractField`: the field at the front of a text, and the rest. -/
def extractField (message : Message) (string : List Char) (sessionDD appDD : Option DataDictionary)
    (group : Option FieldMap) : Except DecodeError (FieldBase × List Char) :=
  let tagText := string.takeWhile (· ≠ '=')
  match string.dropWhile (· ≠ '=') with
  | [] => .error (.invalidMessage "Equal sign not found in field")
  | _ :: rest =>
    match convert tagText with
    | none => .error (.invalidMessage ("Field tag is invalid: " ++ String.ofList tagText))
    | some field =>
      if SOH ∉ rest then .error (.invalidMessage "SOH not found at end of field")
      else do
        let length ← message.valueLength field sessionDD appDD group rest
        return (.ofText field (rest.take length) (tagText ++ '=' :: rest.take (length + 1)),
          rest.drop (length + 1))

/-! ### Reading the groups -/

/-- The loop of `setGroup`: the groups under `tag`, with the group that is being read. It returns
the map with the groups, and the rest of the text. The groups inside a group are read by the same
loop. -/
def setGroupLoop (message : Message) (msg : List Char) :
    ℕ → ℤ → ℤ → DataDictionary → DataDictionary → Option FieldMap → List Char → FieldMap →
      Except DecodeError (FieldMap × List Char)
  | 0, _, _, _, _, _, string, map => .ok (map, string)
  | steps + 1, tag, delim, dictionary, groupDictionary, group, string, map =>
    if string = [] then .ok (map, string)
    else do
      let (field, rest) ← message.extractField string dictionary dictionary group
      let close := match group with
        | some group => map.addGroup tag group
        | none => map
      let start := field.tag = delim ∨
        (groupDictionary.isField field.tag ∧ group.all fun group => group.isSetField field.tag)
      if ¬ start ∧ ¬ groupDictionary.isField field.tag then return (close, string)
      else
        let (group, map) :=
          if start then (some (FieldMap.new groupDictionary.getOrderedFields), close)
          else (group, map)
        match group with
        | none => return (map, rest)
        | some group =>
          let group := group.addField field
          match groupDictionary.getGroup msg field.tag with
          | none =>
            setGroupLoop message msg steps tag delim dictionary groupDictionary (some group) rest
              map
          | some (delim', dictionary') =>
            let (group, rest) ← setGroupLoop message msg steps field.tag delim' groupDictionary
              dictionary' none rest group
            setGroupLoop message msg steps tag delim dictionary groupDictionary (some group) rest
              map

/-- `setGroup`. -/
def setGroup (message : Message) (msg : List Char) (field : FieldBase) (string : List Char)
    (map : FieldMap) (dictionary : DataDictionary) : Except DecodeError (FieldMap × List Char) :=
  match dictionary.getGroup msg field.tag with
  | none => .ok (map, string)
  | some (delim, groupDictionary) =>
    message.setGroupLoop msg string.length field.tag delim dictionary groupDictionary none string
      map

/-! ### Reading a message -/

/-- `field_type`. -/
inductive FieldType where
  | header
  | body
  | trailer
  deriving DecidableEq, Repr

/-- The variables of `setString`. -/
structure Decoding where
  message : Message
  count : ℕ
  msg : List Char
  type : FieldType
  appDD : Option DataDictionary

/-- `headerOrder`. -/
def headerOrder : List ℤ := [8, 9, 35]

namespace Decoding

/-- A field is out of place. -/
def misplace (d : Decoding) (field : ℤ) : Decoding :=
  { d with message := { d.message with
      tag := if d.message.tag = 0 then field else d.message.tag
      validStructure := false } }

/-- `setGroup`, where there is a dictionary. -/
def readGroups (d : Decoding) (msg : List Char) (field : FieldBase) (string : List Char)
    (map : FieldMap) : Option DataDictionary → Except DecodeError (FieldMap × List Char)
  | none => .ok (map, string)
  | some dictionary => d.message.setGroup msg field string map dictionary

/-- A field of the header. -/
def headerField (d : Decoding) (field : FieldBase) (string : List Char)
    (sessionDD : Option DataDictionary) : Except DecodeError (Decoding × List Char) := do
  let d := if d.type ≠ .header then d.misplace field.tag else d
  let d :=
    if field.tag = 35 then
      { d with
        msg := field.string
        appDD := if isAdminMsgType field.string then sessionDD else d.appDD }
    else d
  let d := { d with message := { d.message with header := d.message.header.appendField field } }
  let (header, string) ← d.readGroups "_header_".toList field string d.message.header sessionDD
  return ({ d with message := { d.message with header } }, string)

/-- A field of the trailer. -/
def trailerField (d : Decoding) (field : FieldBase) (string : List Char)
    (sessionDD : Option DataDictionary) : Except DecodeError (Decoding × List Char) := do
  let d := { d with
    type := .trailer
    message := { d.message with trailer := d.message.trailer.appendField field } }
  let (trailer, string) ← d.readGroups "_trailer_".toList field string d.message.trailer sessionDD
  return ({ d with message := { d.message with trailer } }, string)

/-- A field of the body. -/
def bodyField (d : Decoding) (field : FieldBase) (string : List Char) :
    Except DecodeError (Decoding × List Char) := do
  let d := if d.type = .trailer then d.misplace field.tag else d
  let d := { d with
    type := .body
    message := { d.message with body := d.message.body.appendField field } }
  let (body, string) ← d.readGroups d.msg field string d.message.body d.appDD
  return ({ d with message := { d.message with body } }, string)

/-- A field of the message. -/
def readField (d : Decoding) (field : FieldBase) (string : List Char)
    (sessionDD : Option DataDictionary) : Except DecodeError (Decoding × List Char) :=
  if isHeaderField field.tag sessionDD then d.headerField field string sessionDD
  else if isTrailerField field.tag sessionDD then d.trailerField field string sessionDD
  else d.bodyField field string

/-- The loop of `setString`. -/
def loop (doValidation : Bool) (sessionDD : Option DataDictionary) :
    ℕ → Decoding → List Char → Except DecodeError Decoding
  | 0, d, _ => .ok d
  | steps + 1, d, string =>
    if string = [] then .ok d
    else do
      let (field, rest) ← d.message.extractField string sessionDD d.appDD none
      if d.count < 3 ∧ headerOrder.getD d.count 0 ≠ field.tag ∧ doValidation then
        .error (.invalidMessage "Header fields out of order")
      else
        let d := { d with count := if d.count < 3 then d.count + 1 else d.count }
        let (d, rest) ← d.readField field rest sessionDD
        loop doValidation sessionDD steps d rest

end Decoding

/-- `sortFields` of the three maps. -/
def sortFields (message : Message) : Message :=
  { message with
    header := message.header.sortFields
    body := message.body.sortFields
    trailer := message.trailer.sortFields }

/-- `size_t` of an `int`, in the text of a number. -/
def sizeText (n : ℤ) : String := String.ofList (integerToString (if n < 0 then 2 ^ 64 + n else n))

/-- The number in a field that `validate` compares. -/
def expected (map : FieldMap) (field : ℤ) (fieldName : String) : Except DecodeError ℤ :=
  match map.lookup field with
  | none => .error (.invalidMessage (fieldName ++ " is missing"))
  | some f =>
    match convert f.string with
    | none => .error <| .invalidMessage
        (fieldName ++ " has wrong format: " ++ String.ofList f.string)
    | some n => .ok n

/-- `validate`. -/
def validate (message : Message) : Except DecodeError Unit := do
  let expectedLength ← expected message.header 9 "BodyLength"
  if expectedLength ≠ message.bodyLength then
    .error <| .invalidMessage ("Expected BodyLength=" ++ sizeText expectedLength ++
      ", Received BodyLength=" ++ sizeText message.bodyLength)
  else
    let expectedChecksum ← expected message.trailer 10 "CheckSum"
    if expectedChecksum ≠ message.checkSum then
      .error <| .invalidMessage ("Expected CheckSum=" ++
        String.ofList (integerToString expectedChecksum) ++ ", Received CheckSum=" ++
        String.ofList (integerToString message.checkSum))
    else .ok ()

/-- `setString`. -/
def setString (string : List Char) (doValidation : Bool)
    (sessionDD appDD : Option DataDictionary) : Except DecodeError Message := do
  let d ← Decoding.loop doValidation sessionDD string.length ⟨.new, 0, [], .header, appDD⟩ string
  let message := d.message.sortFields
  if doValidation then
    message.validate
    return message
  else return message

end Message

end Harjus.Wire
