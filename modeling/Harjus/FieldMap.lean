import Harjus.Parser
import Mathlib.Algebra.Ring.Int.Defs
import Mathlib.Algebra.Ring.Nat
import Mathlib.Data.List.Sort

/-!
# `Harjus.FieldMap`: the fields of a message and their text

`FieldBase` (`flashfix/include/Field.h`) is a tag with a text, and `FieldMap`
(`flashfix/include/FieldMap.h`, `flashfix/src/FieldMap.cpp`) keeps fields in the order of its
`message_order` (`flashfix/include/MessageSorters.h`), with repeating groups under their tags.

* `integerToString` and `numberOfSymbolsIn` are `integer_to_string` and `number_of_symbols_in`
  (`flashfix/include/FieldConvertors.h`) with their loops. A bound on the number of their steps
  comes with them.
* A `std::string` is the list of its bytes, as in `Harjus.Parser`.
* A length and a total are an `int` in the source. Here they are numbers without its end, and the
  two agree for a message whose sums fit (`Message.Bounded` in `Harjus.Message`).

`FieldMap.lookup` takes the first field with a tag in a short map, and searches a long one by its
order. `std::lower_bound` and `std::upper_bound` are what they find in a sorted range.
-/

set_option autoImplicit false

namespace Harjus.Wire

open Harjus.FIX (SOH)

/-! ### Integers -/

/-- The loop of `number_of_symbols_in`. -/
def numberOfSymbolsLoop : ℕ → ℕ → ℕ → ℕ
  | 0, _, symbols => symbols
  | steps + 1, number, symbols =>
    if 9999 < number then numberOfSymbolsLoop steps (number / 10000) (symbols + 4)
    else if 99 < number then
      if 999 < number then symbols + 4 else symbols + 3
    else
      if 9 < number then symbols + 2 else symbols + 1

/-- `number_of_symbols_in`. -/
def numberOfSymbolsIn (value : ℤ) : ℕ :=
  let symbols := numberOfSymbolsLoop (value.natAbs + 1) value.natAbs 0
  if value < 0 then symbols + 1 else symbols

/-- `digit_pairs`. -/
def digitPairs : List Char :=
  "00010203040506070809".toList ++ "10111213141516171819".toList ++
    "20212223242526272829".toList ++ "30313233343536373839".toList ++
    "40414243444546474849".toList ++ "50515253545556575859".toList ++
    "60616263646566676869".toList ++ "70717273747576777879".toList ++
    "80818283848586878889".toList ++ "90919293949596979899".toList

/-- The two characters of `digit_pairs` for a number, in front of what is written. -/
def writePair (number : ℕ) (buffer : List Char) : List Char :=
  digitPairs.getD (2 * number) '0' :: digitPairs.getD (2 * number + 1) '0' :: buffer

/-- The loop of `integer_to_string` and what follows it, down to the sign. -/
def integerToStringLoop : ℕ → ℕ → List Char → List Char
  | 0, _, buffer => buffer
  | steps + 1, number, buffer =>
    if 99 < number then integerToStringLoop steps (number / 100) (writePair (number % 100) buffer)
    else if 9 < number then writePair number buffer
    else Char.ofNat ('0'.toNat + number) :: buffer

/-- `integer_to_string`: what it writes to the end of the buffer. -/
def integerToString (value : ℤ) : List Char :=
  let digits := integerToStringLoop (value.natAbs + 1) value.natAbs []
  if value < 0 then '-' :: digits else digits

/-- `CheckSumConvertor::convert`, for a value that has at most three digits. -/
def checkSumText (value : ℕ) : List Char :=
  (integerToString value).leftpad 3 '0'

/-! ### `FieldBase` -/

/-- `field_metrics`. -/
structure FieldMetrics where
  length : ℕ
  checksum : ℕ
  deriving DecidableEq, Repr

namespace FieldMetrics

/-- `isValid`. -/
def isValid (metrics : FieldMetrics) : Bool := 0 < metrics.length

/-- `no_metrics`. -/
def none : FieldMetrics := ⟨0, 0⟩

/-- `calculateMetrics`, for a text whose bytes have a sum of at most `VALUE_MAX`. -/
def calculateMetrics (field : List Char) : FieldMetrics :=
  ⟨field.length, (field.map Char.toNat).sum⟩

end FieldMetrics

/-- `FieldBase`. -/
structure FieldBase where
  tag : ℤ
  string : List Char
  metrics : FieldMetrics
  deriving DecidableEq, Repr

namespace FieldBase

/-- The public constructor. -/
def new (tag : ℤ) (string : List Char) : FieldBase := ⟨tag, string, .none⟩

/-- The constructor for a field of a text. -/
def ofText (tag : ℤ) (string text : List Char) : FieldBase :=
  ⟨tag, string, .calculateMetrics text⟩

/-- `setString`. -/
def setString (field : FieldBase) (string : List Char) : FieldBase := .new field.tag string

/-- `getFixString`, as `encodeTo` writes it. -/
def getFixString (field : FieldBase) : List Char :=
  integerToString field.tag ++ '=' :: field.string ++ [SOH]

/-- `calculate`. -/
def calculate (field : FieldBase) : FieldBase :=
  if field.metrics.isValid then field
  else { field with metrics := .calculateMetrics field.getFixString }

/-- `getLength`. -/
def getLength (field : FieldBase) : ℕ := field.calculate.metrics.length

/-- `getTotal`. -/
def getTotal (field : FieldBase) : ℕ := field.calculate.metrics.checksum

end FieldBase

/-! ### `message_order` -/

/-- `getOrderedPosition` of `header_order`. -/
def headerPosition (field : ℤ) : ℕ :=
  if field = 8 then 1 else if field = 9 then 2 else if field = 35 then 3 else 0

/-- `getOrderedPosition` of `trailer_order`. -/
def trailerPosition (field : ℤ) : ℕ :=
  if field = 93 then 1 else if field = 89 then 2 else 0

/-- Tags with a position come before the others, in the order of their positions. -/
def compareByPosition (position : ℤ → ℕ) (x y : ℤ) : Bool :=
  let orderedX := position x
  let orderedY := position y
  if orderedX ≠ 0 ∧ orderedY ≠ 0 then orderedX < orderedY
  else if orderedX ≠ 0 then true
  else if orderedY ≠ 0 then false
  else x < y

/-- `header_order::compare`. -/
def headerCompare (x y : ℤ) : Bool := compareByPosition headerPosition x y

/-- `trailer_order::compare`. -/
def trailerCompare (x y : ℤ) : Bool :=
  if x = 10 then false else if y = 10 then true else compareByPosition trailerPosition x y

/-- The entry of `m_groupOrder` for a tag: one more than its last index, and 0 without one. -/
def groupPosition (order : List ℤ) (field : ℤ) : ℕ := order.length - order.reverse.idxOf field

/-- `m_largest` of a group order. -/
def largest (order : List ℤ) : ℤ := order.foldl max (order.headD 0)

/-- `group_order::compare`. -/
def groupCompare (order : List ℤ) (x y : ℤ) : Bool :=
  if x ≤ largest order ∧ y ≤ largest order then compareByPosition (groupPosition order) x y
  else if x ≤ largest order then true
  else if y ≤ largest order then false
  else x < y

/-- `message_order`, with the fields of a group in order. -/
inductive MessageOrder where
  | header
  | trailer
  | normal
  | group (order : List ℤ)
  deriving DecidableEq, Repr

/-- `message_order::operator()`. -/
def MessageOrder.compare : MessageOrder → ℤ → ℤ → Bool
  | header => headerCompare
  | trailer => trailerCompare
  | normal => fun x y => x < y
  | group order => groupCompare order

/-! ### `FieldMap` -/

/-- `FieldMap`. The groups are a `std::map` by tag: its entries, in the order of the tags. -/
inductive FieldMap where
  | mk (order : MessageOrder) (fields : List FieldBase) (groups : List (ℤ × List FieldMap))

/-- `m_groups`. -/
abbrev Groups := List (ℤ × List FieldMap)

/-- `m_groups[tag].push_back(group)`. -/
def Groups.add (tag : ℤ) (group : FieldMap) : Groups → Groups
  | [] => [(tag, [group])]
  | (key, groups) :: rest =>
    if tag < key then (tag, [group]) :: (key, groups) :: rest
    else if key < tag then (key, groups) :: Groups.add tag group rest
    else (key, groups ++ [group]) :: rest

/-- The groups under a tag. -/
def Groups.find (groups : Groups) (tag : ℤ) : List FieldMap := (groups.lookup tag).getD []

namespace FieldMap

/-- `m_order`. -/
def order : FieldMap → MessageOrder
  | mk order _ _ => order

/-- `m_fields`. -/
def fields : FieldMap → List FieldBase
  | mk _ fields _ => fields

/-- `m_groups`. -/
def groups : FieldMap → Groups
  | mk _ _ groups => groups

/-- The constructor of an empty map. -/
def new (order : MessageOrder) : FieldMap := mk order [] []

/-- The map with other fields. -/
def withFields (map : FieldMap) (fields : List FieldBase) : FieldMap :=
  mk map.order fields map.groups

/-- `lookup`. From 16 fields on it is a binary search. -/
def lookup (map : FieldMap) (tag : ℤ) : Option FieldBase :=
  if map.fields.length < 16 then map.fields.find? fun field => tag = field.tag
  else
    match map.fields.dropWhile fun field => map.order.compare field.tag tag with
    | field :: _ => if field.tag = tag then some field else none
    | [] => none

/-- `isSetField`. -/
def isSetField (map : FieldMap) (tag : ℤ) : Bool := (map.lookup tag).isSome

/-- The fields with a new one where `findPositionFor` says: at the end, or by
`std::upper_bound`. -/
def insertField (order : MessageOrder) (field : FieldBase) (fields : List FieldBase) :
    List FieldBase :=
  match fields.getLast? with
  | none => fields ++ [field]
  | some last =>
    if order.compare last.tag field.tag ∨ last.tag = field.tag then fields ++ [field]
    else
      fields.takeWhile (fun other => ¬ order.compare field.tag other.tag) ++ field ::
        fields.dropWhile (fun other => ¬ order.compare field.tag other.tag)

/-- `addField`. -/
def addField (map : FieldMap) (field : FieldBase) : FieldMap :=
  map.withFields (insertField map.order field map.fields)

/-- `setString` of the first field that `lookup` finds. -/
def overwrite (tag : ℤ) (string : List Char) : List FieldBase → List FieldBase
  | [] => []
  | field :: fields =>
    if field.tag = tag then field.setString string :: fields
    else field :: overwrite tag string fields

/-- `setField`. -/
def setField (map : FieldMap) (field : FieldBase) : FieldMap :=
  if map.isSetField field.tag then map.withFields (overwrite field.tag field.string map.fields)
  else map.addField field

/-- `appendField`. -/
def appendField (map : FieldMap) (field : FieldBase) : FieldMap :=
  map.withFields (map.fields ++ [field])

/-- `reverse_find`. It throws where this is `none`. -/
def reverseFind (map : FieldMap) (tag : ℤ) : Option FieldBase :=
  map.fields.reverse.find? fun field => tag = field.tag

/-- `sortFields`. Fields with the same tag keep their order here. -/
def sortFields (map : FieldMap) : FieldMap :=
  map.withFields (map.fields.insertionSort fun a b => ¬ map.order.compare b.tag a.tag)

/-- `addGroupPtr` without the count. -/
def addGroup (map : FieldMap) (tag : ℤ) (group : FieldMap) : FieldMap :=
  mk map.order map.fields (map.groups.add tag group)

/-- `addGroup`, which sets the count. -/
def addGroupWithCount (map : FieldMap) (tag : ℤ) (group : FieldMap) : FieldMap :=
  let map := map.addGroup tag group
  map.setField (.new tag (integerToString (map.groups.find tag).length))

/-! ### Recursion into the groups -/

mutual

/-- A function of a map, from what it is of the groups. -/
def fold {β : Type} (f : MessageOrder → List FieldBase → List (ℤ × List β) → β) : FieldMap → β
  | mk order fields groups => f order fields (foldGroups f groups)

/-- `fold` of the groups under each tag. -/
def foldGroups {β : Type} (f : MessageOrder → List FieldBase → List (ℤ × List β) → β) :
    List (ℤ × List FieldMap) → List (ℤ × List β)
  | [] => []
  | (tag, groups) :: rest => (tag, foldList f groups) :: foldGroups f rest

/-- `fold` of each group. -/
def foldList {β : Type} (f : MessageOrder → List FieldBase → List (ℤ × List β) → β) :
    List FieldMap → List β
  | [] => []
  | group :: groups => fold f group :: foldList f groups

end

/-- `calculateString`: what it appends. -/
def calculateString : FieldMap → List Char :=
  fold fun _ fields groups => fields.flatMap fun field =>
    field.getFixString ++ ((groups.lookup field.tag).getD []).flatten

/-- `calculateLength`. -/
def calculateLength : FieldMap → ℕ :=
  fold fun _ fields groups =>
    ((fields.filter fun field => field.tag ≠ 8 ∧ field.tag ≠ 9 ∧ field.tag ≠ 10).map
      FieldBase.getLength).sum + (groups.map fun entry => entry.2.sum).sum

/-- `calculateTotal`, where the sum is at most `VALUE_MAX`. -/
def calculateTotal : FieldMap → ℕ :=
  fold fun _ fields groups =>
    ((fields.filter fun field => field.tag ≠ 10).map FieldBase.getTotal).sum +
      (groups.map fun entry => entry.2.sum).sum

end FieldMap

end Harjus.Wire
