import Harjus.Lib.Ascending
import Harjus.Lib.Writes
import Harjus.Proofs.Wire.Integers
import Mathlib.Data.Prod.Lex

/-!
# `Harjus.Proofs.Wire.FieldMap`: field maps keep their order

Each `message_order` is a strict total order of the tags (`compare_iff`), so the fields of a map are
a list in the order of its keys (`Harjus.Lib.Ascending`).

* `sorted_setField`: `setField` keeps the fields sorted and without duplicates.
* `lookup_eq_find`: the binary search of a long map finds what the search of a short one does.
* `getField_setFields`: after any sequence of `setField`, each tag has the text that was set last.
-/

set_option autoImplicit false

namespace Harjus.Wire

open Harjus.Lib

/-! ### The orders -/

/-- What `compareByPosition` compares: tags with a position before those without. -/
def positionKey (position : ℤ → ℕ) (x : ℤ) : ℤ ×ₗ ℤ :=
  if position x ≠ 0 then toLex (0, (position x : ℤ)) else toLex (1, x)

/-- What `MessageOrder.compare` compares. -/
def MessageOrder.key : MessageOrder → ℤ → ℤ ×ₗ ℤ
  | header => positionKey headerPosition
  | trailer => fun x => if x = 10 then toLex (2, 0) else positionKey trailerPosition x
  | normal => fun x => toLex (1, x)
  | group order => fun x =>
    if x ≤ largest order then positionKey (groupPosition order) x else toLex (2, x)

/-- Tags with a position come first, and then the order of the tags: a lexicographic order. -/
theorem compareByPosition_iff (position : ℤ → ℕ) (x y : ℤ) :
    compareByPosition position x y ↔ positionKey position x < positionKey position y := by
  unfold compareByPosition positionKey
  by_cases hx : position x = 0 <;> by_cases hy : position y = 0 <;>
    simp [hx, hy, Prod.Lex.toLex_lt_toLex]

/-- Tags that are compared by position come before the ones put at the end. -/
theorem positionKey_lt (position : ℤ → ℕ) (x z : ℤ) :
    positionKey position x < toLex (2, z) := by
  unfold positionKey
  split <;> simp [Prod.Lex.toLex_lt_toLex]

/-- An order compares the keys of the tags. -/
theorem compare_iff (order : MessageOrder) (x y : ℤ) :
    order.compare x y ↔ order.key x < order.key y := by
  cases order with
  | header => exact compareByPosition_iff headerPosition x y
  | trailer =>
    show trailerCompare x y ↔ _
    unfold trailerCompare MessageOrder.key
    by_cases hx : x = 10
    · by_cases hy : y = 10
      · simp [hx, hy]
      · simp [hx, hy, not_lt_of_gt (positionKey_lt trailerPosition y 0)]
    · by_cases hy : y = 10
      · simp [hx, hy, positionKey_lt trailerPosition x 0]
      · simp [hx, hy, compareByPosition_iff]
  | normal =>
    show decide (x < y) ↔ toLex ((1 : ℤ), x) < toLex ((1 : ℤ), y)
    simp [Prod.Lex.toLex_lt_toLex]
  | group order =>
    show groupCompare order x y ↔ _
    unfold groupCompare MessageOrder.key
    by_cases hx : x ≤ largest order
    · by_cases hy : y ≤ largest order
      · simp [hx, hy, compareByPosition_iff]
      · simp [hx, hy, positionKey_lt]
    · by_cases hy : y ≤ largest order
      · simp [hx, hy, not_lt_of_gt (positionKey_lt (groupPosition order) y x)]
      · simp [hx, hy, Prod.Lex.toLex_lt_toLex]

/-- Tags with the same position are the same, where the positions are different. -/
theorem positionKey_injective {position : ℤ → ℕ}
    (h : ∀ x y, position x ≠ 0 → position x = position y → x = y) :
    Function.Injective (positionKey position) := by
  intro x y heq
  unfold positionKey at heq
  by_cases hx : position x = 0 <;> by_cases hy : position y = 0
  · simpa [hx, hy] using heq
  · simp [hx, hy] at heq
  · simp [hx, hy] at heq
  · have hposition : position x = position y := by simpa [hx, hy] using heq
    exact h x y hx hposition

/-- No two tags of the header share a position. -/
theorem headerPosition_injective (x y : ℤ) (hx : headerPosition x ≠ 0)
    (heq : headerPosition x = headerPosition y) : x = y := by
  unfold headerPosition at hx heq
  grind

/-- No two tags of the trailer share a position. -/
theorem trailerPosition_injective (x y : ℤ) (hx : trailerPosition x ≠ 0)
    (heq : trailerPosition x = trailerPosition y) : x = y := by
  unfold trailerPosition at hx heq
  grind

/-- No two tags of a group share a position. -/
theorem groupPosition_injective (order : List ℤ) (x y : ℤ) (hx : groupPosition order x ≠ 0)
    (heq : groupPosition order x = groupPosition order y) : x = y := by
  unfold groupPosition at hx heq
  have hlength : order.reverse.length = order.length := List.length_reverse
  have hidx : order.reverse.idxOf x = order.reverse.idxOf y := by omega
  have hxlt : order.reverse.idxOf x < order.reverse.length := by omega
  have hylt : order.reverse.idxOf y < order.reverse.length := by omega
  calc
    x = order.reverse[order.reverse.idxOf x] := (List.getElem_idxOf hxlt).symm
    _ = order.reverse[order.reverse.idxOf y] := by simp only [hidx]
    _ = y := List.getElem_idxOf hylt

/-- Different tags have different keys. -/
theorem key_injective (order : MessageOrder) : Function.Injective order.key := by
  cases order with
  | header => exact positionKey_injective headerPosition_injective
  | trailer =>
    intro x y heq
    have hinjective := positionKey_injective trailerPosition_injective
    unfold MessageOrder.key at heq
    -- Tag 10 comes behind every other tag.
    by_cases hx : x = 10 <;> by_cases hy : y = 10
    · rw [hx, hy]
    · simp only [hx, hy, if_true, if_false] at heq
      exact absurd heq (ne_of_gt (positionKey_lt trailerPosition y 0))
    · simp only [hx, hy, if_true, if_false] at heq
      exact absurd heq (ne_of_lt (positionKey_lt trailerPosition x 0))
    · simp only [hx, hy, if_false] at heq
      exact hinjective heq
  | normal =>
    intro x y heq
    have hpair : ((1 : ℤ), x) = (1, y) := heq
    exact congrArg Prod.snd hpair
  | group order =>
    intro x y heq
    have hinjective := positionKey_injective (groupPosition_injective order)
    unfold MessageOrder.key at heq
    -- The tags up to the largest of the order come before the others.
    by_cases hx : x ≤ largest order <;> by_cases hy : y ≤ largest order
    · simp only [hx, hy, if_true] at heq
      exact hinjective heq
    · simp only [hx, hy, if_true, if_false] at heq
      exact absurd heq (ne_of_lt (positionKey_lt _ x y))
    · simp only [hx, hy, if_true, if_false] at heq
      exact absurd heq (ne_of_gt (positionKey_lt _ y x))
    · simp only [hx, hy, if_false] at heq
      have hpair : ((2 : ℤ), x) = (2, y) := heq
      exact congrArg Prod.snd hpair

/-- No tag comes before `BeginString`. -/
theorem headerCompare_eight (x : ℤ) : headerCompare x 8 = false := by
  unfold headerCompare compareByPosition headerPosition
  grind

/-- No other tag comes before `BodyLength`. -/
theorem headerCompare_nine {x : ℤ} (h : x ≠ 8) : headerCompare x 9 = false := by
  unfold headerCompare compareByPosition headerPosition
  grind

/-- No tag comes after `CheckSum`. -/
theorem trailerCompare_ten (x : ℤ) : trailerCompare 10 x = false := if_pos rfl

/-- A tag that does not come after another one has no greater key. -/
theorem key_le {order : MessageOrder} {x y : ℤ} (h : order.compare y x = false) :
    order.key x ≤ order.key y := by
  refine not_lt.mp fun hlt => ?_
  rw [(compare_iff order y x).mpr hlt] at h
  cases h

/-- The key of a field in a map with an order. -/
def FieldBase.key (order : MessageOrder) (field : FieldBase) : ℤ ×ₗ ℤ := order.key field.tag

/-! ### Sorted maps -/

namespace FieldMap

/-- The fields are sorted, and no tag stands twice. -/
def Sorted (map : FieldMap) : Prop := Ascending (FieldBase.key map.order) map.fields

/-- Other fields keep the order of the map. -/
@[simp] theorem order_withFields (map : FieldMap) (fields : List FieldBase) :
    (map.withFields fields).order = map.order := rfl

/-- The map has the fields that it is given. -/
@[simp] theorem fields_withFields (map : FieldMap) (fields : List FieldBase) :
    (map.withFields fields).fields = fields := rfl

/-- Other fields keep the groups of the map. -/
@[simp] theorem groups_withFields (map : FieldMap) (fields : List FieldBase) :
    (map.withFields fields).groups = map.groups := rfl

/-- An empty map is sorted. -/
theorem sorted_new (order : MessageOrder) : (FieldMap.new order).Sorted := .nil

/-- In a sorted map, `lookup` finds the field with the tag, with either search. -/
theorem lookup_eq_find {map : FieldMap} (h : map.Sorted) (tag : ℤ) :
    map.lookup tag = map.fields.find? fun field => field.tag = tag := by
  unfold lookup
  split
  · congr 1
    funext field
    simp [eq_comm]
  · have hsearch := Ascending.search_eq_find h (map.order.key tag)
    have hkey : ∀ field : FieldBase, field.key map.order = map.order.key tag ↔ field.tag = tag :=
      fun field => (key_injective map.order).eq_iff
    have hbelow : (fun field : FieldBase => map.order.compare field.tag tag)
        = fun field => decide (field.key map.order < map.order.key tag) := by
      funext field
      rw [Bool.eq_iff_iff, compare_iff, decide_eq_true_iff]
      rfl
    simp only [hkey] at hsearch
    rw [hbelow, ← hsearch, search]
    cases map.fields.dropWhile fun field => decide (field.key map.order < map.order.key tag) with
    | nil => rfl
    | cons field rest => exact if_congr (hkey field).symm rfl rfl

/-- `lookup` finds the field with the tag, in short maps and in long ones. -/
theorem lookup_eq_some_iff {map : FieldMap} (h : map.Sorted) {tag : ℤ} {field : FieldBase} :
    map.lookup tag = some field ↔ field ∈ map.fields ∧ field.tag = tag := by
  have hfind := Ascending.find_eq_some_iff h (k := map.order.key tag) (x := field)
  simp only [FieldBase.key, (key_injective map.order).eq_iff] at hfind
  rw [lookup_eq_find h, hfind]

/-- A tag is set when some field has it. -/
theorem isSetField_iff {map : FieldMap} (h : map.Sorted) {tag : ℤ} :
    map.isSetField tag ↔ ∃ field ∈ map.fields, field.tag = tag := by
  rw [isSetField, Option.isSome_iff_exists]
  simp only [lookup_eq_some_iff h]

/-- A field with a new tag is put where the order says. -/
theorem insertField_eq {order : MessageOrder} {fields : List FieldBase} {field : FieldBase}
    (h : Ascending (FieldBase.key order) fields) (hnew : ∀ other ∈ fields, other.tag ≠ field.tag) :
    insertField order field fields = insertBefore (FieldBase.key order) field fields := by
  have hcompare : (fun other : FieldBase => decide (¬ order.compare field.tag other.tag = true))
      = fun other => decide (¬ field.key order < other.key order) := by
    funext other
    simp only [compare_iff]
    rfl
  unfold insertField
  split
  · rename_i hlast
    rw [List.getLast?_eq_none_iff.mp hlast]
    rfl
  · rename_i last hlast
    have hmem : last ∈ fields := List.mem_of_getLast? hlast
    rw [if_congr (or_iff_left (hnew last hmem)) rfl rfl]
    split
    · rename_i hbelow
      -- The new tag is behind the last one, so behind all.
      have hlt : last.key order < field.key order := (compare_iff order _ _).mp hbelow
      rw [insertBefore_of_forall_lt fun other hother => ?_]
      obtain ⟨before, rfl⟩ : ∃ before, fields = before ++ [last] :=
        ⟨fields.dropLast, (List.dropLast_append_getLast? last hlast).symm⟩
      rcases List.mem_append.mp hother with hbefore | heq
      · exact lt_trans ((List.pairwise_append.mp h).2.2 other hbefore last (by simp)) hlt
      · rw [List.mem_singleton.mp heq]
        exact hlt
    · rw [hcompare, insertBefore]

/-- A new field is put between the others, and none is lost. -/
theorem mem_insertField {order : MessageOrder} {fields : List FieldBase} {field other : FieldBase}
    (h : Ascending (FieldBase.key order) fields) (hnew : ∀ f ∈ fields, f.tag ≠ field.tag) :
    other ∈ insertField order field fields ↔ other = field ∨ other ∈ fields := by
  rw [insertField_eq h hnew, mem_insertBefore]

/-- A field with a new tag goes to its place. -/
theorem sorted_addField {map : FieldMap} (h : map.Sorted) {field : FieldBase}
    (hnew : ∀ other ∈ map.fields, other.tag ≠ field.tag) : (map.addField field).Sorted := by
  show Ascending _ (insertField map.order field map.fields)
  rw [insertField_eq h hnew]
  exact h.insertBefore fun other hother => (key_injective map.order).ne (hnew other hother)

/-- In a sorted map, `overwrite` changes the field with the tag. -/
theorem overwrite_eq {order : MessageOrder} {fields : List FieldBase}
    (h : Ascending (FieldBase.key order) fields) (tag : ℤ) (string : List Char) :
    overwrite tag string fields
      = fields.map fun field => if field.tag = tag then field.setString string else field := by
  induction fields with
  | nil => rfl
  | cons field fields ih =>
    rw [overwrite, List.map_cons]
    split
    · rename_i htag
      have hrest : fields.map (fun field => if field.tag = tag then field.setString string else field)
          = fields.map id := by
        refine List.map_congr_left fun other hother => if_neg fun heq => ?_
        have hlt : order.key field.tag < order.key other.tag := h.lt_of_cons hother
        rw [htag, heq] at hlt
        exact lt_irrefl _ hlt
      rw [hrest, List.map_id]
    · rw [ih h.of_cons]

/-- A map stays sorted. -/
theorem sorted_setField {map : FieldMap} (h : map.Sorted) (field : FieldBase) :
    (map.setField field).Sorted := by
  unfold setField
  split
  · show Ascending _ (overwrite field.tag field.string map.fields)
    rw [overwrite_eq h]
    refine List.pairwise_map.mpr (List.Pairwise.imp (fun {a b} hlt => ?_) h)
    rw [order_withFields]
    have hkey : ∀ f : FieldBase, (if f.tag = field.tag then f.setString field.string else f).key
        map.order = f.key map.order := by
      intro f
      split <;> rfl
    rw [hkey, hkey]
    exact hlt
  · rename_i hset
    refine sorted_addField h fun other hother heq => hset ?_
    exact (isSetField_iff h).mpr ⟨other, hother, heq⟩

/-- The text of a field, `getField`. -/
def getField (map : FieldMap) (tag : ℤ) : Option (List Char) :=
  (map.lookup tag).map FieldBase.string

/-- The text under a tag is that of the field with the tag. -/
theorem getField_eq_some_iff {map : FieldMap} (h : map.Sorted) {tag : ℤ} {string : List Char} :
    map.getField tag = some string ↔
      ∃ field ∈ map.fields, field.tag = tag ∧ field.string = string := by
  rw [getField, Option.map_eq_some_iff]
  simp only [lookup_eq_some_iff h, and_assoc]

/-- The fields after `setField`: the new one, and those with other tags. -/
theorem mem_setField {map : FieldMap} (h : map.Sorted) {tag : ℤ} {string : List Char}
    {field : FieldBase} :
    field ∈ (map.setField (.new tag string)).fields ↔
      field = .new tag string ∨ (field ∈ map.fields ∧ field.tag ≠ tag) := by
  unfold setField
  split
  · rename_i hset
    obtain ⟨old, hold, htag⟩ := (isSetField_iff h).mp hset
    have hnew : ∀ other : FieldBase, other.tag = tag → other.setString string = .new tag string := by
      rintro other rfl
      rfl
    show field ∈ overwrite tag string map.fields ↔ _
    rw [overwrite_eq h, List.mem_map]
    constructor
    · rintro ⟨other, hother, rfl⟩
      by_cases hsame : other.tag = tag
      · rw [if_pos hsame]
        exact Or.inl (hnew other hsame)
      · rw [if_neg hsame]
        exact Or.inr ⟨hother, hsame⟩
    · rintro (rfl | ⟨hfield, hne⟩)
      · exact ⟨old, hold, (if_pos htag).trans (hnew old htag)⟩
      · exact ⟨field, hfield, if_neg hne⟩
  · rename_i hset
    have hnew : ∀ other ∈ map.fields, other.tag ≠ tag :=
      fun other hother heq => hset ((isSetField_iff h).mpr ⟨other, hother, heq⟩)
    show field ∈ insertField map.order (.new tag string) map.fields ↔ _
    rw [mem_insertField h hnew]
    have hne := hnew field
    tauto

/-- `setField` sets the text of its tag and of no other. -/
theorem getField_setField {map : FieldMap} (h : map.Sorted) (tag : ℤ) (string : List Char) :
    (map.setField (.new tag string)).getField = Function.update map.getField tag (some string) := by
  funext other
  ext text
  rw [getField_eq_some_iff (sorted_setField h _)]
  simp only [mem_setField h]
  by_cases heq : other = tag
  · rw [heq, Function.update_self]
    constructor
    · rintro ⟨field, rfl | ⟨-, hne⟩, htag, rfl⟩
      · rfl
      · exact absurd htag hne
    · intro htext
      exact ⟨_, Or.inl rfl, rfl, Option.some.inj htext⟩
  · rw [Function.update_of_ne heq, getField_eq_some_iff h]
    constructor
    · rintro ⟨field, rfl | ⟨hfield, -⟩, htag, htext⟩
      · exact absurd htag.symm heq
      · exact ⟨field, hfield, htag, htext⟩
    · rintro ⟨field, hfield, rfl, htext⟩
      exact ⟨field, Or.inr ⟨hfield, heq⟩, rfl, htext⟩

/-- The fields are set one after another. -/
def setFields (map : FieldMap) (writes : List (ℤ × List Char)) : FieldMap :=
  writes.foldl (fun map write => map.setField (.new write.1 write.2)) map

/-- After any sequence of `setField` the fields are sorted, and each tag has the text that was set
last, or the one that it had. -/
theorem getField_setFields {map : FieldMap} (h : map.Sorted) (writes : List (ℤ × List Char)) :
    (map.setFields writes).Sorted ∧
      ∀ tag, (map.setFields writes).getField tag = (lastWrite writes tag).or (map.getField tag) := by
  induction writes generalizing map with
  | nil => exact ⟨h, fun tag => rfl⟩
  | cons write writes ih =>
    obtain ⟨hsorted, hget⟩ := ih (sorted_setField h (.new write.1 write.2))
    refine ⟨hsorted, fun tag => (hget tag).trans ?_⟩
    rw [getField_setField h, lastWrite_cons, Option.or_assoc]
    congr 1
    by_cases htag : write.1 = tag
    · rw [if_pos htag, htag, Function.update_self, Option.some_or]
    · rw [if_neg htag, Function.update_of_ne (Ne.symm htag), Option.none_or]

/-- A header to which 35, 8 and 35 again are written holds 8 in front of the last 35. -/
theorem getField_setFields_header :
    let header := (FieldMap.new .header).setFields [(35, ['D']), (8, ['F']), (35, ['8'])]
    header.Sorted ∧ header.getField 35 = some ['8'] ∧ header.getField 8 = some ['F'] ∧
      header.getField 49 = none := by
  obtain ⟨hsorted, hget⟩ :=
    getField_setFields (sorted_new .header) [(35, ['D']), (8, ['F']), (35, ['8'])]
  exact ⟨hsorted, (hget 35).trans (by decide), (hget 8).trans (by decide),
    (hget 49).trans (by decide)⟩

end FieldMap

end Harjus.Wire
