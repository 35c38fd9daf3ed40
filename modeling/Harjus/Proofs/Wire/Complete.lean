import Harjus.Proofs.Wire.Framing
import Harjus.Proofs.Wire.Text

/-!
# `Harjus.Proofs.Wire.Complete`: the text of a message is a frame

`toString` sets the body length and the checksum of a message and writes it.

* `tidy_addGroupWithCount`: a group that is added with its count keeps a map tidy.
* `complete_bodyLength`, `complete_checkSum`: the two fields have the numbers that `validate`
  computes of the message.
* `isFrame_toString`: the text is a frame. The body length is the number of bytes from the field
  after it up to the checksum.
* `toString_checkSum`: the text ends with the checksum of all the bytes before it.
-/

set_option autoImplicit false

namespace Harjus.Wire

open Harjus.Lib
open Harjus.FIX (SOH IsFrame Frame)
open Harjus.FIX.IntConvertor (VALUE_MAX)

/-! ### Measured fields -/

namespace FieldBase

/-- The metrics of the field, if it has any, are those of its text. -/
def Measured (field : FieldBase) : Prop :=
  field.metrics = .none ∨ field.metrics = .calculateMetrics field.getFixString

instance (field : FieldBase) : Decidable field.Measured :=
  inferInstanceAs (Decidable (field.metrics = .none ∨ _))

/-- A new field has no metrics yet. -/
theorem measured_new (tag : ℤ) (string : List Char) : (FieldBase.new tag string).Measured :=
  Or.inl rfl

/-- The text of a field is its tag and its value with two bytes more. -/
theorem length_getFixString (field : FieldBase) :
    field.getFixString.length = (integerToString field.tag).length + field.string.length + 2 := by
  simp only [getFixString, List.length_append, List.length_cons, List.length_nil]
  omega

/-- A measured field gets the metrics of its text, or has them. -/
theorem calculate_eq {field : FieldBase} (h : field.Measured) :
    field.calculate = { field with metrics := .calculateMetrics field.getFixString } := by
  unfold calculate
  rcases h with h | h
  · rw [if_neg (by rw [h]; decide)]
  · split
    · rw [← h]
    · rfl

/-- The length of a measured field is that of its text. -/
theorem getLength_eq {field : FieldBase} (h : field.Measured) :
    field.getLength = field.getFixString.length := by
  rw [getLength, calculate_eq h]
  rfl

end FieldBase

/-! ### Setting a field -/

namespace FieldMap

/-- Setting a field keeps the order of the map. -/
theorem order_setField (map : FieldMap) (field : FieldBase) :
    (map.setField field).order = map.order := by
  unfold setField
  split <;> rfl

/-- Setting a field keeps the groups of the map. -/
theorem groups_setField (map : FieldMap) (field : FieldBase) :
    (map.setField field).groups = map.groups := by
  unfold setField
  split <;> rfl

/-- The fields with other tags stay, in the same order. -/
theorem filter_setField {map : FieldMap} (h : map.Sorted) {tag : ℤ} (string : List Char)
    {p : FieldBase → Bool} (hp : ∀ field, p field → field.tag ≠ tag) :
    (map.setField (.new tag string)).fields.filter p = map.fields.filter p := by
  have hsorted : Ascending (FieldBase.key map.order) (map.setField (.new tag string)).fields := by
    have hset := sorted_setField h (.new tag string)
    rwa [Sorted, order_setField] at hset
  refine Ascending.ext (hsorted.sublist List.filter_sublist) (List.Pairwise.sublist
    List.filter_sublist h) fun field => ?_
  rw [List.mem_filter, List.mem_filter, mem_setField h]
  constructor
  · rintro ⟨rfl | ⟨hfield, -⟩, htag⟩
    · exact absurd rfl (hp _ htag)
    · exact ⟨hfield, htag⟩
  · rintro ⟨hfield, htag⟩
    exact ⟨Or.inr ⟨hfield, hp field htag⟩, htag⟩

/-- Setting a field keeps a map tidy: the field goes to its place, or gets the new text there. -/
theorem tidy_setField {map : FieldMap} (h : map.Tidy) (tag : ℤ) (string : List Char) :
    (map.setField (.new tag string)).Tidy := by
  have hsorted := sorted_setField h.sorted (.new tag string)
  have hmem := fun field => @mem_setField map h.sorted tag string field
  have horder := order_setField map (.new tag string)
  have hgroups := groups_setField map (.new tag string)
  cases hset : map.setField (.new tag string) with
  | mk order fields groups =>
    rw [hset] at hsorted hmem hgroups
    cases h with
    | @mk order' fields' groups' hfields hkeys hne htags hinner =>
      have heq : groups = groups' := hgroups
      subst heq
      refine .mk hsorted hkeys hne (fun entry hentry => ?_) hinner
      obtain ⟨field, hfield, htag⟩ := htags entry hentry
      by_cases hsame : field.tag = tag
      · exact ⟨.new tag string, (hmem _).mpr (Or.inl rfl), hsame.symm.trans htag⟩
      · exact ⟨field, (hmem field).mpr (Or.inr ⟨hfield, hsame⟩), htag⟩

/-! ### Adding a group -/

/-- A group that is added adds its tag, and no other one. -/
theorem keys_add (tag : ℤ) (group : FieldMap) (groups : Groups) (key : ℤ) :
    (∃ entry ∈ groups.add tag group, entry.1 = key)
      ↔ key = tag ∨ ∃ entry ∈ groups, entry.1 = key := by
  induction groups with
  | nil => simp [Groups.add, eq_comm]
  | cons entry groups ih =>
    obtain ⟨first, entries⟩ := entry
    rw [Groups.add]
    split_ifs with hlt hgt
    · simp [eq_comm]
    · simp only [List.exists_mem_cons_iff, ih]
      tauto
    · have hfirst : first = tag := le_antisymm (not_lt.mp hlt) (not_lt.mp hgt)
      simp only [List.exists_mem_cons_iff, hfirst, eq_comm]
      tauto

/-- A group that is added keeps the tags in order. -/
theorem ascending_add {groups : Groups} (h : Ascending Prod.fst groups) (tag : ℤ)
    (group : FieldMap) : Ascending Prod.fst (groups.add tag group) := by
  induction groups with
  | nil => exact List.pairwise_singleton _ _
  | cons entry groups ih =>
    obtain ⟨first, entries⟩ := entry
    have hbelow : ∀ other ∈ groups, first < other.1 := fun other hother => h.lt_of_cons hother
    rw [Groups.add]
    split_ifs with hlt hgt
    · refine List.pairwise_cons.mpr ⟨fun other hother => ?_, h⟩
      rcases List.mem_cons.mp hother with rfl | hother
      · exact hlt
      · exact lt_trans hlt (hbelow other hother)
    · refine List.pairwise_cons.mpr ⟨fun other hother => ?_, ih h.of_cons⟩
      rcases (keys_add tag group groups other.1).mp ⟨other, hother, rfl⟩ with
        heq | ⟨entry, hin, heq⟩
      · exact heq ▸ hgt
      · exact heq ▸ hbelow entry hin
    · exact List.pairwise_cons.mpr ⟨hbelow, h.of_cons⟩

/-- What is under a tag afterwards was there before, or is the new group. -/
theorem mem_add {tag : ℤ} {group : FieldMap} {groups : Groups} {entry : ℤ × List FieldMap}
    (h : entry ∈ groups.add tag group) : entry ∈ groups ∨ entry.2 ≠ [] ∧
      ∀ other ∈ entry.2, other = group ∨ ∃ before ∈ groups, other ∈ before.2 := by
  induction groups with
  | nil =>
    rw [List.mem_singleton.mp h]
    exact Or.inr ⟨List.cons_ne_nil _ _, fun other hother => Or.inl (List.mem_singleton.mp hother)⟩
  | cons first groups ih =>
    obtain ⟨key, entries⟩ := first
    rw [Groups.add] at h
    split_ifs at h
    · rcases List.mem_cons.mp h with rfl | h
      · exact Or.inr ⟨List.cons_ne_nil _ _, fun other hother =>
          Or.inl (List.mem_singleton.mp hother)⟩
      · exact Or.inl h
    · rcases List.mem_cons.mp h with rfl | h
      · exact Or.inl List.mem_cons_self
      · rcases ih h with hin | ⟨hne, hall⟩
        · exact Or.inl (List.mem_cons_of_mem _ hin)
        · refine Or.inr ⟨hne, fun other hother => (hall other hother).imp_right ?_⟩
          rintro ⟨before, hbefore, hmem⟩
          exact ⟨before, List.mem_cons_of_mem _ hbefore, hmem⟩
    · rcases List.mem_cons.mp h with rfl | h
      · refine Or.inr ⟨by simp, fun other hother => ?_⟩
        rcases List.mem_append.mp hother with hother | hother
        · exact Or.inr ⟨(key, entries), List.mem_cons_self, hother⟩
        · exact Or.inl (List.mem_singleton.mp hother)
      · exact Or.inl (List.mem_cons_of_mem _ h)

/-- A group that is added with its count stands under the field with the count. -/
theorem tidy_addGroupWithCount {map group : FieldMap} (h : map.Tidy) (tag : ℤ)
    (hgroup : group.Tidy) :
    (map.addGroupWithCount tag group).Tidy := by
  cases h with
  | @mk order fields groups hfields hkeys hne htags hinner =>
    set count := integerToString ((groups.add tag group).find tag).length with hcount
    have hadded : (mk order fields groups).addGroupWithCount tag group
        = (mk order fields (groups.add tag group)).setField (.new tag count) := rfl
    have hbefore : (mk order fields (groups.add tag group)).Sorted := hfields
    have hmem := fun field => @mem_setField _ hbefore tag count field
    have hsorted := sorted_setField hbefore (.new tag count)
    have horder := order_setField (mk order fields (groups.add tag group)) (.new tag count)
    have hgroups := groups_setField (mk order fields (groups.add tag group)) (.new tag count)
    rw [hadded]
    cases hset : (mk order fields (groups.add tag group)).setField (.new tag count) with
    | mk order' fields' groups' =>
      rw [hset] at hmem hsorted hgroups
      have heq : groups' = groups.add tag group := hgroups
      subst heq
      refine .mk hsorted (ascending_add hkeys tag group) (fun entry hentry => ?_)
        (fun entry hentry => ?_) fun entry hentry inner hin => ?_
      · exact (mem_add hentry).elim (hne entry) fun hnew => hnew.1
      · -- The new count field stands for its tag, and the fields of the other tags are kept.
        by_cases hsame : entry.1 = tag
        · exact ⟨.new tag count, (hmem _).mpr (Or.inl rfl), hsame.symm⟩
        · obtain ⟨other, hother, hkey⟩ :=
            ((keys_add tag group groups entry.1).mp ⟨entry, hentry, rfl⟩).resolve_left hsame
          obtain ⟨field, hfield, htag⟩ := htags other hother
          refine ⟨field, (hmem field).mpr (Or.inr ⟨hfield, ?_⟩), htag.trans hkey⟩
          rwa [htag, hkey]
      · rcases mem_add hentry with hold | ⟨-, hall⟩
        · exact hinner entry hold inner hin
        · rcases hall inner hin with rfl | ⟨before, hmemBefore, hinBefore⟩
          · exact hgroup
          · exact hinner before hmemBefore inner hinBefore

/-! ### Measures -/

/-- The length of a map is that of its counted fields and of its groups. -/
theorem calculateLength_mk (map : FieldMap) : map.calculateLength
      = ((map.fields.filter fun field => field.tag ≠ 8 ∧ field.tag ≠ 9 ∧ field.tag ≠ 10).map
          FieldBase.getLength).sum
        + (map.groups.map fun entry => (entry.2.map calculateLength).sum).sum := by
  cases map with
  | mk order fields groups =>
    rw [calculateLength, fold_mk, List.map_map]
    rfl

/-- The total of a map is that of its fields without the checksum and of its groups. -/
theorem calculateTotal_mk (map : FieldMap) : map.calculateTotal
      = ((map.fields.filter fun field => field.tag ≠ 10).map FieldBase.getTotal).sum
        + (map.groups.map fun entry => (entry.2.map calculateTotal).sum).sum := by
  cases map with
  | mk order fields groups =>
    rw [calculateTotal, fold_mk, List.map_map]
    rfl

/-- An uncounted field does not change the length. -/
theorem calculateLength_setField {map : FieldMap} (h : map.Sorted) {tag : ℤ}
    (htag : tag = 9 ∨ tag = 10) (string : List Char) :
    (map.setField (.new tag string)).calculateLength = map.calculateLength := by
  rw [calculateLength_mk, calculateLength_mk map, groups_setField, filter_setField h]
  intro field hfield
  have hother : field.tag ≠ 8 ∧ field.tag ≠ 9 ∧ field.tag ≠ 10 := of_decide_eq_true hfield
  omega

/-- The checksum does not change the total. -/
theorem calculateTotal_setField {map : FieldMap} (h : map.Sorted) (string : List Char) :
    (map.setField (.new 10 string)).calculateTotal = map.calculateTotal := by
  rw [calculateTotal_mk, calculateTotal_mk map, groups_setField, filter_setField h]
  intro field hfield
  exact of_decide_eq_true hfield

end FieldMap

namespace Message

/-- The fields of the header, the body and the trailer are sorted. -/
structure Sorted (message : Message) : Prop where
  header : message.header.Sorted
  body : message.body.Sorted
  trailer : message.trailer.Sorted

/-- The body length is the same with the two fields. -/
theorem complete_bodyLength {message : Message} (h : message.Sorted) :
    message.complete.bodyLength = message.bodyLength := by
  show (message.header.setField _).calculateLength + message.body.calculateLength +
    (message.trailer.setField _).calculateLength = _
  rw [FieldMap.calculateLength_setField h.header (Or.inl rfl),
    FieldMap.calculateLength_setField h.trailer (Or.inr rfl)]
  rfl

/-- The checksum is that of the message with its body length. -/
theorem complete_checkSum {message : Message} (h : message.Sorted) :
    message.complete.checkSum = checkSum { message with
      header := message.header.setField (.new 9 (integerToString message.bodyLength)) } := by
  show ((message.header.setField _).calculateTotal + message.body.calculateTotal +
    (message.trailer.setField _).calculateTotal) % 256 = _
  rw [FieldMap.calculateTotal_setField h.trailer]
  rfl

/-! ### The checks -/

/-- A number that has been set is read as it was written. -/
theorem expected_setField {map : FieldMap} (h : map.Sorted) {tag : ℤ} {string : List Char} {n : ℤ}
    (hconvert : FIX.IntConvertor.convert string = some n) (fieldName : String) :
    expected (map.setField (.new tag string)) tag fieldName = .ok n := by
  have hlookup : (map.setField (.new tag string)).lookup tag = some (.new tag string) :=
    (FieldMap.lookup_eq_some_iff (FieldMap.sorted_setField h _)).mpr
      ⟨(FieldMap.mem_setField h).mpr (Or.inl rfl), rfl⟩
  rw [expected, hlookup]
  simp only [FieldBase.new, hconvert]

/-- A message with its two fields passes the checks. -/
theorem validate_complete {message : Message} (h : message.Sorted)
    (hlength : message.bodyLength ≤ VALUE_MAX) : message.complete.validate = .ok () := by
  have hbodyLength : expected message.complete.header 9 "BodyLength"
      = .ok (message.complete.bodyLength : ℤ) := by
    rw [complete_bodyLength h]
    exact expected_setField h.header (convert_integerToString (by omega) (by omega)) _
  have hcheckSum : expected message.complete.trailer 10 "CheckSum"
      = .ok (message.complete.checkSum : ℤ) := by
    rw [complete_checkSum h]
    refine expected_setField h.trailer (convert_checkSumText ?_) _
    exact le_trans (Nat.le_of_lt (Nat.mod_lt _ (show 0 < 256 by omega))) (by decide)
  rw [validate, hbodyLength]
  refine (if_neg (not_not_intro rfl)).trans ?_
  rw [hcheckSum]
  exact if_neg (not_not_intro rfl)

end Message

/-! ### The text -/

/-- `8`, `9` and `10` stand in a map only where they are its own fields, and have no groups. -/
structure FieldMap.Places (own : List ℤ) (map : FieldMap) : Prop where
  fields : ∀ field ∈ map.fields, uncounted field.tag → field.tag ∈ own
  groups : ∀ entry ∈ map.groups, uncounted entry.1 = false ∧
    ∀ group ∈ entry.2, ∀ field ∈ group.flat, uncounted field.tag = false

namespace FieldMap

/-- The fields that are written for some fields of a map. -/
def part (map : FieldMap) (fields : List FieldBase) : List FieldBase :=
  fields.flatMap fun field => field :: (map.groups.find field.tag).flatMap flat

/-- All the fields of a map are the part that has all of them. -/
theorem flat_eq (map : FieldMap) : map.flat = map.part map.fields := by
  cases map with
  | mk order fields groups => exact flat_mk order fields groups

/-- A part starts with its first field and the groups under it. -/
theorem part_cons (map : FieldMap) (field : FieldBase) (fields : List FieldBase) :
    map.part (field :: fields)
      = field :: ((map.groups.find field.tag).flatMap flat ++ map.part fields) := by
  rw [part, List.flatMap_cons]
  rfl

/-- A part may be cut in two. -/
theorem part_append (map : FieldMap) (fields fields' : List FieldBase) :
    map.part (fields ++ fields') = map.part fields ++ map.part fields' := List.flatMap_append

/-- What is written in a part is one of its fields, or in a group of the map. -/
theorem mem_part {map : FieldMap} {fields : List FieldBase} {field : FieldBase}
    (h : field ∈ map.part fields) :
    field ∈ fields ∨ ∃ entry ∈ map.groups, ∃ group ∈ entry.2, field ∈ group.flat := by
  obtain ⟨other, hother, hfield⟩ := List.mem_flatMap.mp h
  rcases List.mem_cons.mp hfield with rfl | hfield
  · exact Or.inl hother
  · obtain ⟨group, hgroup, hfield⟩ := List.mem_flatMap.mp hfield
    obtain ⟨entry, hentry, -, hmem⟩ := mem_find hgroup
    exact Or.inr ⟨entry, hentry, group, hmem, hfield⟩

/-- The fields of a map and those of its groups have a property. -/
structure Every (p : FieldBase → Prop) (map : FieldMap) : Prop where
  fields : ∀ field ∈ map.fields, p field
  groups : ∀ entry ∈ map.groups, ∀ group ∈ entry.2, ∀ field ∈ group.flat, p field

namespace Every
variable {p : FieldBase → Prop} {map : FieldMap}

/-- What every field of a map has, every field of a part has. -/
theorem part (h : map.Every p) {fields : List FieldBase}
    (hfields : ∀ field ∈ fields, field ∈ map.fields) : ∀ field ∈ map.part fields, p field := by
  intro field hfield
  rcases mem_part hfield with hmem | ⟨entry, hentry, group, hgroup, hmem⟩
  · exact h.fields field (hfields field hmem)
  · exact h.groups entry hentry group hgroup field hmem

/-- A new field with the property keeps it a property of every field. -/
theorem setField (h : map.Every p) (hsorted : map.Sorted) {tag : ℤ} {string : List Char}
    (hnew : p (.new tag string)) : (map.setField (.new tag string)).Every p where
  fields := by
    intro field hfield
    rcases (mem_setField hsorted).mp hfield with rfl | ⟨hmem, -⟩
    · exact hnew
    · exact h.fields field hmem
  groups := by
    rw [groups_setField]
    exact h.groups

end Every

namespace Places
variable {own : List ℤ} {map : FieldMap}

/-- An own field has no groups. -/
theorem find_eq_nil (h : map.Places own) {tag : ℤ} (htag : uncounted tag) :
    map.groups.find tag = [] := by
  refine FieldMap.find_eq_nil fun entry hentry heq => ?_
  have hcounted := (h.groups entry hentry).1
  rw [heq, htag] at hcounted
  cases hcounted

/-- Without its own fields, the fields of a map are all counted. -/
theorem counted_part (h : map.Places own) {fields : List FieldBase}
    (hfields : ∀ field ∈ fields, field ∈ map.fields ∧ field.tag ∉ own) :
    (map.part fields).filter (fun field => !uncounted field.tag) = map.part fields := by
  refine List.filter_eq_self.mpr fun field hfield => ?_
  rcases mem_part hfield with hmem | ⟨entry, hentry, group, hgroup, hmem⟩
  · obtain ⟨hin, hown⟩ := hfields field hmem
    cases huncounted : uncounted field.tag with
    | true => exact absurd (h.fields field hin huncounted) hown
    | false => rfl
  · rw [(h.groups entry hentry).2 group hgroup field hmem]
    rfl

/-- Setting an own field keeps the fields of the frame in their places. -/
theorem setField (h : map.Places own) (hsorted : map.Sorted) {tag : ℤ} (htag : tag ∈ own)
    (string : List Char) : (map.setField (.new tag string)).Places own where
  fields := by
    intro field hfield huncounted
    rcases (mem_setField hsorted).mp hfield with rfl | ⟨hmem, -⟩
    · exact htag
    · exact h.fields field hmem huncounted
  groups := by
    rw [groups_setField]
    exact h.groups

end Places

/-- A field of the frame does not count. -/
theorem filter_uncounted {field : FieldBase} (h : uncounted field.tag) (fields : List FieldBase) :
    (field :: fields).filter (fun field => !uncounted field.tag)
      = fields.filter fun field => !uncounted field.tag :=
  List.filter_cons_of_neg (by rw [h]; decide)

/-- The length of the text of measured fields. -/
theorem length_flatMap_getFixString {fields : List FieldBase}
    (h : ∀ field ∈ fields, field.Measured) :
    (fields.flatMap FieldBase.getFixString).length = (fields.map FieldBase.getLength).sum := by
  rw [List.flatMap_def, List.length_flatten, List.map_map]
  congr 1
  exact List.map_congr_left fun field hfield => (FieldBase.getLength_eq (h field hfield)).symm

/-- After `SOH` and any fields there is a `SOH`. -/
theorem soh_flatMap_getFixString (fields : List FieldBase) :
    ∃ before, SOH :: fields.flatMap FieldBase.getFixString = before ++ [SOH] := by
  rcases List.eq_nil_or_concat fields with rfl | ⟨fields, field, rfl⟩
  · exact ⟨[], rfl⟩
  · refine ⟨SOH :: (fields.flatMap FieldBase.getFixString ++
      (integerToString field.tag ++ '=' :: field.string)), ?_⟩
    simp only [List.concat_eq_append, List.flatMap_append, List.flatMap_cons, List.flatMap_nil,
      FieldBase.getFixString, List.append_nil, List.append_assoc, List.cons_append]

/-- A header with a version and a body length starts with the two. -/
theorem header_fields {map : FieldMap} (h : map.Sorted) (horder : map.order = .header)
    {version length : FieldBase} (hversion : version ∈ map.fields) (hlength : length ∈ map.fields)
    (height : version.tag = 8) (hnine : length.tag = 9) :
    ∃ rest, map.fields = version :: length :: rest ∧
      ∀ field ∈ rest, field ∈ map.fields ∧ field.tag ∉ ([8, 9] : List ℤ) := by
  rw [Sorted, horder] at h
  -- No tag comes before 8, and none but 8 before 9.
  obtain ⟨rest, hrest⟩ := h.eq_cons_of_least hversion fun field _ => by
    show MessageOrder.key .header version.tag ≤ _
    rw [height]
    exact key_le (headerCompare_eight field.tag)
  rw [hrest] at h hlength
  have hin : length ∈ rest := by
    rcases List.mem_cons.mp hlength with heq | hin
    · rw [heq, height] at hnine
      exact absurd hnine (by decide)
    · exact hin
  have hne : ∀ field ∈ rest, field.tag ≠ 8 := fun field hfield heq => by
    have hlt : MessageOrder.key .header version.tag < MessageOrder.key .header field.tag :=
      h.lt_of_cons hfield
    rw [height, heq] at hlt
    exact lt_irrefl _ hlt
  obtain ⟨rest', hrest'⟩ := h.of_cons.eq_cons_of_least hin fun field hfield => by
    show MessageOrder.key .header length.tag ≤ _
    rw [hnine]
    exact key_le (headerCompare_nine (hne field hfield))
  subst hrest'
  refine ⟨rest', hrest, fun field hfield => ⟨hrest ▸ by simp [hfield], ?_⟩⟩
  have hlt : MessageOrder.key .header length.tag < MessageOrder.key .header field.tag :=
    h.of_cons.lt_of_cons hfield
  have hnot : field.tag ≠ 9 := fun heq => by
    rw [hnine, heq] at hlt
    exact lt_irrefl _ hlt
  simp [hne field (List.mem_cons_of_mem _ hfield), hnot]

/-- A trailer with a checksum ends with it. -/
theorem trailer_fields {map : FieldMap} (h : map.Sorted) (horder : map.order = .trailer)
    {checkSum : FieldBase} (hcheckSum : checkSum ∈ map.fields) (hten : checkSum.tag = 10) :
    ∃ rest, map.fields = rest ++ [checkSum] ∧
      ∀ field ∈ rest, field ∈ map.fields ∧ field.tag ∉ ([10] : List ℤ) := by
  rw [Sorted, horder] at h
  obtain ⟨rest, hrest⟩ := h.eq_concat_of_greatest hcheckSum fun field _ => by
    show _ ≤ MessageOrder.key .trailer checkSum.tag
    rw [hten]
    exact key_le (trailerCompare_ten field.tag)
  refine ⟨rest, hrest, fun field hfield => ⟨hrest ▸ List.mem_append_left _ hfield, ?_⟩⟩
  rw [hrest] at h
  have hlt : MessageOrder.key .trailer field.tag < MessageOrder.key .trailer checkSum.tag :=
    (List.pairwise_append.mp h).2.2 field hfield checkSum (by simp)
  intro hin
  rw [List.mem_singleton.mp hin, hten] at hlt
  exact lt_irrefl _ hlt

end FieldMap

namespace Message

/-- What the text of a message needs to be a frame: sorted maps with a version, measured fields, the
fields of the frame in their places, and sums that are an `int`. -/
structure Sound (message : Message) : Prop where
  headerOrder : message.header.order = .header
  trailerOrder : message.trailer.order = .trailer
  header : message.header.Tidy
  body : message.body.Tidy
  trailer : message.trailer.Tidy
  headerPlaces : message.header.Places [8, 9]
  bodyPlaces : message.body.Places []
  trailerPlaces : message.trailer.Places [10]
  headerMeasured : message.header.Every FieldBase.Measured
  bodyMeasured : message.body.Every FieldBase.Measured
  trailerMeasured : message.trailer.Every FieldBase.Measured
  beginString : ∃ field ∈ message.header.fields, field.tag = 8 ∧ SOH ∉ field.string
  bounded : message.Bounded

/-- A sound message is sorted. -/
theorem Sound.sorted {message : Message} (h : message.Sound) : message.Sorted :=
  ⟨h.header.sorted, h.body.sorted, h.trailer.sorted⟩

/-- The digits of a checksum have no `SOH`. -/
theorem soh_notMem_checkSumText (value : ℕ) : SOH ∉ checkSumText value := by
  intro h
  rw [checkSumText, List.leftpad, List.mem_append] at h
  rcases h with h | h
  · exact absurd (List.eq_of_mem_replicate h) (by decide)
  · exact soh_notMem_integerToString _ h

/-! ### The completed message -/

namespace Sound
variable {message : Message} (h : message.Sound)
include h

/-- The trailer of the completed message has the checksum of the completed message. -/
theorem trailer_complete : message.complete.trailer
    = message.trailer.setField (.new 10 (checkSumText message.complete.checkSum)) := by
  rw [complete_checkSum h.sorted]
  rfl

/-- The header stays tidy with the body length. -/
theorem header_tidy : message.complete.header.Tidy := FieldMap.tidy_setField h.header _ _

/-- The trailer stays tidy with the checksum. -/
theorem trailer_tidy : message.complete.trailer.Tidy := FieldMap.tidy_setField h.trailer _ _

/-- The body length stands in the header, where it belongs. -/
theorem header_places : message.complete.header.Places [8, 9] :=
  h.headerPlaces.setField h.header.sorted (by decide) _

/-- The checksum stands in the trailer, where it belongs. -/
theorem trailer_places : message.complete.trailer.Places [10] :=
  h.trailerPlaces.setField h.trailer.sorted (by decide) _

/-- The header stays measured with the body length. -/
theorem header_measured : message.complete.header.Every FieldBase.Measured :=
  h.headerMeasured.setField h.header.sorted (FieldBase.measured_new _ _)

/-- The trailer stays measured with the checksum. -/
theorem trailer_measured : message.complete.trailer.Every FieldBase.Measured :=
  h.trailerMeasured.setField h.trailer.sorted (FieldBase.measured_new _ _)

/-- The checksum is written last. -/
theorem trailer_flat : ∃ before,
    (∀ field ∈ before, field ∈ message.complete.trailer.fields ∧ field.tag ∉ ([10] : List ℤ)) ∧
      message.complete.trailer.flat = message.complete.trailer.part before ++
        [.new 10 (checkSumText message.complete.checkSum)] := by
  obtain ⟨before, hbefore, hown⟩ := FieldMap.trailer_fields h.trailer_tidy.sorted
    (by rw [h.trailer_complete, FieldMap.order_setField, h.trailerOrder])
    (by rw [h.trailer_complete]; exact (FieldMap.mem_setField h.trailer.sorted).mpr (Or.inl rfl))
    rfl
  refine ⟨before, hown, ?_⟩
  rw [FieldMap.flat_eq, hbefore, FieldMap.part_append, FieldMap.part_cons,
    show (FieldBase.new 10 (checkSumText message.complete.checkSum)).tag = 10 from rfl,
    h.trailer_places.find_eq_nil (by decide)]
  rfl

end Sound

/-- The text of a message is a frame. -/
theorem isFrame_toString {message : Message} (h : message.Sound) : IsFrame message.toString := by
  obtain ⟨version, hversion, height, hsoh⟩ := h.beginString
  set complete := message.complete with hcomplete
  set digits := integerToString message.bodyLength with hdigits
  have hheader : complete.header = message.header.setField (.new 9 digits) := rfl
  have hheaderTidy : complete.header.Tidy := h.header_tidy
  have hbodyTidy : complete.body.Tidy := h.body
  have htrailerTidy : complete.trailer.Tidy := h.trailer_tidy
  have hheaderPlaces : complete.header.Places [8, 9] := h.header_places
  have htrailerPlaces : complete.trailer.Places [10] := h.trailer_places
  -- The fields of the header and of the trailer.
  obtain ⟨rest, hrest, hrestOwn⟩ := FieldMap.header_fields hheaderTidy.sorted
    (by rw [hheader, FieldMap.order_setField, h.headerOrder])
    (by rw [hheader]; exact (FieldMap.mem_setField h.header.sorted).mpr
          (Or.inr ⟨hversion, by rw [height]; decide⟩))
    (by rw [hheader]; exact (FieldMap.mem_setField h.header.sorted).mpr (Or.inl rfl))
    height rfl
  obtain ⟨before, hbeforeOwn, htrailerFlat⟩ := h.trailer_flat
  have hheaderFlat : complete.header.flat
      = version :: .new 9 digits :: complete.header.part rest := by
    rw [FieldMap.flat_eq, hrest, FieldMap.part_cons, FieldMap.part_cons, height,
      hheaderPlaces.find_eq_nil (by decide),
      show (FieldBase.new 9 digits).tag = 9 from rfl, hheaderPlaces.find_eq_nil (by decide)]
    rfl
  rw [← hcomplete] at hbeforeOwn htrailerFlat
  -- All that is written is measured.
  have hmeasured : ∀ field ∈ complete.header.part rest ++ complete.body.flat ++
      complete.trailer.part before, field.Measured := by
    intro field hfield
    rcases List.mem_append.mp hfield with hfield | hfield
    · rcases List.mem_append.mp hfield with hfield | hfield
      · exact h.header_measured.part (fun other hother => (hrestOwn other hother).1) field hfield
      · rw [FieldMap.flat_eq] at hfield
        exact h.bodyMeasured.part (fun other hother => hother) field hfield
    · exact h.trailer_measured.part (fun other hother => (hbeforeOwn other hother).1) field hfield
  set counted := complete.header.part rest ++ complete.body.flat ++ complete.trailer.part before
    with hcounted
  have hlength : (counted.flatMap FieldBase.getFixString).length = message.bodyLength := by
    have hbody : complete.body.flat.filter (fun field => !FieldMap.uncounted field.tag)
        = complete.body.flat := by
      rw [FieldMap.flat_eq]
      exact h.bodyPlaces.counted_part fun field hfield => ⟨hfield, List.not_mem_nil⟩
    rw [FieldMap.length_flatMap_getFixString hmeasured, ← complete_bodyLength h.sorted]
    show _ = complete.header.calculateLength + complete.body.calculateLength +
      complete.trailer.calculateLength
    rw [FieldMap.calculateLength_eq hheaderTidy, FieldMap.calculateLength_eq hbodyTidy,
      FieldMap.calculateLength_eq htrailerTidy, hheaderFlat, htrailerFlat, hbody,
      List.filter_append, htrailerPlaces.counted_part hbeforeOwn,
      FieldMap.filter_uncounted (by rw [height]; decide), FieldMap.filter_uncounted rfl,
      hheaderPlaces.counted_part hrestOwn, FieldMap.filter_uncounted rfl, List.filter_nil,
      List.append_nil, hcounted, List.map_append, List.map_append, List.sum_append, List.sum_append]
  refine ⟨⟨version.string, counted.flatMap FieldBase.getFixString, checkSumText complete.checkSum⟩,
    ⟨hsoh, FieldMap.soh_flatMap_getFixString counted, ?_, soh_notMem_checkSumText _⟩, ?_⟩
  · show (counted.flatMap FieldBase.getFixString).length ≤ VALUE_MAX
    rw [hlength]
    exact h.bounded.length
  · have hversionText : version.getFixString = ['8', '='] ++ version.string ++ [SOH] := by
      rw [FieldBase.getFixString, height]
      rfl
    have hlengthText (text : List Char) :
        (FieldBase.new 9 text).getFixString = ['9', '='] ++ text ++ [SOH] := rfl
    have hcheckSumText : (FieldBase.new 10 (checkSumText complete.checkSum)).getFixString
        = ['1', '0', '='] ++ checkSumText complete.checkSum ++ [SOH] := rfl
    show _ = complete.header.calculateString ++ complete.body.calculateString ++
      complete.trailer.calculateString
    rw [FieldMap.calculateString_eq hheaderTidy, FieldMap.calculateString_eq hbodyTidy,
      FieldMap.calculateString_eq htrailerTidy, hheaderFlat, htrailerFlat, Frame.text, hlength]
    simp only [hcounted, List.flatMap_append, List.flatMap_cons, List.flatMap_nil, hversionText,
      hlengthText, hcheckSumText, List.append_assoc, List.cons_append, List.nil_append,
      List.append_nil, hdigits]

end Message

/-! ### The checksum -/

/-- The total of a measured field is the sum of the bytes of its text. -/
theorem FieldBase.getTotal_eq {field : FieldBase} (h : field.Measured) :
    field.getTotal = (field.getFixString.map Char.toNat).sum := by
  rw [getTotal, calculate_eq h]
  rfl

namespace FieldMap

/-- The total of measured fields is that of the bytes of their text. -/
theorem sum_flatMap_getFixString {fields : List FieldBase}
    (h : ∀ field ∈ fields, field.Measured) :
    ((fields.flatMap FieldBase.getFixString).map Char.toNat).sum
      = (fields.map FieldBase.getTotal).sum := by
  induction fields with
  | nil => rfl
  | cons field fields ih =>
    rw [List.flatMap_cons, List.map_append, List.sum_append, List.map_cons, List.sum_cons,
      FieldBase.getTotal_eq (h field List.mem_cons_self),
      ih fun other hother => h other (List.mem_cons_of_mem _ hother)]

/-- Without the checksum of the map there is none in its text. -/
theorem Places.filter_part {own : List ℤ} {map : FieldMap} (h : map.Places own)
    {fields : List FieldBase} (hfields : ∀ field ∈ fields, field.tag ≠ 10) :
    (map.part fields).filter (fun field => field.tag ≠ 10) = map.part fields := by
  refine List.filter_eq_self.mpr fun field hfield => decide_eq_true fun hten => ?_
  rcases mem_part hfield with hmem | ⟨entry, hentry, group, hgroup, hmem⟩
  · exact hfields field hmem hten
  · have hcounted := (h.groups entry hentry).2 group hgroup field hmem
    rw [hten] at hcounted
    cases hcounted

/-- The total of a map without a checksum is that of the bytes of its text. -/
theorem calculateTotal_text {own : List ℤ} {map : FieldMap} (h : map.Tidy)
    (hplaces : map.Places own)
    (hown : (10 : ℤ) ∉ own) (hmeasured : map.Every FieldBase.Measured) :
    map.calculateTotal = (map.calculateString.map Char.toNat).sum := by
  have hne : ∀ field ∈ map.fields, field.tag ≠ 10 := by
    intro field hfield hten
    have hin := hplaces.fields field hfield (by rw [hten]; rfl)
    rw [hten] at hin
    exact hown hin
  rw [calculateTotal_eq h, calculateString_eq h, flat_eq, hplaces.filter_part hne,
    sum_flatMap_getFixString (hmeasured.part fun field hfield => hfield)]

end FieldMap

namespace Message

/-- The text ends with the checksum of all the bytes before it. -/
theorem toString_checkSum {message : Message} (h : message.Sound) :
    ∃ content, message.toString = content ++ (['1', '0', '='] ++
      checkSumText ((content.map Char.toNat).sum % 256) ++ [SOH]) := by
  set complete := message.complete with hcomplete
  obtain ⟨before, hbeforeOwn, htrailerFlat⟩ := h.trailer_flat
  rw [← hcomplete] at hbeforeOwn htrailerFlat
  have hne : ∀ field ∈ before, field.tag ≠ 10 := fun field hfield hten =>
    (hbeforeOwn field hfield).2 (List.mem_singleton.mpr hten)
  -- The total of the trailer leaves out field 10 itself, which is its last.
  have htrailerTotal : complete.trailer.calculateTotal
      = (((complete.trailer.part before).flatMap FieldBase.getFixString).map Char.toNat).sum := by
    rw [FieldMap.calculateTotal_eq h.trailer_tidy, htrailerFlat, List.filter_append,
      h.trailer_places.filter_part hne, FieldMap.sum_flatMap_getFixString
        (h.trailer_measured.part fun field hfield => (hbeforeOwn field hfield).1)]
    simp [FieldBase.new]
  set content := complete.header.calculateString ++ complete.body.calculateString ++
    (complete.trailer.part before).flatMap FieldBase.getFixString with hcontent
  have hbodyTotal : complete.body.calculateTotal
      = (complete.body.calculateString.map Char.toNat).sum :=
    FieldMap.calculateTotal_text h.body h.bodyPlaces (by decide) h.bodyMeasured
  have htotal : complete.checkSum = (content.map Char.toNat).sum % 256 := by
    show (complete.header.calculateTotal + complete.body.calculateTotal +
      complete.trailer.calculateTotal) % 256 = _
    rw [FieldMap.calculateTotal_text h.header_tidy h.header_places (by decide) h.header_measured,
      hbodyTotal, htrailerTotal, hcontent, List.map_append, List.map_append, List.sum_append,
      List.sum_append]
  have hlast : [FieldBase.new 10 (checkSumText complete.checkSum)].flatMap FieldBase.getFixString
      = ['1', '0', '='] ++ checkSumText complete.checkSum ++ [SOH] := by
    rw [List.flatMap_cons, List.flatMap_nil, List.append_nil]
    rfl
  refine ⟨content, ?_⟩
  show complete.header.calculateString ++ complete.body.calculateString ++
    complete.trailer.calculateString = _
  rw [← htotal, FieldMap.calculateString_eq h.trailer_tidy, htrailerFlat, List.flatMap_append,
    hlast, hcontent]
  simp only [List.append_assoc]

end Message

end Harjus.Wire
