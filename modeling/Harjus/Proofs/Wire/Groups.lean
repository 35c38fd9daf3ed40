import Harjus.Proofs.Wire.Complete

/-!
# `Harjus.Proofs.Wire.Groups`: repeating groups are read again

`setGroup` finds the groups of a field by the tags of what follows it. A map `Fits` a dictionary
where this works: each group starts with its delimiter and has the fields of its dictionary, and the field
after the groups is none of them. Groups may have groups.

* `extractField_text`: a field is read from its text, with any bytes where it is a data field.
* `Fits.readsInstance`: one group is read, with its groups.
* `setGroupLoop_instances`: the groups of a field are read, up to the field after them.

What has been read of a map is `FieldMap.upTo` some of its fields.
-/

set_option autoImplicit false

namespace Harjus.Wire

open Harjus.Lib
open Harjus.FIX (SOH)
open Harjus.FIX.IntConvertor (convert VALUE_MAX)

/-! ### Fields -/

/-- A tag that is an `int`. -/
def IsTag (tag : ℤ) : Prop := -(VALUE_MAX + 1) ≤ tag ∧ tag ≤ VALUE_MAX

/-- The first tag of some fields, or that of the field after them. -/
def headTag (fields : List FieldBase) (next : ℤ) : ℤ :=
  match fields with
  | [] => next
  | field :: _ => field.tag

/-- The text starts with a field that has the tag. -/
def Starts (tag : ℤ) (text : List Char) : Prop :=
  IsTag tag ∧ ∃ rest, text = integerToString tag ++ '=' :: rest ∧ SOH ∈ rest

namespace Message

/-- In front of the equal sign of a field stands its tag. -/
theorem takeWhile_tag (tag : ℤ) (rest : List Char) :
    (integerToString tag ++ '=' :: rest).takeWhile (· ≠ '=') = integerToString tag := by
  have hne : ∀ c ∈ integerToString tag, decide (c ≠ '=') = true := fun c hc =>
    decide_eq_true fun heq => equal_notMem_integerToString tag (heq ▸ hc)
  rw [List.takeWhile_append_of_pos hne, List.takeWhile_cons_of_neg (by decide), List.append_nil]

/-- Behind the tag of a field stands the equal sign. -/
theorem dropWhile_tag (tag : ℤ) (rest : List Char) :
    (integerToString tag ++ '=' :: rest).dropWhile (· ≠ '=') = '=' :: rest := by
  have hne : ∀ c ∈ integerToString tag, decide (c ≠ '=') = true := fun c hc =>
    decide_eq_true fun heq => equal_notMem_integerToString tag (heq ▸ hc)
  rw [List.dropWhile_append_of_pos hne, List.dropWhile_cons_of_neg (by decide)]

/-- `extractField` of a text that starts with a tag. -/
theorem extractField_tag (message : Message) {tag : ℤ} (htag : IsTag tag) {rest : List Char}
    (hsoh : SOH ∈ rest) (sessionDD appDD : Option DataDictionary) (group : Option FieldMap) :
    message.extractField (integerToString tag ++ '=' :: rest) sessionDD appDD group = do
      let length ← message.valueLength tag sessionDD appDD group rest
      return (.ofText tag (rest.take length)
        (integerToString tag ++ '=' :: rest.take (length + 1)), rest.drop (length + 1)) := by
  rw [extractField, takeWhile_tag, dropWhile_tag]
  simp only [convert_integerToString htag.1 htag.2]
  rw [if_neg (not_not_intro hsoh)]

/-- How `extractField` finds the end of a value. -/
def Ends (message : Message) (sessionDD appDD : Option DataDictionary) (group : Option FieldMap)
    (field : FieldBase) : Prop :=
  if isDataField field.tag sessionDD appDD then
    ∃ length, (message.location (lengthField field.tag) sessionDD group).reverseFind
      (lengthField field.tag) = some length ∧ convert length.string = some (field.string.length : ℤ)
  else SOH ∉ field.string

/-- A field is read from the front of a text. -/
theorem extractField_text (message : Message) {field : FieldBase} (htag : IsTag field.tag)
    (hmeasured : field.Measured) {sessionDD appDD : Option DataDictionary} {group : Option FieldMap}
    (hends : message.Ends sessionDD appDD group field) (rest : List Char) :
    message.extractField (field.getFixString ++ rest) sessionDD appDD group
      = .ok (field.calculate, rest) := by
  have htext : field.getFixString ++ rest
      = integerToString field.tag ++ '=' :: (field.string ++ SOH :: rest) := by
    simp only [FieldBase.getFixString, List.append_assoc, List.cons_append, List.nil_append]
  have hlength : message.valueLength field.tag sessionDD appDD group (field.string ++ SOH :: rest)
      = .ok field.string.length := by
    unfold Ends at hends
    unfold valueLength
    split at hends
    · -- A data field is as long as its length field says, whatever bytes it holds.
      rename_i hdata
      obtain ⟨length, hfind, hconvert⟩ := hends
      rw [if_pos hdata, dataLength, hfind]
      simp only [hconvert]
      rw [if_pos ⟨by omega, by simp only [List.length_append, List.length_cons]; omega⟩]
      rfl
    · -- Any other field ends at the first separator.
      rename_i hdata
      have hne : ∀ c ∈ field.string, decide (c ≠ SOH) = true :=
        fun c hc => decide_eq_true fun heq => hends (heq ▸ hc)
      rw [if_neg hdata, List.takeWhile_append_of_pos hne, List.takeWhile_cons_of_neg (by simp),
        List.append_nil]
  rw [htext, extractField_tag message htag (by simp), hlength]
  have htake : (field.string ++ SOH :: rest).take (field.string.length + 1)
      = field.string ++ [SOH] := by
    rw [List.take_append, List.take_of_length_le (by omega), Nat.add_sub_cancel_left]
    rfl
  have hdrop : (field.string ++ SOH :: rest).drop (field.string.length + 1) = rest := by
    rw [List.drop_append, List.drop_eq_nil_of_le (by omega), Nat.add_sub_cancel_left]
    rfl
  show Except.ok (FieldBase.ofText field.tag ((field.string ++ SOH :: rest).take field.string.length)
    (integerToString field.tag ++ '=' :: (field.string ++ SOH :: rest).take
      (field.string.length + 1)), (field.string ++ SOH :: rest).drop (field.string.length + 1)) = _
  rw [htake, hdrop, List.take_left, FieldBase.calculate_eq hmeasured, FieldBase.getFixString]
  simp only [List.append_assoc, List.cons_append, FieldBase.ofText]

/-- The tag of a field that is no data field is read from the front of a text. -/
theorem extractField_starts (message : Message) {tag : ℤ} {text : List Char} (h : Starts tag text)
    {sessionDD appDD : Option DataDictionary} (hdata : isDataField tag sessionDD appDD = false)
    (group : Option FieldMap) :
    ∃ field rest, message.extractField text sessionDD appDD group = .ok (field, rest) ∧
      field.tag = tag := by
  obtain ⟨htag, rest, rfl, hsoh⟩ := h
  have hlength : message.valueLength tag sessionDD appDD group rest
      = .ok (rest.takeWhile (· ≠ SOH)).length := by
    rw [valueLength, if_neg (by rw [hdata]; exact Bool.false_ne_true)]
  set length := (rest.takeWhile (· ≠ SOH)).length
  refine ⟨.ofText tag (rest.take length) (integerToString tag ++ '=' :: rest.take (length + 1)),
    rest.drop (length + 1), ?_, rfl⟩
  rw [extractField_tag message htag hsoh, hlength]
  rfl

end Message

/-! ### What has been read of a map -/

/-- The groups whose tags have been read. -/
def Groups.keep (tags : List ℤ) (groups : Groups) : Groups :=
  groups.filter fun entry => entry.1 ∈ tags

namespace Groups

/-- A group goes behind the entries with lower tags. -/
theorem add_cons_of_lt {tag key : ℤ} (h : key < tag) (group : FieldMap) (entries : List FieldMap)
    (groups : Groups) :
    Groups.add tag group ((key, entries) :: groups) = (key, entries) :: groups.add tag group := by
  rw [add, if_neg (by omega), if_pos h]

/-- The groups of a tag are added behind those of a smaller one. -/
theorem foldl_add_cons_of_lt {tag key : ℤ} (h : key < tag) (entries added : List FieldMap)
    (groups : Groups) :
    added.foldl (fun groups group => Groups.add tag group groups) ((key, entries) :: groups)
      = (key, entries)
          :: added.foldl (fun groups group => Groups.add tag group groups) groups := by
  induction added generalizing groups with
  | nil => rfl
  | cons group added ih => rw [List.foldl_cons, add_cons_of_lt h, ih, List.foldl_cons]

/-- The groups of a tag are added behind one another. -/
theorem foldl_add_cons_self (tag : ℤ) (entries added : List FieldMap) (groups : Groups) :
    added.foldl (fun groups group => Groups.add tag group groups) ((tag, entries) :: groups)
      = (tag, entries ++ added) :: groups := by
  induction added generalizing entries with
  | nil => rw [List.foldl_nil, List.append_nil]
  | cons group added ih =>
    rw [List.foldl_cons, add, if_neg (lt_irrefl tag), if_neg (lt_irrefl tag), ih,
      List.append_assoc]
    rfl

/-- The first group of a tag comes before the greater ones. -/
theorem add_of_forall_lt {tag : ℤ} {groups : Groups} (h : ∀ entry ∈ groups, tag < entry.1)
    (group : FieldMap) : Groups.add tag group groups = (tag, [group]) :: groups := by
  cases groups with
  | nil => rfl
  | cons entry groups =>
    show Groups.add tag group ((entry.1, entry.2) :: groups) = _
    rw [add, if_pos (h entry List.mem_cons_self)]

/-- The entries under some tags are those of the map. -/
theorem mem_keep {tags : List ℤ} {groups : Groups} {entry : ℤ × List FieldMap} :
    entry ∈ keep tags groups ↔ entry ∈ groups ∧ entry.1 ∈ tags := by
  rw [keep, List.mem_filter, decide_eq_true_iff]

/-- Without groups of a tag, nothing is kept of it. -/
theorem keep_concat {tags : List ℤ} {groups : Groups} {tag : ℤ}
    (h : ∀ entry ∈ groups, entry.1 ≠ tag) : keep (tags ++ [tag]) groups = keep tags groups := by
  refine List.filter_congr fun entry hentry => ?_
  simp [h entry hentry]

/-- With the groups of a tag, what has been read is kept up to the tag. -/
theorem foldl_add_keep {groups : Groups} (hkeys : Ascending Prod.fst groups)
    (hne : ∀ entry ∈ groups, entry.2 ≠ []) {tags : List ℤ} {tag : ℤ} (hnew : tag ∉ tags) :
    (groups.find tag).foldl (fun groups group => Groups.add tag group groups) (keep tags groups)
      = keep (tags ++ [tag]) groups := by
  induction groups with
  | nil => rfl
  | cons entry groups ih =>
    obtain ⟨key, entries⟩ := entry
    have habove : ∀ entry ∈ groups, key < entry.1 := fun entry hentry => hkeys.lt_of_cons hentry
    rw [FieldMap.find_cons]
    rcases lt_trichotomy tag key with hlt | rfl | hgt
    · -- The tag is below every key: no group has it.
      have hnone : ∀ entry ∈ (key, entries) :: groups, entry.1 ≠ tag := by
        intro entry hentry
        rcases List.mem_cons.mp hentry with rfl | hentry
        · exact ne_of_gt hlt
        · exact ne_of_gt (hlt.trans (habove entry hentry))
      rw [if_neg (ne_of_lt hlt), keep_concat hnone, FieldMap.find_eq_nil fun entry hentry =>
        hnone entry (List.mem_cons_of_mem _ hentry)]
      rfl
    · -- The groups of the tag come first, and are added before what has been kept.
      have hkept : keep (tags ++ [tag]) groups = keep tags groups :=
        keep_concat fun entry hentry => ne_of_gt (habove entry hentry)
      have hlt : ∀ entry ∈ keep tags groups, tag < entry.1 :=
        fun entry hentry => habove entry (mem_keep.mp hentry).1
      have hcons : keep (tags ++ [tag]) ((tag, entries) :: groups)
          = (tag, entries) :: keep (tags ++ [tag]) groups := List.filter_cons_of_pos (by simp)
      have hskip : keep tags ((tag, entries) :: groups) = keep tags groups :=
        List.filter_cons_of_neg (by simpa using hnew)
      rw [if_pos rfl, hcons, hskip, hkept]
      cases hentries : entries with
      | nil => exact absurd hentries (hne _ List.mem_cons_self)
      | cons group added =>
        rw [List.foldl_cons, add_of_forall_lt hlt, foldl_add_cons_self]
        rfl
    · -- The tag is above the first key, whose groups have been kept or not.
      have hrest := ih hkeys.of_cons fun entry hentry => hne entry (List.mem_cons_of_mem _ hentry)
      rw [if_neg (ne_of_gt hgt)]
      by_cases hkey : key ∈ tags
      · have hcons : keep (tags ++ [tag]) ((key, entries) :: groups)
            = (key, entries) :: keep (tags ++ [tag]) groups :=
          List.filter_cons_of_pos (by simp [hkey])
        have hkeep : keep tags ((key, entries) :: groups) = (key, entries) :: keep tags groups :=
          List.filter_cons_of_pos (by simpa using hkey)
        rw [hcons, hkeep, foldl_add_cons_of_lt hgt, hrest]
      · have hcons : keep (tags ++ [tag]) ((key, entries) :: groups)
            = keep (tags ++ [tag]) groups :=
          List.filter_cons_of_neg (by simp [hkey, ne_of_lt hgt])
        have hkeep : keep tags ((key, entries) :: groups) = keep tags groups :=
          List.filter_cons_of_neg (by simpa using hkey)
        rw [hcons, hkeep, hrest]

end Groups

namespace FieldMap

/-- The map with the metrics of its fields. -/
def calculate : FieldMap → FieldMap :=
  fold fun order fields groups => mk order (fields.map FieldBase.calculate) groups

/-- The metrics of a map are those of its fields and of its groups. -/
theorem calculate_mk (order : MessageOrder) (fields : List FieldBase) (groups : Groups) :
    (mk order fields groups).calculate = mk order (fields.map FieldBase.calculate)
      (groups.map fun entry => (entry.1, entry.2.map calculate)) := by
  rw [calculate, fold_mk]

/-- The groups under a tag, with their metrics. -/
theorem find_calculate (map : FieldMap) (tag : ℤ) :
    map.calculate.groups.find tag = (map.groups.find tag).map calculate := by
  cases map with
  | mk order fields groups =>
    rw [calculate_mk]
    exact lookup_map_groups calculate groups tag

/-- The text of some fields of a map, with their groups. -/
def textOf (map : FieldMap) (fields : List FieldBase) : List Char :=
  fields.flatMap fun field =>
    field.getFixString ++ (map.groups.find field.tag).flatMap calculateString

/-- The text of a map is that of all its fields with their groups. -/
theorem calculateString_eq_textOf (map : FieldMap) :
    map.calculateString = map.textOf map.fields := by
  cases map with
  | mk order fields groups => exact calculateString_mk order fields groups

/-- The text of some fields starts with the first field and the groups under it. -/
theorem textOf_cons (map : FieldMap) (field : FieldBase) (fields : List FieldBase) :
    map.textOf (field :: fields) = field.getFixString ++
      ((map.groups.find field.tag).flatMap calculateString ++ map.textOf fields) := by
  rw [textOf, List.flatMap_cons, List.append_assoc]
  rfl

/-- The text of some fields may be cut in two. -/
theorem textOf_append (map : FieldMap) (fields fields' : List FieldBase) :
    map.textOf (fields ++ fields') = map.textOf fields ++ map.textOf fields' :=
  List.flatMap_append

/-- What has been read of a map, with some of its fields and their groups. -/
def upTo (map : FieldMap) (before : List FieldBase) : FieldMap :=
  mk map.order (before.map FieldBase.calculate)
    (map.calculate.groups.keep (before.map FieldBase.tag))

/-- Metrics do not change the tag. -/
theorem tag_calculate (field : FieldBase) : field.calculate.tag = field.tag := by
  unfold FieldBase.calculate
  split <;> rfl

/-- Metrics do not change the value. -/
theorem string_calculate (field : FieldBase) : field.calculate.string = field.string := by
  unfold FieldBase.calculate
  split <;> rfl

/-- A map of which nothing has been read is a new one. -/
theorem upTo_nil (map : FieldMap) : map.upTo [] = new map.order := by
  have hkeep : map.calculate.groups.keep [] = [] :=
    List.filter_eq_nil_iff.mpr fun entry _ => by simp
  rw [upTo, List.map_nil, List.map_nil, hkeep]
  rfl

/-- What has been read of a sorted map is sorted. -/
theorem sorted_upTo {map : FieldMap} {before : List FieldBase}
    (h : Ascending (FieldBase.key map.order) before) : (map.upTo before).Sorted :=
  List.pairwise_map.mpr <| h.imp fun {field other} hlt => by
    show map.order.key field.calculate.tag < map.order.key other.calculate.tag
    rw [tag_calculate, tag_calculate]
    exact hlt

/-- A field with fields before and after it is one of the map. -/
theorem mem_of_split {map : FieldMap} {before after : List FieldBase} {field : FieldBase}
    (hfields : map.fields = before ++ field :: after) : field ∈ map.fields := by
  rw [hfields]
  exact List.mem_append_right _ List.mem_cons_self

/-- A field of a sorted map has another tag than the fields before it. -/
theorem tag_ne_of_split {map : FieldMap} (h : map.Sorted) {before after : List FieldBase}
    {field : FieldBase} (hfields : map.fields = before ++ field :: after) :
    ∀ other ∈ before, other.tag ≠ field.tag := by
  intro other hother heq
  rw [Sorted, hfields] at h
  have hlt := (List.pairwise_append.mp h).2.2 other hother field List.mem_cons_self
  rw [FieldBase.key, FieldBase.key, heq] at hlt
  exact lt_irrefl _ hlt

/-- The fields before a field of a sorted map are sorted. -/
theorem sorted_before {map : FieldMap} (h : map.Sorted) {before after : List FieldBase}
    (hfields : map.fields = before ++ after) : Ascending (FieldBase.key map.order) before := by
  rw [Sorted, hfields] at h
  exact (List.pairwise_append.mp h).1

/-- A field has not been read before it is. -/
theorem isSetField_upTo {map : FieldMap} (h : map.Sorted) {before after : List FieldBase}
    {field : FieldBase} (hfields : map.fields = before ++ field :: after) :
    (map.upTo before).isSetField field.tag = false := by
  refine Bool.eq_false_iff.mpr fun hset => ?_
  obtain ⟨other, hother, htag⟩ :=
    (isSetField_iff (sorted_upTo (sorted_before h hfields))).mp hset
  obtain ⟨source, hsource, rfl⟩ := List.mem_map.mp hother
  rw [tag_calculate] at htag
  exact tag_ne_of_split h hfields source hsource htag

/-- The groups of a tidy map are in order, with their metrics too. -/
theorem groups_calculate {map : FieldMap} (h : map.Tidy) :
    Ascending Prod.fst map.calculate.groups ∧ (∀ entry ∈ map.calculate.groups, entry.2 ≠ []) ∧
      ∀ entry ∈ map.calculate.groups, ∃ field ∈ map.fields, field.tag = entry.1 := by
  cases h with
  | @mk order fields groups hfields hkeys hne htags hgroups =>
    rw [calculate_mk]
    refine ⟨List.pairwise_map.mpr hkeys, fun entry hentry => ?_, fun entry hentry => ?_⟩
    · obtain ⟨other, hother, rfl⟩ := List.mem_map.mp hentry
      exact fun hnil => hne other hother (List.map_eq_nil_iff.mp hnil)
    · obtain ⟨other, hother, rfl⟩ := List.mem_map.mp hentry
      exact htags other hother

/-- All of a tidy map has been read with its last field. -/
theorem upTo_fields {map : FieldMap} (h : map.Tidy) : map.upTo map.fields = map.calculate := by
  have hkeep : map.calculate.groups.keep (map.fields.map FieldBase.tag) = map.calculate.groups := by
    refine List.filter_eq_self.mpr fun entry hentry => decide_eq_true ?_
    obtain ⟨field, hfield, htag⟩ := (groups_calculate h).2.2 entry hentry
    exact List.mem_map.mpr ⟨field, hfield, htag⟩
  rw [upTo, hkeep]
  cases map with
  | mk order fields groups =>
    rw [calculate_mk]
    rfl

/-- Groups that are added one by one are added to the groups of the map. -/
theorem foldl_addGroup (tag : ℤ) (added : List FieldMap) (map : FieldMap) :
    added.foldl (fun map group => map.addGroup tag group) map = mk map.order map.fields
      (added.foldl (fun groups group => Groups.add tag group groups) map.groups) := by
  induction added generalizing map with
  | nil =>
    cases map with
    | mk order fields groups => rfl
  | cons group added ih =>
    rw [List.foldl_cons, ih]
    rfl

/-- A field and its groups are read behind what has been read. -/
theorem upTo_concat {map : FieldMap} (h : map.Tidy) (before : List FieldBase)
    {after : List FieldBase} {field : FieldBase} (hfields : map.fields = before ++ field :: after) :
    ((map.groups.find field.tag).map calculate).foldl (fun map group => map.addGroup field.tag group)
        ((map.upTo before).appendField field.calculate)
      = map.upTo (before ++ [field]) := by
  have hnew : field.tag ∉ before.map FieldBase.tag := by
    intro hmem
    obtain ⟨other, hother, htag⟩ := List.mem_map.mp hmem
    exact tag_ne_of_split h.sorted hfields other hother htag
  obtain ⟨hkeys, hne, -⟩ := groups_calculate h
  rw [foldl_addGroup, ← find_calculate, upTo, upTo, List.map_append, List.map_append]
  show mk map.order _ (List.foldl _ (map.calculate.groups.keep (before.map FieldBase.tag)) _) = _
  rw [Groups.foldl_add_keep hkeys hne hnew]
  rfl

/-- In a sorted map, the field is added at its end. -/
theorem addField_upTo {map : FieldMap} (h : map.Sorted) (before : List FieldBase)
    {after : List FieldBase} {field : FieldBase} (hfields : map.fields = before ++ field :: after) :
    (map.upTo before).addField field.calculate = (map.upTo before).appendField field.calculate := by
  rw [Sorted, hfields] at h
  have hbefore : (map.upTo before).Sorted := sorted_upTo (List.pairwise_append.mp h).1
  have hlt : ∀ other ∈ (map.upTo before).fields,
      other.key map.order < field.calculate.key map.order := by
    intro other hother
    obtain ⟨source, hsource, rfl⟩ := List.mem_map.mp hother
    show map.order.key source.calculate.tag < map.order.key field.calculate.tag
    rw [tag_calculate, tag_calculate]
    exact (List.pairwise_append.mp h).2.2 source hsource field List.mem_cons_self
  rw [addField, insertField_eq hbefore fun other hother heq => ?_]
  · show withFields _ (insertBefore (FieldBase.key map.order) _ _) = _
    rw [insertBefore_of_forall_lt hlt]
    rfl
  · have hkey := hlt other hother
    rw [FieldBase.key, FieldBase.key, heq] at hkey
    exact lt_irrefl _ hkey

end FieldMap

/-! ### Maps that are read again -/

/-- A field that is read from its text: a data field has its length in a field before it. -/
structure Readable (dictionary : DataDictionary) (before : List FieldBase) (field : FieldBase) :
    Prop where
  tag : IsTag field.tag
  measured : field.Measured
  value : if dictionary.isDataField field.tag then
      ∃ length ∈ before, length.tag = Message.lengthField field.tag ∧
        convert length.string = some (field.string.length : ℤ)
    else SOH ∉ field.string

/-- The field after some groups is none of theirs. -/
structure Follows (dictionary groupDictionary : DataDictionary) (delim next : ℤ) : Prop where
  delim : next ≠ delim
  field : groupDictionary.isField next = false
  data : dictionary.isDataField next = false

/-- A group that `setGroup` can tell from the next: it starts with the delimiter. -/
structure IsInstance (dictionary groupDictionary : DataDictionary) (delim : ℤ) (group : FieldMap) :
    Prop where
  order : group.order = groupDictionary.getOrderedFields
  data : dictionary.isDataField delim = false
  fields : ∃ first rest, group.fields = first :: rest ∧ first.tag = delim ∧
    ∀ field ∈ rest, groupDictionary.isField field.tag

/-- A map whose text is read again in front of a field with the tag `next`. Its groups are those of
the dictionary `own`, and its data fields those of `dictionary`. -/
inductive Fits (msg : List Char) : DataDictionary → DataDictionary → ℤ → FieldMap → Prop
  | mk {dictionary own : DataDictionary} {next : ℤ} {map : FieldMap} (htidy : map.Tidy)
      (hread : ∀ before field after, map.fields = before ++ field :: after →
        Readable dictionary before field)
      (hplain : ∀ field ∈ map.fields, own.getGroup msg field.tag = none →
        map.groups.find field.tag = [])
      (hfollow : ∀ before field after delim inner, map.fields = before ++ field :: after →
        own.getGroup msg field.tag = some (delim, inner) →
        Follows own inner delim (headTag after next))
      (hinstance : ∀ field ∈ map.fields, ∀ delim inner,
        own.getGroup msg field.tag = some (delim, inner) →
        ∀ group ∈ map.groups.find field.tag, IsInstance own inner delim group)
      (hgroups : ∀ before field after delim inner, map.fields = before ++ field :: after →
        own.getGroup msg field.tag = some (delim, inner) →
        ∀ earlier group later, map.groups.find field.tag = earlier ++ group :: later →
          Fits msg own inner (if later = [] then headTag after next else delim) group) :
      Fits msg dictionary own next map

namespace Fits
variable {msg : List Char} {dictionary own : DataDictionary} {next : ℤ} {map : FieldMap}

/-- A map that fits is tidy. -/
theorem tidy (h : Fits msg dictionary own next map) : map.Tidy := by
  cases h with
  | mk htidy => exact htidy

/-- Each field of a map that fits is readable behind those before it. -/
theorem readable (h : Fits msg dictionary own next map) (before : List FieldBase)
    {after : List FieldBase} {field : FieldBase} (hfields : map.fields = before ++ field :: after) :
    Readable dictionary before field := by
  cases h with
  | mk _ hread => exact hread before field after hfields

/-- A field without a group in the dictionary has no groups in the map. -/
theorem plain (h : Fits msg dictionary own next map) {field : FieldBase}
    (hfield : field ∈ map.fields) (hnone : own.getGroup msg field.tag = none) :
    map.groups.find field.tag = [] := by
  cases h with
  | mk _ _ hplain => exact hplain field hfield hnone

/-- A map is read again where each of its fields, with the groups under it, is. -/
theorem of_fields (htidy : map.Tidy)
    (hfields : ∀ before field after, map.fields = before ++ field :: after →
      Readable dictionary before field ∧
      match own.getGroup msg field.tag with
      | none => map.groups.find field.tag = []
      | some (delim, inner) => Follows own inner delim (headTag after next) ∧
        (∀ group ∈ map.groups.find field.tag, IsInstance own inner delim group) ∧
        ∀ earlier group later, map.groups.find field.tag = earlier ++ group :: later →
          Fits msg own inner (if later = [] then headTag after next else delim) group) :
    Fits msg dictionary own next map := by
  refine .mk htidy (fun before field after hsplit => (hfields before field after hsplit).1)
    ?_ ?_ ?_ ?_
  · intro field hfield hnone
    obtain ⟨before, after, hsplit⟩ := List.append_of_mem hfield
    have hgroups := (hfields before field after hsplit).2
    rw [hnone] at hgroups
    exact hgroups
  · intro before field after delim inner hsplit hsome
    have hgroups := (hfields before field after hsplit).2
    rw [hsome] at hgroups
    exact hgroups.1
  · intro field hfield delim inner hsome
    obtain ⟨before, after, hsplit⟩ := List.append_of_mem hfield
    have hgroups := (hfields before field after hsplit).2
    rw [hsome] at hgroups
    exact hgroups.2.1
  · intro before field after delim inner hsplit hsome
    have hgroups := (hfields before field after hsplit).2
    rw [hsome] at hgroups
    exact hgroups.2.2

/-- A map without groups and data fields is read again. -/
theorem of_plain (hsorted : map.Sorted) (hgroups : map.groups = [])
    (hfields : ∀ field ∈ map.fields, IsTag field.tag ∧ field.Measured ∧
      dictionary.isDataField field.tag = false ∧ SOH ∉ field.string ∧
      own.getGroup msg field.tag = none) : Fits msg dictionary own next map := by
  refine .of_fields (hsorted.tidy hgroups) fun before field after hsplit => ?_
  obtain ⟨htag, hmeasured, hdata, hsoh, hnone⟩ := hfields field (FieldMap.mem_of_split hsplit)
  rw [hnone, hgroups]
  exact ⟨⟨htag, hmeasured, by rw [hdata]; exact hsoh⟩, rfl⟩

end Fits

/-- The text of some fields starts with the first. -/
theorem starts_textOf (map : FieldMap) {field : FieldBase} (htag : IsTag field.tag)
    (fields : List FieldBase) (text : List Char) :
    Starts field.tag (map.textOf (field :: fields) ++ text) := by
  refine ⟨htag, field.string ++ SOH :: ((map.groups.find field.tag).flatMap
    FieldMap.calculateString ++ (map.textOf fields ++ text)), ?_, by simp⟩
  simp only [FieldMap.textOf_cons, FieldBase.getFixString, List.append_assoc, List.cons_append,
    List.nil_append]

/-- The text of the fields that are left starts with the first of them. -/
theorem Fits.starts {msg : List Char} {dictionary own : DataDictionary} {next : ℤ} {map : FieldMap}
    (h : Fits msg dictionary own next map) (before : List FieldBase) {rest : List FieldBase}
    (hfields : map.fields = before ++ rest) {text : List Char} (htext : Starts next text) :
    Starts (headTag rest next) (map.textOf rest ++ text) := by
  cases rest with
  | nil => exact htext
  | cons field rest => exact starts_textOf map (h.readable before hfields).tag rest text

/-- The field with a tag, from the end of a sorted map. -/
theorem FieldMap.reverseFind_eq {map : FieldMap} (h : map.Sorted) {field : FieldBase}
    (hfield : field ∈ map.fields) : map.reverseFind field.tag = some field := by
  cases hfind : map.reverseFind field.tag with
  | none =>
    have hnot := List.find?_eq_none.mp hfind field (List.mem_reverse.mpr hfield)
    simp at hnot
  | some other =>
    have htag : field.tag = other.tag := of_decide_eq_true (List.find?_some hfind :)
    have hother : other ∈ map.fields := List.mem_reverse.mp (List.mem_of_find?_eq_some hfind)
    rw [h.eq_of_key_eq hother hfield (congrArg map.order.key htag.symm)]

/-- A readable field ends where the fields before it say. -/
theorem Readable.ends {dictionary : DataDictionary} {map : FieldMap} {before : List FieldBase}
    {field : FieldBase} (h : Readable dictionary before field)
    (hsorted : Ascending (FieldBase.key map.order) before) (message : Message)
    (group : Option FieldMap)
    (hlocation : dictionary.isDataField field.tag →
      message.location (Message.lengthField field.tag) (some dictionary) group = map.upTo before) :
    message.Ends (some dictionary) (some dictionary) group field := by
  have hdata : Message.isDataField field.tag (some dictionary) (some dictionary)
      = dictionary.isDataField field.tag := Bool.or_self _
  have hvalue := h.value
  unfold Message.Ends
  rw [hdata]
  split at hvalue
  · rename_i hin
    obtain ⟨length, hlength, htag, hconvert⟩ := hvalue
    rw [if_pos hin]
    have hmem : length.calculate ∈ (map.upTo before).fields :=
      List.mem_map.mpr ⟨length, hlength, rfl⟩
    have hfind := FieldMap.reverseFind_eq (FieldMap.sorted_upTo hsorted) hmem
    refine ⟨length.calculate, ?_, ?_⟩
    · rw [hlocation hin, ← htag, ← FieldMap.tag_calculate length]
      exact hfind
    · rw [FieldMap.string_calculate]
      exact hconvert
  · rename_i hnot
    rw [if_neg hnot]
    exact hvalue

/-! ### Reading groups -/

namespace Message

/-- The groups under a tag with the group that is being read, if there is one. -/
def close (tag : ℤ) (group : Option FieldMap) (map : FieldMap) : FieldMap :=
  match group with
  | some group => map.addGroup tag group
  | none => map

/-- The groups of a field are read into its map. -/
def readNested (message : Message) (msg : List Char) (steps : ℕ) (own : DataDictionary) (tag : ℤ)
    (rest : List Char) (map : FieldMap) : Except DecodeError (FieldMap × List Char) :=
  match own.getGroup msg tag with
  | none => .ok (map, rest)
  | some (delim, inner) => setGroupLoop message msg steps tag delim own inner none rest map

section Loop
variable (message : Message) (msg : List Char) {steps : ℕ} {tag delim : ℤ}
  {dictionary own : DataDictionary} {string rest : List Char} {field : FieldBase} (map : FieldMap)

/-- The delimiter starts a group. -/
theorem setGroupLoop_delim (group : Option FieldMap) (hstring : string ≠ [])
    (hextract : message.extractField string dictionary dictionary group = .ok (field, rest))
    (hdelim : field.tag = delim) :
    setGroupLoop message msg (steps + 1) tag delim dictionary own group string map =
      (readNested message msg steps own field.tag rest
        ((FieldMap.new own.getOrderedFields).addField field)).bind fun read =>
          setGroupLoop message msg steps tag delim dictionary own (some read.1) read.2
            (close tag group map) := by
  rw [setGroupLoop.eq_def]
  dsimp only
  rw [if_neg hstring, hextract]
  simp only [bind, Except.bind]
  rw [if_neg (by simp [hdelim]), if_pos (Or.inl hdelim)]
  unfold readNested
  cases own.getGroup msg field.tag with
  | none => rfl
  | some found => rfl

/-- A field of the dictionary that the group does not have is read into it. -/
theorem setGroupLoop_field (group : FieldMap) (hstring : string ≠ [])
    (hextract : message.extractField string dictionary dictionary group = .ok (field, rest))
    (hdelim : field.tag ≠ delim) (hfield : own.isField field.tag)
    (hnew : group.isSetField field.tag = false) :
    setGroupLoop message msg (steps + 1) tag delim dictionary own (some group) string map =
      (readNested message msg steps own field.tag rest (group.addField field)).bind fun read =>
        setGroupLoop message msg steps tag delim dictionary own (some read.1) read.2 map := by
  rw [setGroupLoop.eq_def]
  dsimp only
  rw [if_neg hstring, hextract]
  simp only [bind, Except.bind]
  rw [if_neg (by simp [hfield]), if_neg (by simp [hdelim, hnew])]
  unfold readNested
  cases own.getGroup msg field.tag with
  | none => rfl
  | some found => rfl

/-- A field that is none of the groups' ends them. -/
theorem setGroupLoop_follows (group : Option FieldMap) (hstring : string ≠ [])
    (hextract : message.extractField string dictionary dictionary group = .ok (field, rest))
    (hfollows : Follows dictionary own delim field.tag) :
    setGroupLoop message msg (steps + 1) tag delim dictionary own group string map
      = .ok (close tag group map, string) := by
  rw [setGroupLoop.eq_def]
  dsimp only
  rw [if_neg hstring, hextract]
  simp only [bind, Except.bind]
  rw [if_pos (by simp [hfollows.delim, hfollows.field])]
  rfl

end Loop

/-- The groups of a map are read into any map, in front of any text that goes on as they need. -/
def GroupsRead (msg : List Char) (own : DataDictionary) (next : ℤ) (map : FieldMap) : Prop :=
  ∀ before field after, map.fields = before ++ field :: after →
    ∀ (message : Message) (target : FieldMap) (text : List Char) (steps : ℕ),
      Starts (headTag after next) text →
      ((map.groups.find field.tag).flatMap FieldMap.calculateString ++ text).length ≤ steps →
      message.readNested msg steps own field.tag
          ((map.groups.find field.tag).flatMap FieldMap.calculateString ++ text) target
        = .ok (((map.groups.find field.tag).map FieldMap.calculate).foldl
            (fun map group => map.addGroup field.tag group) target, text)

section Instances
variable (message : Message) {msg : List Char} (tag : ℤ) {delim next : ℤ}
  {dictionary own : DataDictionary}

/-- The text of a field is never empty. -/
theorem length_getFixString_pos (field : FieldBase) : 0 < field.getFixString.length := by
  rw [FieldBase.length_getFixString]
  omega

/-- A group is read to its end. The induction is on the fields that are left. -/
theorem setGroupLoop_fields {group : FieldMap} (hgroup : IsInstance dictionary own delim group)
    (hfits : Fits msg dictionary own next group) (hread : GroupsRead msg own next group)
    {text : List Char} (htext : Starts next text) (map : FieldMap) (before : List FieldBase)
    {rest : List FieldBase} (hfields : group.fields = before ++ rest) (hne : before ≠ [])
    {steps : ℕ}
    (hsteps : (group.textOf rest ++ text).length ≤ steps) :
    ∃ steps', text.length ≤ steps' ∧
      setGroupLoop message msg steps tag delim dictionary own (some (group.upTo before))
          (group.textOf rest ++ text) map
        = setGroupLoop message msg steps' tag delim dictionary own (some group.calculate) text
            map := by
  induction rest generalizing before steps with
  | nil =>
    rw [List.append_nil] at hfields
    rw [← hfields, FieldMap.upTo_fields hfits.tidy]
    exact ⟨steps, hsteps, rfl⟩
  | cons field rest ih =>
    -- The delimiter has been read, so this field has another tag and starts no new group.
    obtain ⟨first, others, hothers, hfirst, hown⟩ := hgroup.fields
    obtain ⟨start, before', rfl⟩ := List.exists_cons_of_ne_nil hne
    have hcons : first :: others = start :: (before' ++ field :: rest) := by
      rw [← hothers, hfields, List.cons_append]
    obtain ⟨rfl, rfl⟩ := List.cons.inj hcons
    have hsorted := hfits.tidy.sorted
    have hother := FieldMap.tag_ne_of_split hsorted hfields first List.mem_cons_self
    have hreadable := hfits.readable _ hfields
    set after := (group.groups.find field.tag).flatMap FieldMap.calculateString ++
      (group.textOf rest ++ text) with hafter
    have hstring : group.textOf (field :: rest) ++ text = field.getFixString ++ after := by
      rw [FieldMap.textOf_cons, List.append_assoc, List.append_assoc]
    rw [hstring] at hsteps ⊢
    have hpos := length_getFixString_pos field
    rw [List.length_append] at hsteps
    obtain ⟨steps, rfl⟩ : ∃ n, steps = n + 1 := ⟨steps - 1, by omega⟩
    -- The field itself, then the groups that it counts, then the fields that are left.
    have hextract := extractField_text message hreadable.tag hreadable.measured
      (hreadable.ends (FieldMap.sorted_before hsorted hfields) message
        (some (group.upTo (first :: before'))) fun _ => rfl) after
    have hnested := hread (first :: before') field rest hfields message
      ((group.upTo (first :: before')).appendField field.calculate) (group.textOf rest ++ text)
      steps (hfits.starts (first :: before' ++ [field]) (by simp [hfields]) htext)
      (by rw [← hafter]; omega)
    rw [FieldMap.upTo_concat hfits.tidy _ hfields] at hnested
    rw [setGroupLoop_field message msg map _ (by simp [FieldBase.getFixString]) hextract
      (by rw [FieldMap.tag_calculate, ← hfirst]; exact hother.symm)
      (by rw [FieldMap.tag_calculate]; exact hown field (by simp))
      (by rw [FieldMap.tag_calculate]; exact FieldMap.isSetField_upTo hsorted hfields),
      FieldMap.addField_upTo hsorted _ hfields, FieldMap.tag_calculate, hafter, hnested]
    refine ih (first :: before' ++ [field]) ?_ (by simp) ?_
    · rw [hfields, List.append_assoc]
      rfl
    · rw [hafter, List.length_append] at hsteps
      omega

/-- A group is read from its delimiter on. -/
theorem setGroupLoop_instance {group : FieldMap} (hgroup : IsInstance dictionary own delim group)
    (hfits : Fits msg dictionary own next group) (hread : GroupsRead msg own next group)
    {text : List Char} (htext : Starts next text) (current : Option FieldMap) (map : FieldMap)
    {steps : ℕ} (hsteps : (group.calculateString ++ text).length ≤ steps) :
    ∃ steps', text.length ≤ steps' ∧
      setGroupLoop message msg steps tag delim dictionary own current
          (group.calculateString ++ text) map
        = setGroupLoop message msg steps' tag delim dictionary own (some group.calculate) text
            (close tag current map) := by
  obtain ⟨first, rest, hfields, hfirst, -⟩ := hgroup.fields
  have hsorted := hfits.tidy.sorted
  have hreadable := hfits.readable [] hfields
  have hempty : Ascending (FieldBase.key group.order) [] := .nil
  set after := (group.groups.find first.tag).flatMap FieldMap.calculateString ++
    (group.textOf rest ++ text) with hafter
  have hstring : group.calculateString ++ text = first.getFixString ++ after := by
    rw [FieldMap.calculateString_eq_textOf, hfields, FieldMap.textOf_cons, List.append_assoc,
      List.append_assoc]
  rw [hstring] at hsteps ⊢
  have hpos := length_getFixString_pos first
  rw [List.length_append] at hsteps
  obtain ⟨steps, rfl⟩ : ∃ n, steps = n + 1 := ⟨steps - 1, by omega⟩
  -- The delimiter, the groups that it counts, and then the other fields of the group.
  have hextract := extractField_text message hreadable.tag hreadable.measured
    (hreadable.ends hempty message current fun hdata => by
      rw [hfirst, hgroup.data] at hdata
      cases hdata) after
  have hnested := hread [] first rest hfields message
    ((group.upTo []).appendField first.calculate) (group.textOf rest ++ text) steps
    (hfits.starts [first] hfields htext) (by rw [← hafter]; omega)
  rw [FieldMap.upTo_concat hfits.tidy [] hfields] at hnested
  rw [setGroupLoop_delim message msg map current (by simp [FieldBase.getFixString]) hextract
    (by rw [FieldMap.tag_calculate, hfirst]), ← hgroup.order, ← FieldMap.upTo_nil,
    FieldMap.addField_upTo hsorted [] hfields, FieldMap.tag_calculate, hafter, hnested]
  refine setGroupLoop_fields message tag hgroup hfits hread htext _ [first] hfields
    (List.cons_ne_nil _ _) ?_
  rw [hafter, List.length_append] at hsteps
  omega

/-- The groups of a field are read, up to a field that is none of theirs. -/
theorem setGroupLoop_instances (hfollows : Follows dictionary own delim next) {text : List Char}
    (htext : Starts next text) {groups : List FieldMap}
    (hgroups : ∀ earlier group later, groups = earlier ++ group :: later →
      IsInstance dictionary own delim group ∧
        Fits msg dictionary own (if later = [] then next else delim) group ∧
        GroupsRead msg own (if later = [] then next else delim) group)
    (current : Option FieldMap) (map : FieldMap) {steps : ℕ}
    (hsteps : (groups.flatMap FieldMap.calculateString ++ text).length ≤ steps) :
    setGroupLoop message msg steps tag delim dictionary own current
        (groups.flatMap FieldMap.calculateString ++ text) map
      = .ok ((groups.map FieldMap.calculate).foldl (fun map group => map.addGroup tag group)
          (close tag current map), text) := by
  induction groups generalizing current map steps with
  | nil =>
    have hdata : isDataField next (some dictionary) (some dictionary) = false :=
      (Bool.or_self _).trans hfollows.data
    obtain ⟨field, rest, hextract, htag⟩ := extractField_starts message htext hdata current
    obtain ⟨-, value, rfl, -⟩ := id htext
    obtain ⟨steps, rfl⟩ : ∃ n, steps = n + 1 := ⟨steps - 1, by simp at hsteps; omega⟩
    exact setGroupLoop_follows message msg map current (by simp) hextract (htag ▸ hfollows)
  | cons group groups ih =>
    obtain ⟨hgroup, hfits, hread⟩ := hgroups [] group groups rfl
    -- Behind a group comes the delimiter of the next one, or the text after the last.
    have hlater : Starts (if groups = [] then next else delim)
        (groups.flatMap FieldMap.calculateString ++ text) := by
      cases groups with
      | nil => exact htext
      | cons other later =>
        obtain ⟨hother, hfits', -⟩ := hgroups [group] other later rfl
        obtain ⟨first, rest, hfields, hfirst, -⟩ := hother.fields
        rw [if_neg (List.cons_ne_nil _ _), List.flatMap_cons, List.append_assoc,
          FieldMap.calculateString_eq_textOf, hfields, ← hfirst]
        exact starts_textOf other (hfits'.readable [] hfields).tag rest _
    rw [List.flatMap_cons, List.append_assoc] at hsteps ⊢
    obtain ⟨steps', hsteps', heq⟩ :=
      setGroupLoop_instance message tag hgroup hfits hread hlater current map hsteps
    rw [heq, ih (fun earlier other later hsplit => hgroups (group :: earlier) other later
      (by rw [hsplit, List.cons_append])) _ _ hsteps']
    rfl

end Instances

/-- The groups of a map that fits are read. The induction is on the depth of the groups. -/
theorem groupsRead {msg : List Char} {dictionary own : DataDictionary} {next : ℤ} {map : FieldMap}
    (h : Fits msg dictionary own next map) : GroupsRead msg own next map := by
  induction h with
  | @mk dictionary own next map htidy hread hplain hfollow hinstance hgroups ih =>
    intro before field after hfields message target text steps htext hsteps
    have hfield := FieldMap.mem_of_split hfields
    cases hfound : own.getGroup msg field.tag with
    | none =>
      rw [readNested, hfound, hplain field hfield hfound]
      rfl
    | some found =>
      obtain ⟨delim, inner⟩ := found
      have hfollows := hfollow before field after delim inner hfields hfound
      rw [readNested, hfound]
      refine setGroupLoop_instances message field.tag hfollows htext ?_ none target hsteps
      intro earlier group later hsplit
      have hgroup : group ∈ map.groups.find field.tag := by
        rw [hsplit]
        exact List.mem_append_right _ List.mem_cons_self
      exact ⟨hinstance field hfield delim inner hfound group hgroup,
        hgroups before field after delim inner hfields hfound earlier group later hsplit,
        ih before field after delim inner hfields hfound earlier group later hsplit⟩

end Message

end Harjus.Wire
