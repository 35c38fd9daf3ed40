import Harjus.Proofs.Wire.Groups

/-!
# `Harjus.Proofs.Wire.RoundTrip`: messages are read as they were written

`setString` reads what `toString` writes: the header, the body and the trailer with their groups,
and the body length and the checksum are as expected. What has been read of a message at some point is
`reading` some fields of each map.

* `loop_fields`: the fields of one map are read.
* `loop_message`: the whole text is read.
* `setString_text`, `setString_toString`: the message passes the checks, and each of its fields has
  its metrics.
-/

set_option autoImplicit false

namespace Harjus.Wire

open Harjus.Lib
open Harjus.FIX (SOH)
open Harjus.FIX.IntConvertor (convert)

/-! ### Metrics do not count -/

namespace FieldMap

/-- Metrics are calculated once. -/
theorem calculate_calculate (field : FieldBase) : field.calculate.calculate = field.calculate := by
  by_cases hvalid : field.metrics.isValid
  · have heq : field.calculate = field := by rw [FieldBase.calculate, if_pos hvalid]
    rw [heq, heq]
  · have heq : field.calculate = { field with metrics := .calculateMetrics field.getFixString } := by
      rw [FieldBase.calculate, if_neg hvalid]
    rw [heq, FieldBase.calculate, if_pos]
    show decide (0 < field.getFixString.length) = true
    rw [FieldBase.length_getFixString]
    exact decide_eq_true (by omega)

/-- A sum over some fields and the groups is the same with their metrics. -/
theorem weigh_calculate {weight : FieldBase → ℕ}
    (hweight : ∀ field, weight field.calculate = weight field) {map : FieldMap} (h : map.Tidy) :
    map.calculate.weigh weight = map.weigh weight := by
  induction h with
  | @mk order fields groups _ _ _ _ _ ih =>
    rw [calculate_mk, weigh, fold_mk, fold_mk, List.map_map, List.map_map, List.map_map,
      List.map_map]
    congr 2
    · exact List.map_congr_left fun field _ => hweight field
    · refine List.map_congr_left fun entry hentry => ?_
      show ((entry.2.map calculate).map (weigh weight)).sum = (entry.2.map (weigh weight)).sum
      rw [List.map_map]
      congr 1
      exact List.map_congr_left fun group hgroup => ih entry hentry group hgroup

/-- The length of a map is the same with the metrics of its fields. -/
theorem calculateLength_calculate {map : FieldMap} (h : map.Tidy) :
    map.calculate.calculateLength = map.calculateLength := by
  rw [calculateLength_weigh, calculateLength_weigh]
  refine weigh_calculate (fun field => ?_) h
  rw [tag_calculate, FieldBase.getLength, calculate_calculate]
  rfl

/-- The total of a map is the same with the metrics of its fields. -/
theorem calculateTotal_calculate {map : FieldMap} (h : map.Tidy) :
    map.calculate.calculateTotal = map.calculateTotal := by
  rw [calculateTotal_weigh, calculateTotal_weigh]
  refine weigh_calculate (fun field => ?_) h
  rw [tag_calculate, FieldBase.getTotal, calculate_calculate]
  rfl

/-- The fields of a map with their metrics. -/
theorem fields_calculate (map : FieldMap) :
    map.calculate.fields = map.fields.map FieldBase.calculate := by
  cases map with
  | mk order fields groups =>
    rw [calculate_mk]
    rfl

/-- A tidy map with the metrics of its fields is sorted. -/
theorem sorted_calculate {map : FieldMap} (h : map.Tidy) : map.calculate.Sorted := by
  rw [← upTo_fields h]
  exact sorted_upTo h.sorted

/-- A field is found as before, with its metrics. -/
theorem lookup_calculate {map : FieldMap} (h : map.Tidy) (tag : ℤ) :
    map.calculate.lookup tag = (map.lookup tag).map FieldBase.calculate := by
  rw [lookup_eq_find (sorted_calculate h), lookup_eq_find h.sorted, fields_calculate,
    List.find?_map]
  congr 2
  funext field
  show decide (field.calculate.tag = tag) = decide (field.tag = tag)
  rw [tag_calculate]

/-- A sorted map does not change when it is sorted. -/
theorem sortFields_eq {map : FieldMap} (h : map.Sorted) : map.sortFields = map := by
  have hpairwise : map.fields.Pairwise fun a b => ¬ map.order.compare b.tag a.tag :=
    List.Pairwise.imp (fun hlt hcompare =>
      lt_asymm hlt ((compare_iff map.order _ _).mp hcompare)) h
  rw [sortFields, hpairwise.insertionSort_eq]
  cases map with
  | mk order fields groups => rfl

end FieldMap

namespace Message

/-- The message with the metrics of its fields, in a valid structure. -/
def calculate (message : Message) : Message :=
  ⟨message.header.calculate, message.body.calculate, message.trailer.calculate, true, 0⟩

/-- The number that a field says is the same with its metrics. -/
theorem expected_calculate {map : FieldMap} (h : map.Tidy) (field : ℤ) (fieldName : String) :
    expected map.calculate field fieldName = expected map field fieldName := by
  rw [expected, expected, FieldMap.lookup_calculate h]
  cases map.lookup field with
  | none => rfl
  | some found => simp only [Option.map_some, FieldMap.string_calculate]

/-- The three maps are tidy. -/
structure Tidy (message : Message) : Prop where
  header : message.header.Tidy
  body : message.body.Tidy
  trailer : message.trailer.Tidy

/-- A message passes the checks with the metrics of its fields as it does without. -/
theorem validate_calculate {message : Message} (h : message.Tidy) :
    message.calculate.validate = message.validate := by
  have hlength : message.calculate.bodyLength = message.bodyLength := by
    show message.header.calculate.calculateLength + message.body.calculate.calculateLength +
      message.trailer.calculate.calculateLength = _
    rw [FieldMap.calculateLength_calculate h.header, FieldMap.calculateLength_calculate h.body,
      FieldMap.calculateLength_calculate h.trailer]
    rfl
  have hcheckSum : message.calculate.checkSum = message.checkSum := by
    show (message.header.calculate.calculateTotal + message.body.calculate.calculateTotal +
      message.trailer.calculate.calculateTotal) % 256 = _
    rw [FieldMap.calculateTotal_calculate h.header, FieldMap.calculateTotal_calculate h.body,
      FieldMap.calculateTotal_calculate h.trailer]
    rfl
  rw [validate, validate, hlength, hcheckSum,
    show message.calculate.header = message.header.calculate from rfl,
    show message.calculate.trailer = message.trailer.calculate from rfl,
    expected_calculate h.header, expected_calculate h.trailer]

/-- A tidy message is already in the order of its fields. -/
theorem sortFields_calculate {message : Message} (h : message.Tidy) :
    message.calculate.sortFields = message.calculate := by
  show Message.mk message.header.calculate.sortFields message.body.calculate.sortFields
    message.trailer.calculate.sortFields true 0 = _
  rw [FieldMap.sortFields_eq (FieldMap.sorted_calculate h.header),
    FieldMap.sortFields_eq (FieldMap.sorted_calculate h.body),
    FieldMap.sortFields_eq (FieldMap.sorted_calculate h.trailer)]
  rfl

/-! ### Where a field is read to -/

/-- The map that a field is read to. -/
def placeOf (dictionary : DataDictionary) (tag : ℤ) : FieldType :=
  if isHeaderField tag (some dictionary) then .header
  else if isTrailerField tag (some dictionary) then .trailer
  else .body

/-- One map of a message, in front of a field with the tag `next`. -/
structure Section (dictionary : DataDictionary) (msg : List Char) (place : FieldType) (next : ℤ)
    (map : FieldMap) : Prop where
  fits : Wire.Fits msg dictionary dictionary next map
  places : ∀ field ∈ map.fields, placeOf dictionary field.tag = place
  lengths : ∀ field ∈ map.fields, dictionary.isDataField field.tag →
    placeOf dictionary (lengthField field.tag) = place

/-- A message that is read from its text with the dictionary. -/
structure Fits (dictionary : DataDictionary) (msgType : List Char) (message : Message) : Prop where
  headerOrder : message.header.order = .header
  bodyOrder : message.body.order = .normal
  trailerOrder : message.trailer.order = .trailer
  header : Section dictionary "_header_".toList .header
    (headTag message.body.fields (headTag message.trailer.fields 10)) message.header
  body : Section dictionary msgType .body (headTag message.trailer.fields 10) message.body
  trailer : Section dictionary "_trailer_".toList .trailer 10 message.trailer
  beginString : ∃ field ∈ message.header.fields, field.tag = 8
  bodyLength : ∃ field ∈ message.header.fields, field.tag = 9
  msgType : ∃ field ∈ message.header.fields, field.tag = 35 ∧ field.string = msgType
  checkSum : ∃ field ∈ message.trailer.fields, field.tag = 10
  plain : dictionary.getGroup "_trailer_".toList 10 = none

/-- A message that fits has tidy maps. -/
theorem Fits.tidy {dictionary : DataDictionary} {msgType : List Char} {message : Message}
    (h : message.Fits dictionary msgType) : message.Tidy :=
  ⟨h.header.fits.tidy, h.body.fits.tidy, h.trailer.fits.tidy⟩

/-! ### Reading a map -/

section Reading
variable (message : Message) (dictionary : DataDictionary) (msgType : List Char)

/-- What has been read with some fields of the three maps. -/
def reading (header body trailer : List FieldBase) : Decoding where
  message := ⟨message.header.upTo header, message.body.upTo body, message.trailer.upTo trailer,
    true, 0⟩
  count := min header.length 3
  msg := if header.any fun field => field.tag = 35 then msgType else []
  type := if trailer.isEmpty then (if body.isEmpty then .header else .body) else .trailer
  appDD := some dictionary

variable {message dictionary msgType}

/-- The length of a data field is looked for in the map of its place. -/
theorem location_reading (header body trailer : List FieldBase) (tag : ℤ) :
    (reading message dictionary msgType header body trailer).message.location tag
        (some dictionary) none
      = match placeOf dictionary tag with
        | .header => message.header.upTo header
        | .body => message.body.upTo body
        | .trailer => message.trailer.upTo trailer := by
  unfold location placeOf
  split
  · rfl
  · split <;> rfl

/-- `setGroup` is what reads the groups of a field. -/
theorem setGroup_eq (message : Message) (msg : List Char) (field : FieldBase)
    (string : List Char) (map : FieldMap) (dictionary : DataDictionary) :
    message.setGroup msg field string map dictionary
      = message.readNested msg string.length dictionary field.tag string map := by
  unfold setGroup readNested
  cases dictionary.getGroup msg field.tag with
  | none => rfl
  | some found => rfl

/-- The groups of a field are read into the map. -/
theorem readGroups_section {msg : List Char} {place : FieldType} {next : ℤ} {map : FieldMap}
    (h : Section dictionary msg place next map) {before after : List FieldBase} {field : FieldBase}
    (hfields : map.fields = before ++ field :: after) {text : List Char}
    (htext : Starts (headTag after next) text) (d : Decoding) :
    d.readGroups msg field.calculate
        ((map.groups.find field.tag).flatMap FieldMap.calculateString ++ text)
        ((map.upTo before).appendField field.calculate) (some dictionary)
      = .ok (map.upTo (before ++ [field]), text) := by
  show d.message.setGroup msg field.calculate _ _ dictionary = _
  rw [setGroup_eq, FieldMap.tag_calculate,
    groupsRead h.fits before field after hfields _ _ text _ htext (le_refl _),
    FieldMap.upTo_concat h.fits.tidy before hfields]

/-- A field of a section is read from the text. -/
theorem extractField_section {msg : List Char} {place : FieldType} {next : ℤ} {map : FieldMap}
    (h : Section dictionary msg place next map) {before after : List FieldBase} {field : FieldBase}
    (hfields : map.fields = before ++ field :: after) (message : Message)
    (hlocation : ∀ tag, placeOf dictionary tag = place →
      message.location tag (some dictionary) none = map.upTo before) (text : List Char) :
    message.extractField (field.getFixString ++ text) (some dictionary) (some dictionary) none
      = .ok (field.calculate, text) := by
  have hreadable := h.fits.readable before hfields
  exact extractField_text message hreadable.tag hreadable.measured
    (hreadable.ends (FieldMap.sorted_before h.fits.tidy.sorted hfields) message none
      fun hdata => hlocation _ (h.lengths field (FieldMap.mem_of_split hfields) hdata)) text

namespace Decoding

/-- A step of the loop of `setString`. -/
theorem loop_step {d d' : Decoding} {field : FieldBase} {string rest rest' : List Char}
    {steps : ℕ} (hstring : string ≠ []) (happDD : d.appDD = some dictionary)
    (hextract : d.message.extractField string (some dictionary) (some dictionary) none
      = .ok (field, rest))
    (horder : d.count < 3 → headerOrder.getD d.count 0 = field.tag)
    (hread : readField { d with count := if d.count < 3 then d.count + 1 else d.count } field rest
      (some dictionary) = .ok (d', rest')) :
    loop true (some dictionary) (steps + 1) d string
      = loop true (some dictionary) steps d' rest' := by
  have hown : d.message.extractField string (some dictionary) d.appDD none = .ok (field, rest) := by
    rw [happDD]
    exact hextract
  rw [loop, if_neg hstring, hown]
  simp only [bind, Except.bind]
  rw [if_neg fun hwrong => hwrong.2.1 (horder hwrong.1), hread]

/-- At the end of the text the loop stops. -/
theorem loop_nil (steps : ℕ) (d : Decoding) :
    loop true (some dictionary) steps d [] = .ok d := by
  cases steps with
  | zero => rfl
  | succ steps => exact if_pos rfl

/-- The fields of one map are read. The induction is on the fields that are left. -/
theorem loop_fields {msg : List Char} {next : ℤ} {map : FieldMap}
    (h : Wire.Fits msg dictionary dictionary next map) {state : List FieldBase → Decoding}
    (hstep : ∀ before field after, map.fields = before ++ field :: after →
      ∀ text steps, Starts (headTag after next) text →
        loop true (some dictionary) (steps + 1) (state before) (field.getFixString ++
            ((map.groups.find field.tag).flatMap FieldMap.calculateString ++ text))
          = loop true (some dictionary) steps (state (before ++ [field])) text)
    (before rest : List FieldBase) {later : List FieldBase}
    (hfields : map.fields = before ++ (rest ++ later)) {text : List Char}
    (htext : Starts (headTag later next) text) {steps : ℕ}
    (hsteps : (map.textOf rest ++ text).length ≤ steps) :
    ∃ steps', text.length ≤ steps' ∧
      loop true (some dictionary) steps (state before) (map.textOf rest ++ text)
        = loop true (some dictionary) steps' (state (before ++ rest)) text := by
  induction rest generalizing before steps with
  | nil =>
    rw [List.append_nil]
    exact ⟨steps, hsteps, rfl⟩
  | cons field rest ih =>
    -- What follows the field is the next one of the map, or the text after it.
    have hstarts : Starts (headTag (rest ++ later) next) (map.textOf rest ++ text) := by
      cases rest with
      | nil => exact htext
      | cons other rest =>
        have hother : map.fields = (before ++ [field]) ++ other :: (rest ++ later) := by
          rw [hfields]
          simp
        exact starts_textOf map (h.readable _ hother).tag rest text
    have hstring : map.textOf (field :: rest) ++ text = field.getFixString ++
        ((map.groups.find field.tag).flatMap FieldMap.calculateString ++
          (map.textOf rest ++ text)) := by
      rw [FieldMap.textOf_cons, List.append_assoc, List.append_assoc]
    rw [hstring] at hsteps ⊢
    -- A field is not empty, so its step leaves enough fuel for the rest of the text.
    have hpos := length_getFixString_pos field
    simp only [List.length_append] at hsteps
    obtain ⟨steps, rfl⟩ : ∃ n, steps = n + 1 := ⟨steps - 1, by omega⟩
    have hleft : (map.textOf rest ++ text).length ≤ steps := by
      rw [List.length_append]
      omega
    rw [hstep before field (rest ++ later) hfields _ steps hstarts]
    obtain ⟨steps', hsteps', heq⟩ := ih (before ++ [field])
      (by rw [hfields]; simp) hleft
    refine ⟨steps', hsteps', heq.trans ?_⟩
    rw [List.append_assoc]
    rfl

end Decoding

namespace Decoding

/-- A field of the header is read. -/
theorem headerField_reading {before : List FieldBase} {field : FieldBase} {string text : List Char}
    (hmsg : field.tag = 35 → field.string = msgType)
    (hgroups : ∀ d : Decoding, d.readGroups "_header_".toList field.calculate string
        ((message.header.upTo before).appendField field.calculate) (some dictionary)
      = .ok (message.header.upTo (before ++ [field]), text)) (count : ℕ) :
    headerField { reading message dictionary msgType before [] [] with count := count }
        field.calculate string (some dictionary)
      = .ok ({ reading message dictionary msgType (before ++ [field]) [] [] with count := count },
          text) := by
  unfold headerField
  rw [FieldMap.tag_calculate, FieldMap.string_calculate]
  have htype : ¬ (reading message dictionary msgType before [] []).type ≠ .header :=
    not_not_intro rfl
  dsimp only
  rw [if_neg htype]
  by_cases htag : field.tag = 35
  · have hany : ((before ++ [field]).any fun field => field.tag = 35) = true := by simp [htag]
    rw [if_pos htag, hmsg htag]
    dsimp only [reading]
    rw [hgroups, ite_self, hany]
    rfl
  · have hany : ((before ++ [field]).any fun field => field.tag = 35)
        = before.any fun field => field.tag = 35 := by simp [htag]
    rw [if_neg htag]
    dsimp only [reading]
    rw [hgroups, hany]
    rfl

/-- A field of the body is read. -/
theorem bodyField_reading {header before : List FieldBase} {field : FieldBase}
    {string text : List Char} (hmsg : header.any fun field => field.tag = 35)
    (hgroups : ∀ d : Decoding, d.readGroups msgType field.calculate string
        ((message.body.upTo before).appendField field.calculate) (some dictionary)
      = .ok (message.body.upTo (before ++ [field]), text)) (count : ℕ) :
    bodyField { reading message dictionary msgType header before [] with count := count }
        field.calculate string
      = .ok ({ reading message dictionary msgType header (before ++ [field]) []
          with count := count }, text) := by
  have htype : ¬ (reading message dictionary msgType header before []).type = .trailer := by
    show ¬ (if before.isEmpty then FieldType.header else .body) = .trailer
    split <;> decide
  have hempty : (before ++ [field]).isEmpty = false := by simp
  unfold bodyField
  dsimp only
  rw [if_neg htype]
  dsimp only [reading]
  rw [if_pos hmsg, hgroups, hempty]
  rfl

/-- A field of the trailer is read. -/
theorem trailerField_reading {header body before : List FieldBase} {field : FieldBase}
    {string text : List Char}
    (hgroups : ∀ d : Decoding, d.readGroups "_trailer_".toList field.calculate string
        ((message.trailer.upTo before).appendField field.calculate) (some dictionary)
      = .ok (message.trailer.upTo (before ++ [field]), text)) (count : ℕ) :
    trailerField { reading message dictionary msgType header body before with count := count }
        field.calculate string (some dictionary)
      = .ok ({ reading message dictionary msgType header body (before ++ [field])
          with count := count }, text) := by
  have hempty : (before ++ [field]).isEmpty = false := by simp
  unfold trailerField
  dsimp only [reading]
  rw [hgroups, hempty]
  rfl

end Decoding

/-! ### The three maps in turn -/

/-- No other tag than the first two comes before `MsgType`. -/
theorem headerCompare_thirtyFive {x : ℤ} (height : x ≠ 8) (hnine : x ≠ 9) :
    headerCompare x 35 = false := by
  unfold headerCompare compareByPosition headerPosition
  grind

/-- The header starts with the fields that `setString` expects first. -/
theorem Fits.start (h : message.Fits dictionary msgType) :
    ∃ version length type rest, message.header.fields = version :: length :: type :: rest ∧
      version.tag = 8 ∧ length.tag = 9 ∧ type.tag = 35 := by
  obtain ⟨version, hversion, height⟩ := h.beginString
  obtain ⟨length, hlength, hnine⟩ := h.bodyLength
  obtain ⟨type, htype, hthirtyFive, -⟩ := h.msgType
  have hsorted := h.tidy.header.sorted
  obtain ⟨rest, hfields, hrest⟩ :=
    FieldMap.header_fields hsorted h.headerOrder hversion hlength height hnine
  have hin : type ∈ rest := by
    rw [hfields] at htype
    rcases List.mem_cons.mp htype with heq | htype
    · rw [heq, height] at hthirtyFive
      exact absurd hthirtyFive (by decide)
    · rcases List.mem_cons.mp htype with heq | htype
      · rw [heq, hnine] at hthirtyFive
        exact absurd hthirtyFive (by decide)
      · exact htype
  rw [FieldMap.Sorted, h.headerOrder, hfields] at hsorted
  obtain ⟨rest', rfl⟩ := hsorted.of_cons.of_cons.eq_cons_of_least hin fun field hfield => by
    have hother := (hrest field hfield).2
    show MessageOrder.key .header type.tag ≤ MessageOrder.key .header field.tag
    rw [hthirtyFive]
    exact key_le (headerCompare_thirtyFive (fun heq => hother (by simp [heq]))
      fun heq => hother (by simp [heq]))
  exact ⟨version, length, type, rest', hfields, height, hnine, hthirtyFive⟩

/-- The first three fields of a message are of its header. -/
theorem Fits.length_header (h : message.Fits dictionary msgType) :
    min message.header.fields.length 3 = 3 := by
  obtain ⟨version, length, type, rest, hfields, -⟩ := h.start
  rw [hfields]
  simp

/-- The header has a type. -/
theorem Fits.any_header (h : message.Fits dictionary msgType) :
    (message.header.fields.any fun field => field.tag = 35) = true := by
  obtain ⟨field, hfield, htag, -⟩ := h.msgType
  exact List.any_eq_true.mpr ⟨field, hfield, decide_eq_true htag⟩

/-- The first three fields are in order. -/
theorem order_of_fits (h : message.Fits dictionary msgType) {before after : List FieldBase}
    {field : FieldBase} (hfields : message.header.fields = before ++ field :: after)
    (hlt : min before.length 3 < 3) : headerOrder.getD (min before.length 3) 0 = field.tag := by
  obtain ⟨version, length, type, rest, hstart, height, hnine, hthirtyFive⟩ := h.start
  rw [hstart] at hfields
  match before, hfields, hlt with
  | [], hfields, _ =>
    rw [← (List.cons.inj hfields).1, height]
    rfl
  | [_], hfields, _ =>
    rw [← (List.cons.inj (List.cons.inj hfields).2).1, hnine]
    rfl
  | [_, _], hfields, _ =>
    rw [← (List.cons.inj (List.cons.inj (List.cons.inj hfields).2).2).1, hthirtyFive]
    rfl
  | _ :: _ :: _ :: before, _, hlt =>
    simp only [List.length_cons] at hlt
    omega

/-- The type of the message is the only one. -/
theorem Fits.string_eq (h : message.Fits dictionary msgType) {field : FieldBase}
    (hfield : field ∈ message.header.fields) (htag : field.tag = 35) : field.string = msgType := by
  obtain ⟨type, htype, hthirtyFive, hstring⟩ := h.msgType
  rw [← hstring]
  refine congrArg FieldBase.string (h.tidy.header.sorted.eq_of_key_eq hfield htype ?_)
  show message.header.order.key field.tag = message.header.order.key type.tag
  rw [htag, hthirtyFive]

/-- A field that is placed in the header is one of the header. -/
theorem isHeaderField_of_placeOf {tag : ℤ} (h : placeOf dictionary tag = .header) :
    isHeaderField tag (some dictionary) = true := by
  unfold placeOf at h
  split at h
  · assumption
  · split at h <;> cases h

/-- A field that is placed in the trailer is one of the trailer, and not of the header. -/
theorem isTrailerField_of_placeOf {tag : ℤ} (h : placeOf dictionary tag = .trailer) :
    ¬ isHeaderField tag (some dictionary) ∧ isTrailerField tag (some dictionary) := by
  unfold placeOf at h
  split at h
  · cases h
  · split at h
    · exact ⟨by assumption, by assumption⟩
    · cases h

/-- A field that is placed in the body is of no other part. -/
theorem isBodyField_of_placeOf {tag : ℤ} (h : placeOf dictionary tag = .body) :
    ¬ isHeaderField tag (some dictionary) ∧ ¬ isTrailerField tag (some dictionary) := by
  unfold placeOf at h
  split at h
  · cases h
  · split at h
    · cases h
    · exact ⟨by assumption, by assumption⟩

namespace Decoding

/-- One step of the loop in the header: a field is read with its groups, and the first three are
the ones expected there. -/
theorem loop_header (h : message.Fits dictionary msgType) (before : List FieldBase)
    (field : FieldBase) (after : List FieldBase)
    (hfields : message.header.fields = before ++ field :: after) (text : List Char) (steps : ℕ)
    (htext : Starts (headTag after
      (headTag message.body.fields (headTag message.trailer.fields 10))) text) :
    loop true (some dictionary) (steps + 1) (reading message dictionary msgType before [] [])
        (field.getFixString ++
          ((message.header.groups.find field.tag).flatMap FieldMap.calculateString ++ text))
      = loop true (some dictionary) steps
          (reading message dictionary msgType (before ++ [field]) [] []) text := by
  have hfield := FieldMap.mem_of_split hfields
  have hplace := h.header.places field hfield
  refine loop_step (by simp [FieldBase.getFixString]) rfl
    (extractField_section h.header hfields _ (fun tag htag => by rw [location_reading, htag]) _)
    (fun hlt => ?_) ?_
  · rw [FieldMap.tag_calculate]
    exact order_of_fits h hfields hlt
  · have hcount : (if min before.length 3 < 3 then min before.length 3 + 1
        else min before.length 3) = min (before ++ [field]).length 3 := by
      rw [List.length_append, List.length_singleton]
      split <;> omega
    unfold readField
    rw [FieldMap.tag_calculate, if_pos (isHeaderField_of_placeOf hplace)]
    refine (headerField_reading (h.string_eq hfield)
      (fun d => readGroups_section h.header hfields htext d) _).trans ?_
    show Except.ok ({ reading message dictionary msgType (before ++ [field]) [] [] with
      count := if min before.length 3 < 3 then min before.length 3 + 1
        else min before.length 3 }, text) = _
    rw [hcount]
    rfl

/-- One step of the loop in the body: a field is read with its groups. -/
theorem loop_body (h : message.Fits dictionary msgType) (before : List FieldBase)
    (field : FieldBase) (after : List FieldBase)
    (hfields : message.body.fields = before ++ field :: after) (text : List Char) (steps : ℕ)
    (htext : Starts (headTag after (headTag message.trailer.fields 10)) text) :
    loop true (some dictionary) (steps + 1)
        (reading message dictionary msgType message.header.fields before [])
        (field.getFixString ++
          ((message.body.groups.find field.tag).flatMap FieldMap.calculateString ++ text))
      = loop true (some dictionary) steps
          (reading message dictionary msgType message.header.fields (before ++ [field]) [])
          text := by
  obtain ⟨hheader, htrailer⟩ :=
    isBodyField_of_placeOf (h.body.places field (FieldMap.mem_of_split hfields))
  have hcount : (reading message dictionary msgType message.header.fields before []).count = 3 :=
    h.length_header
  refine loop_step (by simp [FieldBase.getFixString]) rfl
    (extractField_section h.body hfields _ (fun tag htag => by rw [location_reading, htag]) _)
    (fun hlt => absurd hlt (by rw [hcount]; omega)) ?_
  unfold readField
  rw [FieldMap.tag_calculate, if_neg hheader, if_neg htrailer]
  refine (bodyField_reading h.any_header
    (fun d => readGroups_section h.body hfields htext d) _).trans ?_
  rw [hcount, if_neg (by omega), ← h.length_header]
  rfl

/-- A field of the trailer is read, if its groups are. -/
theorem loop_trailer_of (h : message.Fits dictionary msgType) {before : List FieldBase}
    {field : FieldBase} {after : List FieldBase}
    (hfields : message.trailer.fields = before ++ field :: after) {string text : List Char}
    (hgroups : ∀ d : Decoding, d.readGroups "_trailer_".toList field.calculate string
        ((message.trailer.upTo before).appendField field.calculate) (some dictionary)
      = .ok (message.trailer.upTo (before ++ [field]), text)) (steps : ℕ) :
    loop true (some dictionary) (steps + 1)
        (reading message dictionary msgType message.header.fields message.body.fields before)
        (field.getFixString ++ string)
      = loop true (some dictionary) steps
          (reading message dictionary msgType message.header.fields message.body.fields
            (before ++ [field])) text := by
  obtain ⟨hheader, htrailer⟩ :=
    isTrailerField_of_placeOf (h.trailer.places field (FieldMap.mem_of_split hfields))
  have hcount : (reading message dictionary msgType message.header.fields message.body.fields
      before).count = 3 := h.length_header
  refine loop_step (by simp [FieldBase.getFixString]) rfl
    (extractField_section h.trailer hfields _ (fun tag htag => by rw [location_reading, htag]) _)
    (fun hlt => absurd hlt (by rw [hcount]; omega)) ?_
  unfold readField
  rw [FieldMap.tag_calculate, if_neg hheader, if_pos htrailer]
  refine (trailerField_reading hgroups _).trans ?_
  rw [hcount, if_neg (by omega), ← h.length_header]
  rfl

/-- One step of the loop in the trailer: a field is read with its groups. -/
theorem loop_trailer (h : message.Fits dictionary msgType) (before : List FieldBase)
    (field : FieldBase) (after : List FieldBase)
    (hfields : message.trailer.fields = before ++ field :: after) (text : List Char) (steps : ℕ)
    (htext : Starts (headTag after 10) text) :
    loop true (some dictionary) (steps + 1)
        (reading message dictionary msgType message.header.fields message.body.fields before)
        (field.getFixString ++
          ((message.trailer.groups.find field.tag).flatMap FieldMap.calculateString ++ text))
      = loop true (some dictionary) steps
          (reading message dictionary msgType message.header.fields message.body.fields
            (before ++ [field])) text :=
  loop_trailer_of h hfields (fun d => readGroups_section h.trailer hfields htext d) steps

end Decoding

/-! ### The whole text -/

/-- The last field of the trailer is the checksum, and has no groups. -/
theorem Fits.trailer_fields (h : message.Fits dictionary msgType) :
    ∃ before checkSum, message.trailer.fields = before ++ [checkSum] ∧ checkSum.tag = 10 ∧
      message.trailer.groups.find 10 = [] := by
  obtain ⟨checkSum, hcheckSum, hten⟩ := h.checkSum
  obtain ⟨before, hfields, -⟩ :=
    FieldMap.trailer_fields h.tidy.trailer.sorted h.trailerOrder hcheckSum hten
  refine ⟨before, checkSum, hfields, hten, ?_⟩
  rw [← hten]
  exact h.trailer.fits.plain hcheckSum (by rw [hten]; exact h.plain)

/-- The text of a message is read to its end. -/
theorem loop_message (h : message.Fits dictionary msgType) :
    Decoding.loop true (some dictionary)
        (message.header.calculateString ++ message.body.calculateString ++
          message.trailer.calculateString).length
        ⟨.new, 0, [], .header, some dictionary⟩
        (message.header.calculateString ++ message.body.calculateString ++
          message.trailer.calculateString)
      = .ok (reading message dictionary msgType message.header.fields message.body.fields
          message.trailer.fields) := by
  -- The text: header, body, the trailer up to its last field, and that field, which ends it.
  obtain ⟨before, checkSum, htrailer, hten, hplain⟩ := h.trailer_fields
  have hcheckSum : IsTag checkSum.tag := (h.trailer.fits.readable before htrailer).tag
  set last := checkSum.getFixString with hlast
  have hlastText : message.trailer.textOf [checkSum] = last := by
    rw [FieldMap.textOf_cons, hten, hplain, FieldMap.textOf]
    simp [hlast]
  have hstartsLast : Starts (headTag [checkSum] 10) (last ++ []) := by
    rw [← hlastText]
    exact starts_textOf message.trailer hcheckSum [] []
  set trailerText := message.trailer.textOf before ++ (last ++ []) with htrailerText
  set bodyText := message.body.textOf message.body.fields ++ trailerText with hbodyText
  have htext : message.header.calculateString ++ message.body.calculateString ++
      message.trailer.calculateString
        = message.header.textOf message.header.fields ++ bodyText := by
    rw [FieldMap.calculateString_eq_textOf, FieldMap.calculateString_eq_textOf,
      FieldMap.calculateString_eq_textOf, htrailer, hbodyText, htrailerText, List.append_nil,
      ← hlastText, FieldMap.textOf_append, List.append_assoc]
  -- Each section is followed by the first tag of a section that comes after it.
  have hstartsTrailer : Starts (headTag message.trailer.fields 10) trailerText := by
    rw [htrailer]
    cases hbefore : before with
    | nil =>
      rw [htrailerText, hbefore]
      exact hstartsLast
    | cons first others =>
      have hfirst : IsTag first.tag :=
        (h.trailer.fits.readable [] (by rw [htrailer, hbefore]; rfl)).tag
      rw [htrailerText, hbefore]
      exact starts_textOf message.trailer hfirst others (last ++ [])
  have hstartsBody : Starts (headTag message.body.fields (headTag message.trailer.fields 10))
      bodyText := h.body.fits.starts [] rfl hstartsTrailer
  have hinit : (⟨.new, 0, [], .header, some dictionary⟩ : Decoding)
      = reading message dictionary msgType [] [] [] := by
    unfold reading
    rw [FieldMap.upTo_nil, FieldMap.upTo_nil, FieldMap.upTo_nil, h.headerOrder, h.bodyOrder,
      h.trailerOrder]
    rfl
  rw [htext, hinit]
  -- The three sections one after the other, each with the fuel that the one before leaves.
  obtain ⟨steps, hsteps, hheaderRead⟩ := Decoding.loop_fields h.header.fits
    (Decoding.loop_header h) [] message.header.fields (List.append_nil _).symm hstartsBody
    (le_refl _)
  obtain ⟨steps', hsteps', hbodyRead⟩ := Decoding.loop_fields h.body.fits
    (Decoding.loop_body h) [] message.body.fields (List.append_nil _).symm hstartsTrailer hsteps
  obtain ⟨steps'', hsteps'', htrailerRead⟩ := Decoding.loop_fields h.trailer.fits
    (Decoding.loop_trailer h) [] before htrailer hstartsLast hsteps'
  have hpos : 0 < last.length := length_getFixString_pos checkSum
  obtain ⟨n, rfl⟩ : ∃ n, steps'' = n + 1 := ⟨steps'' - 1, by
    rw [List.append_nil] at hsteps''
    omega⟩
  -- CheckSum is the last field: nothing follows it in which a group could be looked for
  have hgroups : ∀ d : Decoding, d.readGroups "_trailer_".toList checkSum.calculate []
      ((message.trailer.upTo before).appendField checkSum.calculate) (some dictionary)
        = .ok (message.trailer.upTo (before ++ [checkSum]), []) := by
    intro d
    have hconcat := FieldMap.upTo_concat h.tidy.trailer before htrailer
    rw [hten, hplain] at hconcat
    show d.message.setGroup _ _ _ _ dictionary = _
    rw [setGroup_eq, FieldMap.tag_calculate, hten, readNested, h.plain, ← hconcat]
    rfl
  rw [hheaderRead, List.nil_append, hbodyRead, List.nil_append, htrailerRead, List.nil_append,
    Decoding.loop_trailer_of h htrailer hgroups, Decoding.loop_nil, htrailer]

/-- What has been read with all fields is the message. -/
theorem message_reading (h : message.Fits dictionary msgType) :
    (reading message dictionary msgType message.header.fields message.body.fields
      message.trailer.fields).message = message.calculate := by
  show Message.mk (message.header.upTo _) (message.body.upTo _) (message.trailer.upTo _) true 0 = _
  rw [FieldMap.upTo_fields h.tidy.header, FieldMap.upTo_fields h.tidy.body,
    FieldMap.upTo_fields h.tidy.trailer]
  rfl

end Reading

/-- A message that passes the checks is read from its text. -/
theorem setString_text {message : Message} {dictionary : DataDictionary} {msgType : List Char}
    (hvalid : message.validate = .ok ()) (h : message.Fits dictionary msgType) :
    setString (message.header.calculateString ++ message.body.calculateString ++
        message.trailer.calculateString) true (some dictionary) (some dictionary)
      = .ok message.calculate := by
  have hread : message.calculate.validate = .ok () := by
    rw [validate_calculate h.tidy]
    exact hvalid
  rw [setString, loop_message h]
  simp only [bind, Except.bind]
  rw [message_reading h, sortFields_calculate h.tidy, if_pos trivial, hread]
  rfl

/-- A message is read as it was written, with the body length, the checksum and the metrics of its
fields. -/
theorem setString_toString {message : Message} {dictionary : DataDictionary} {msgType : List Char}
    (hsorted : message.Sorted) (hbounded : message.Bounded)
    (h : message.complete.Fits dictionary msgType) :
    setString message.toString true (some dictionary) (some dictionary)
      = .ok message.complete.calculate :=
  setString_text (validate_complete hsorted hbounded.length) h

/-! ### A message with groups in a group -/

/-- The group of the accounts of an order. -/
def accountGroup : DataDictionary := ⟨[], [], [], [79, 80], [79, 80], []⟩

/-- The group of orders, each with some data and its accounts. -/
def orderGroup : DataDictionary :=
  ⟨[], [], [], [11, 95, 96, 78], [11, 95, 96, 78], [((78, ['E']), 79, accountGroup)]⟩

/-- A dictionary with the group of orders and two data fields. -/
def orderDictionary : DataDictionary := ⟨[], [], [96, 349], [], [], [((73, ['E']), 11, orderGroup)]⟩

/-- An account of an order. -/
def account (name : Char) : FieldMap :=
  .mk (.group [79, 80]) [.new 79 [name], .new 80 ['5']] []

/-- An order without accounts. -/
def plainOrder : FieldMap := .mk (.group [11, 95, 96, 78]) [.new 11 ['b']] []

/-- The fields of an order before its accounts. The second byte of the data is `SOH`. -/
def orderData : FieldMap :=
  .mk (.group [11, 95, 96, 78]) [.new 11 ['a'], .new 95 ['4'], .new 96 ['x', SOH, '1', '=']] []

/-- An order with data and two accounts. -/
def order : FieldMap :=
  (orderData.addGroupWithCount 78 (account 'p')).addGroupWithCount 78 (account 'q')

/-- The fields of the body after the orders. The text of the second one has `SOH` at its end. -/
def orderText : FieldMap := .mk .normal [.new 348 ['2'], .new 349 ['t', SOH]] []

/-- A message with two orders. -/
def orderList : Message where
  header := .mk .header [.new 8 ['F'], .new 35 ['E']] []
  body := (orderText.addGroupWithCount 73 order).addGroupWithCount 73 plainOrder
  trailer := .new .trailer
  validStructure := true
  tag := 0

/-- The order, as its count field and its groups have come about. -/
theorem order_eq : order = .mk (.group [11, 95, 96, 78])
    [.new 11 ['a'], .new 95 ['4'], .new 96 ['x', SOH, '1', '='], .new 78 ['2']]
    [(78, [account 'p', account 'q'])] := rfl

/-- The body of the message, as its count field and its groups have come about. -/
theorem body_orderList : orderList.body = .mk .normal
    [.new 73 ['2'], .new 348 ['2'], .new 349 ['t', SOH]] [(73, [order, plainOrder])] := rfl

/-- A map is sorted when its tags are, which can be computed. -/
theorem sorted_of_tags {map : FieldMap} (order : MessageOrder) (tags : List ℤ)
    (horder : map.order = order) (htags : map.fields.map FieldBase.tag = tags)
    (h : tags.Pairwise fun a b => order.compare a b) : map.Sorted := by
  rw [← htags, ← horder] at h
  exact (List.pairwise_map.mp h).imp fun hlt => (compare_iff map.order _ _).mp hlt

/-- What holds at the head of a list and at each place behind it holds at each place. -/
theorem forall_splits_cons {α : Type} {p : List α → α → List α → Prop} {x : α} {xs : List α}
    (hhead : p [] x xs)
    (htail : ∀ before y after, xs = before ++ y :: after → p (x :: before) y after) :
    ∀ before y after, x :: xs = before ++ y :: after → p before y after := by
  intro before y after hsplit
  cases before with
  | nil =>
    obtain ⟨rfl, rfl⟩ := List.cons.inj hsplit
    exact hhead
  | cons z before =>
    obtain ⟨rfl, hrest⟩ := List.cons.inj hsplit
    exact htail before y after hrest

/-- An empty list has no places. -/
theorem forall_splits_nil {α : Type} {p : List α → α → List α → Prop} :
    ∀ before y after, [] = before ++ y :: after → p before y after := by
  intro before y after hsplit
  simp at hsplit

/-- An account is read again in front of any field. -/
theorem fits_account (name : Char) (hname : name ≠ SOH) (next : ℤ) :
    Wire.Fits ['E'] orderGroup accountGroup next (account name) :=
  .of_plain (sorted_of_tags (.group [79, 80]) [79, 80] rfl rfl (by decide)) rfl
    fun field hfield => by
    have hnine : IsTag 79 := ⟨by decide, by decide⟩
    simp only [account, FieldMap.fields, List.mem_cons, List.not_mem_nil, or_false] at hfield
    rcases hfield with rfl | rfl
    · exact ⟨hnine, Or.inl rfl, rfl, by simpa [FieldBase.new] using hname.symm, rfl⟩
    · exact ⟨⟨by decide, by decide⟩, Or.inl rfl, rfl, by decide, rfl⟩

/-- An account starts with its name, and its other field belongs to the group. -/
theorem isInstance_account (name : Char) : IsInstance orderGroup accountGroup 79 (account name) :=
  ⟨rfl, rfl, _, _, rfl, rfl, by decide⟩

/-- An order with its name alone is read again in front of any field. -/
theorem fits_plainOrder (next : ℤ) :
    Wire.Fits ['E'] orderDictionary orderGroup next plainOrder :=
  .of_plain (sorted_of_tags (.group [11, 95, 96, 78]) [11] rfl rfl (by decide)) rfl
    fun field hfield => by
    rw [List.mem_singleton.mp hfield]
    exact ⟨⟨by decide, by decide⟩, Or.inl rfl, rfl, by decide, rfl⟩

/-- The order is tidy: it has been put together with `addGroup`. -/
theorem tidy_order : order.Tidy :=
  FieldMap.tidy_addGroupWithCount (FieldMap.tidy_addGroupWithCount
    ((sorted_of_tags (.group [11, 95, 96, 78]) [11, 95, 96] rfl rfl (by decide)).tidy rfl)
    78 (fits_account 'p' (by decide) 79).tidy) 78 (fits_account 'q' (by decide) 11).tidy

/-- The data has its length before it, and the accounts are told apart by their names. -/
theorem fits_order : Wire.Fits ['E'] orderDictionary orderGroup 11 order := by
  refine .of_fields tidy_order ?_
  rw [order_eq]
  refine forall_splits_cons ⟨⟨⟨by decide, by decide⟩, Or.inl rfl, ?_⟩, rfl⟩ <|
    forall_splits_cons ⟨⟨⟨by decide, by decide⟩, Or.inl rfl, ?_⟩, rfl⟩ <|
    forall_splits_cons ⟨⟨⟨by decide, by decide⟩, Or.inl rfl, ?_⟩, rfl⟩ <|
    forall_splits_cons ⟨⟨⟨by decide, by decide⟩, Or.inl rfl, ?_⟩,
      ⟨by decide, by decide, by decide⟩, fun group hgroup => ?_, ?_⟩ forall_splits_nil
  · exact (by decide : SOH ∉ ['a'])
  · exact (by decide : SOH ∉ ['4'])
  · exact ⟨.new 95 ['4'], by simp, rfl, by decide⟩
  · exact (by decide : SOH ∉ ['2'])
  · have hgroup : group ∈ [account 'p', account 'q'] := hgroup
    simp only [List.mem_cons, List.not_mem_nil, or_false] at hgroup
    rcases hgroup with rfl | rfl
    · exact isInstance_account 'p'
    · exact isInstance_account 'q'
  · exact forall_splits_cons (fits_account 'p' (by decide) 79)
      (forall_splits_cons (fits_account 'q' (by decide) 11) forall_splits_nil)

/-- The body is tidy: it has been put together with `addGroup`. -/
theorem tidy_body : orderList.body.Tidy := by
  have htext : orderText.Tidy := (sorted_of_tags .normal [348, 349] rfl rfl (by decide)).tidy rfl
  exact FieldMap.tidy_addGroupWithCount (FieldMap.tidy_addGroupWithCount htext 73 tidy_order)
    73 (fits_plainOrder 348).tidy

/-- The orders are told apart by their first field, and the text after them has its length. -/
theorem section_orderList : Section orderDictionary ['E'] .body 10 orderList.body where
  fits := by
    refine .of_fields tidy_body ?_
    rw [body_orderList]
    refine forall_splits_cons ⟨⟨⟨by decide, by decide⟩, Or.inl rfl, ?_⟩,
        ⟨by decide, by decide, by decide⟩, fun group hgroup => ?_, ?_⟩ <|
      forall_splits_cons ⟨⟨⟨by decide, by decide⟩, Or.inl rfl, ?_⟩, rfl⟩ <|
      forall_splits_cons ⟨⟨⟨by decide, by decide⟩, Or.inl rfl, ?_⟩, rfl⟩ forall_splits_nil
    · exact (by decide : SOH ∉ ['2'])
    · have hgroup : group ∈ [order, plainOrder] := hgroup
      simp only [List.mem_cons, List.not_mem_nil, or_false] at hgroup
      rcases hgroup with rfl | rfl
      · exact ⟨rfl, rfl, _, _, rfl, rfl, by decide⟩
      · exact ⟨rfl, rfl, _, _, rfl, rfl, by decide⟩
    · exact forall_splits_cons fits_order
        (forall_splits_cons (fits_plainOrder 348) forall_splits_nil)
    · exact (by decide : SOH ∉ ['2'])
    · exact ⟨.new 348 ['2'], by simp, rfl, by decide⟩
  places := by decide
  lengths := by decide

/-- The completed message, up to the two texts that `toString` computes. -/
theorem complete_orderList : ∃ digits text, SOH ∉ digits ∧ SOH ∉ text ∧ orderList.complete
    = ⟨.mk .header [.new 8 ['F'], .new 9 digits, .new 35 ['E']] [], orderList.body,
        .mk .trailer [.new 10 text] [], true, 0⟩ :=
  ⟨_, _, soh_notMem_integerToString _, soh_notMem_checkSumText _, rfl⟩

/-- The map of a section without groups and data fields. -/
theorem Section.of_plain {dictionary : DataDictionary} {msg : List Char} {place : FieldType}
    {next : ℤ} {map : FieldMap} (hsorted : map.Sorted) (hgroups : map.groups = [])
    (hfields : ∀ field ∈ map.fields, (IsTag field.tag ∧ field.Measured ∧
      dictionary.isDataField field.tag = false ∧ SOH ∉ field.string ∧
      dictionary.getGroup msg field.tag = none) ∧ placeOf dictionary field.tag = place) :
    Section dictionary msg place next map where
  fits := .of_plain hsorted hgroups fun field hfield => (hfields field hfield).1
  places := fun field hfield => (hfields field hfield).2
  lengths := fun field hfield hdata => by
    rw [(hfields field hfield).1.2.2.1] at hdata
    cases hdata

/-- The completed message is read again with the dictionary. -/
theorem fits_orderList : orderList.complete.Fits orderDictionary ['E'] := by
  obtain ⟨digits, text, hdigits, htext, heq⟩ := complete_orderList
  have hnine : IsTag 9 := ⟨by decide, by decide⟩
  have hten : IsTag 10 := ⟨by decide, by decide⟩
  rw [heq]
  refine ⟨rfl, rfl, rfl, ?_, section_orderList, ?_, ⟨_, .head _, rfl⟩,
    ⟨_, .tail _ (.head _), rfl⟩, ⟨_, .tail _ (.tail _ (.head _)), rfl, rfl⟩, ⟨_, .head _, rfl⟩, rfl⟩
  · refine .of_plain (sorted_of_tags .header [8, 9, 35] rfl rfl (by decide)) rfl
      fun field hfield => ?_
    simp only [FieldMap.fields, List.mem_cons, List.not_mem_nil, or_false] at hfield
    rcases hfield with rfl | rfl | rfl
    · exact ⟨⟨⟨by decide, by decide⟩, Or.inl rfl, rfl, by decide, rfl⟩, rfl⟩
    · exact ⟨⟨hnine, Or.inl rfl, rfl, hdigits, rfl⟩, rfl⟩
    · exact ⟨⟨⟨by decide, by decide⟩, Or.inl rfl, rfl, by decide, rfl⟩, rfl⟩
  · refine .of_plain (sorted_of_tags .trailer [10] rfl rfl (by decide)) rfl fun field hfield => ?_
    simp only [FieldMap.fields, List.mem_cons, List.not_mem_nil, or_false] at hfield
    subst hfield
    exact ⟨⟨hten, Or.inl rfl, rfl, htext, rfl⟩, rfl⟩

/-- The message is sorted before it is completed. -/
theorem sorted_orderList : orderList.Sorted where
  header := sorted_of_tags .header [8, 35] rfl rfl (by decide)
  body := section_orderList.fits.tidy.sorted
  trailer := .nil

/-- The sums of the message are far below the end of `int`. -/
theorem bounded_orderList : orderList.Bounded := ⟨by decide +kernel, by decide +kernel⟩

/-- The text of the message is a frame. -/
theorem sound_orderList : orderList.Sound where
  headerOrder := rfl
  trailerOrder := rfl
  header := sorted_orderList.header.tidy rfl
  body := section_orderList.fits.tidy
  trailer := sorted_orderList.trailer.tidy rfl
  headerPlaces := ⟨by decide, by decide⟩
  bodyPlaces := ⟨by decide, by rw [body_orderList]; decide +kernel⟩
  trailerPlaces := ⟨by decide, by decide⟩
  headerMeasured := ⟨by decide, by decide⟩
  bodyMeasured := ⟨by decide, by rw [body_orderList]; decide +kernel⟩
  trailerMeasured := ⟨by decide, by decide⟩
  beginString := ⟨_, .head _, rfl, by decide⟩
  bounded := bounded_orderList

/-- The checksum of the message with the nested groups and the data. -/
theorem toString_checkSum_orderList : ∃ content, orderList.toString
    = content ++ (['1', '0', '='] ++ checkSumText ((content.map Char.toNat).sum % 256) ++ [SOH]) :=
  toString_checkSum sound_orderList

/-- The message with the nested groups and the data is read as it was written. -/
theorem setString_toString_orderList :
    setString orderList.toString true (some orderDictionary) (some orderDictionary)
      = .ok orderList.complete.calculate :=
  setString_toString sorted_orderList bounded_orderList fits_orderList

end Message

end Harjus.Wire
