import Harjus.Proofs.Multiprecision
import Harjus.Schema

/-!
# `Harjus.Proofs.Schema`: the parser of execution reports against the schema

The schema and `parseExecutionReport` are two descriptions of one message. A message that the
schema allows is one that the parser should get through.

* `parseExecutionReport_eq_ok_iff`: what the parser needs to return, and what it returns.
* `foldlM_parseFee`: the fees of valid groups, summed by currency.
* `parseExecutionReport_describes_iff`: a valid message is parsed as described exactly when it
  has a `CumQuoteQty`, which the schema does not require, and its amounts can be read.
* `readable_of_literals`: the amounts can be read when they have at most ten digits after the
  point.
-/

set_option autoImplicit false

namespace Harjus

open FixOeSchema (Field)
open Lib (literalValue)

variable {app : Application} {message : ReceivedReport} {report : ExecutionReport}
variable {status : TradeExecutionStatus}

/-! ### The reference -/

/-- The message is of a kind that the Worker acts on, with the status it has. -/
inductive HasStatus (message : ReceivedReport) : TradeExecutionStatus → Prop where
  | new : message.fields.get .ExecType = some "0" → HasStatus message .NEW
  | trade : message.fields.get .ExecType = some "F" → HasStatus message .FILLED
  | expired : message.fields.get .ExecType = some "C" → HasStatus message .EXPIRED
  | rejected {text : String} : message.fields.get .ExecType = some "8" →
      message.fields.get .Text = some text →
      "insufficient balance".toList <:+: text.toList → HasStatus message .REJECTED

/-- The field is the text of the amount. -/
def HasAmount (app : Application) (m : FieldMap) (field : Field) (amount : PreciseNumber) : Prop :=
  (m.get field).bind app.preciseNumber = some amount

/-- The exchange fees of the groups in a currency. -/
def exchangeFees (app : Application) (groups : List FieldMap) (currency : String) :
    List PreciseNumber :=
  (groups.filter fun group =>
      group.get .MiscFeeType = some "4" ∧ group.get .MiscFeeCurr = some currency).map
    fun group => ((group.get .MiscFeeAmt).bind app.preciseNumber).getD 0

/-- The report says what the message does. -/
structure Describes (app : Application) (message : ReceivedReport)
    (status : TradeExecutionStatus) (report : ExecutionReport) : Prop where
  id : message.fields.get .ClOrdID = some report.id
  status : report.status = status
  bought : message.fields.get .Side = some "1" →
    HasAmount app message.fields .CumQuoteQty report.usedQty ∧
    HasAmount app message.fields .CumQty report.recvQty
  sold : message.fields.get .Side = some "2" →
    HasAmount app message.fields .CumQty report.usedQty ∧
    HasAmount app message.fields .CumQuoteQty report.recvQty
  fees : ∀ currency, report.feeDelta.amount currency
    = -(exchangeFees app (message.noMiscFees.getD []) currency).sum

/-- The message has a `CumQuoteQty`, and `PreciseNumber` takes the texts of its amounts. -/
structure Readable (app : Application) (message : ReceivedReport) : Prop where
  cumQuoteQty : Field.CumQuoteQty.number ∈ message.fields
  quantities : ∀ field ∈ [Field.CumQty, Field.CumQuoteQty], ∀ text,
    message.fields.get field = some text → ∃ amount, app.preciseNumber text = some amount
  fees : ∀ group ∈ message.noMiscFees.getD [], ∀ text,
    group.get .MiscFeeAmt = some text → ∃ amount, app.preciseNumber text = some amount

/-! ### What the schema promises -/

/-- A required member has an accepted value. -/
theorem FieldMap.Valid.exists_get {members : List FixOeSchema.Member} {m : FieldMap}
    (h : m.Valid members) (field : Field) (hmem : ⟨field, true⟩ ∈ members) :
    ∃ value, m.get field = some value ∧ field.Accepts value := by
  obtain ⟨value, hvalue⟩ := Finmap.mem_iff.mp (h.required _ hmem rfl)
  exact ⟨value, hvalue, h.accepted _ hmem value hvalue⟩

/-- A side is a purchase or a sale. -/
theorem ValidReport.side (h : ValidReport message) :
    message.fields.get .Side = some "1" ∨ message.fields.get .Side = some "2" := by
  obtain ⟨side, hside, -, -, hmem⟩ := h.fields.exists_get .Side (by decide)
  simpa [Field.enum, hside] using hmem

/-- A group is an exchange fee in some currency. -/
theorem fee_of_valid {group : FieldMap} (h : group.Valid FixOeSchema.noMiscFees) :
    group.get .MiscFeeType = some "4" ∧ (∃ currency, group.get .MiscFeeCurr = some currency) ∧
      ∃ text, group.get .MiscFeeAmt = some text := by
  obtain ⟨type, htype, -, -, hmem⟩ := h.exists_get .MiscFeeType (by decide)
  obtain ⟨currency, hcurrency, -⟩ := h.exists_get .MiscFeeCurr (by decide)
  obtain ⟨text, htext, -⟩ := h.exists_get .MiscFeeAmt (by decide)
  refine ⟨?_, ⟨currency, hcurrency⟩, text, htext⟩
  simpa [Field.enum, htype] using hmem

/-! ### What the parser needs -/

/-- Two computations return where the first returns and the second does on its value. -/
theorem bind_eq_ok_iff {α β ε : Type} {x : Except ε α} {f : α → Except ε β} {b : β} :
    (x >>= f) = .ok b ↔ ∃ a, x = .ok a ∧ f a = .ok b := by
  cases x with
  | error e => exact ⟨fun h => (nomatch h), fun ⟨_, h, _⟩ => (nomatch h)⟩
  | ok a =>
    constructor
    · exact fun h => ⟨a, rfl, h⟩
    · rintro ⟨a', ha, h⟩
      cases ha
      exact h

/-- A field is returned where it is there. -/
theorem getField_eq_ok_iff {α : Type} {field : FIX.FIELD} {value : Option α} {a : α} :
    Application.getField field value = .ok a ↔ value = some a := by
  cases value with
  | none => exact ⟨fun h => (nomatch h), fun h => (nomatch h)⟩
  | some a' => simp [Application.getField]

/-- An amount is returned where the constructor takes its text. -/
theorem number_eq_ok_iff {text : String} {amount : PreciseNumber} :
    app.number text = .ok amount ↔ app.preciseNumber text = some amount := by
  unfold Application.number
  cases app.preciseNumber text with
  | none => exact ⟨fun h => (nomatch h), fun h => (nomatch h)⟩
  | some a => simp

/-- The quantities of a report, used before received. -/
def quantities (side : Char) (qtyBase qtyQuote : PreciseNumber) : PreciseNumber × PreciseNumber :=
  if side = FIX.Side_BUY then (qtyQuote, qtyBase) else (qtyBase, qtyQuote)

/-- What the parser needs to return, and what it returns. -/
theorem parseExecutionReport_eq_ok_iff {execReport : FIX.ExecutionReport} :
    app.parseExecutionReport execReport = .ok report ↔
      ∃ id execType status cumQty qtyBase cumQuoteQty qtyQuote side feeDelta,
        execReport.clOrdID = some id ∧ execReport.execType = some execType ∧
        Application.parseStatus execReport execType = .ok status ∧
        execReport.cumQty = some cumQty ∧ app.preciseNumber cumQty = some qtyBase ∧
        execReport.cumQuoteQty = some cumQuoteQty ∧
        app.preciseNumber cumQuoteQty = some qtyQuote ∧ execReport.side = some side ∧
        (execReport.noMiscFees.getD []).foldlM app.parseFee ∅ = .ok feeDelta ∧
        report = ⟨id, status, (quantities side qtyBase qtyQuote).1,
          (quantities side qtyBase qtyQuote).2, feeDelta⟩ := by
  simp only [Application.parseExecutionReport, bind_eq_ok_iff, getField_eq_ok_iff,
    number_eq_ok_iff]
  constructor
  · rintro ⟨id, hid, execType, hexec, status, hstatus, cumQty, hcum, qtyBase, hbase, cumQuoteQty,
      hquote, qtyQuote, hqtyQuote, side, hside, feeDelta, hfees, hreport⟩
    refine ⟨id, execType, status, cumQty, qtyBase, cumQuoteQty, qtyQuote, side, feeDelta, hid,
      hexec, hstatus, hcum, hbase, hquote, hqtyQuote, hside, hfees, ?_⟩
    cases hreport
    by_cases hbuy : side = FIX.Side_BUY <;> simp [quantities, hbuy]
  · rintro ⟨id, execType, status, cumQty, qtyBase, cumQuoteQty, qtyQuote, side, feeDelta, hid,
      hexec, hstatus, hcum, hbase, hquote, hqtyQuote, hside, hfees, rfl⟩
    refine ⟨id, hid, execType, hexec, status, hstatus, cumQty, hcum, qtyBase, hbase, cumQuoteQty,
      hquote, qtyQuote, hqtyQuote, side, hside, feeDelta, hfees, ?_⟩
    by_cases hbuy : side = FIX.Side_BUY <;> simp [quantities, hbuy] <;> rfl

/-! ### Status and fees -/

/-- The `ExecType` that the parser sees is the one of the message. -/
theorem execType_eq {value : String} (h : message.fields.get .ExecType = some value) :
    message.executionReport.execType = charValue value := by
  show (message.fields.get .ExecType).bind charValue = _
  rw [h, Option.bind_some]

/-- The parser gives each kind of report its status. -/
theorem parseStatus_of_hasStatus (h : HasStatus message status) :
    ∃ execType, message.executionReport.execType = some execType ∧
      Application.parseStatus message.executionReport execType = .ok status := by
  cases h with
  | new h => exact ⟨FIX.ExecType_NEW, execType_eq h, rfl⟩
  | trade h => exact ⟨FIX.ExecType_TRADE, execType_eq h, rfl⟩
  | expired h => exact ⟨FIX.ExecType_EXPIRED, execType_eq h, rfl⟩
  | rejected h htext hbalance =>
    refine ⟨FIX.ExecType_REJECTED, execType_eq h, ?_⟩
    have htext' : message.executionReport.text = some _ := htext
    rw [Application.parseStatus, htext', Option.getD_some]
    exact if_pos hbalance

/-- A fee is taken from its currency when its amount can be read. -/
theorem parseFee_eq_ok_iff {group : FieldMap} (h : group.Valid FixOeSchema.noMiscFees)
    {feeDelta feeDelta' : AssetDelta} :
    app.parseFee feeDelta group.miscFee = .ok feeDelta' ↔
      ∃ currency amount, group.get .MiscFeeCurr = some currency ∧
        HasAmount app group .MiscFeeAmt amount ∧ feeDelta.charge currency amount = feeDelta' := by
  obtain ⟨htype, ⟨currency, hcurrency⟩, text, htext⟩ := fee_of_valid h
  have hparse : app.parseFee feeDelta group.miscFee
      = app.number text >>= fun amount => .ok (feeDelta.charge currency amount) := by
    unfold Application.parseFee FieldMap.miscFee
    rw [htype, hcurrency, htext]
    rfl
  rw [hparse, bind_eq_ok_iff]
  simp only [number_eq_ok_iff, HasAmount, hcurrency, htext, Option.bind_some, Except.ok.injEq,
    Option.some.injEq, exists_and_left, exists_eq_left']

/-- The fees of a currency, one group further on. -/
theorem sum_exchangeFees_cons {group : FieldMap} {groups : List FieldMap}
    {currency currency' : String} {amount : PreciseNumber}
    (h : group.Valid FixOeSchema.noMiscFees) (hcurrency : group.get .MiscFeeCurr = some currency)
    (hamount : HasAmount app group .MiscFeeAmt amount) :
    (exchangeFees app (group :: groups) currency').sum
      = (if currency' = currency then amount else 0)
        + (exchangeFees app groups currency').sum := by
  obtain ⟨htype, -⟩ := fee_of_valid h
  rw [HasAmount] at hamount
  unfold exchangeFees
  by_cases heq : currency' = currency
  · have hkeep : group.get .MiscFeeType = some "4" ∧ group.get .MiscFeeCurr = some currency' :=
      ⟨htype, heq ▸ hcurrency⟩
    rw [List.filter_cons_of_pos (by simpa using hkeep), List.map_cons, List.sum_cons, hamount,
      Option.getD_some, if_pos heq]
  · have hdrop : ¬ (group.get .MiscFeeType = some "4" ∧
        group.get .MiscFeeCurr = some currency') := by
      rintro ⟨-, hcurrency'⟩
      exact heq (Option.some.inj (hcurrency'.symm.trans hcurrency))
    rw [List.filter_cons_of_neg (by simpa using hdrop), if_neg heq, zero_add]

/-- The loop over the groups sums up their fees by currency. -/
theorem foldlM_parseFee {groups : List FieldMap}
    (h : ∀ group ∈ groups, group.Valid FixOeSchema.noMiscFees) {feeDelta feeDelta' : AssetDelta}
    (hfold : (groups.map FieldMap.miscFee).foldlM app.parseFee feeDelta = .ok feeDelta')
    (currency : String) :
    feeDelta'.amount currency
      = feeDelta.amount currency - (exchangeFees app groups currency).sum := by
  induction groups generalizing feeDelta with
  | nil =>
    cases hfold
    simp [exchangeFees]
  | cons group groups ih =>
    rw [List.map_cons, List.foldlM_cons, bind_eq_ok_iff] at hfold
    obtain ⟨charged, hfee, hfold⟩ := hfold
    have hgroup := h group List.mem_cons_self
    obtain ⟨currency', amount, hcurrency, hamount, rfl⟩ := (parseFee_eq_ok_iff hgroup).mp hfee
    rw [ih (fun g hg => h g (List.mem_cons_of_mem _ hg)) hfold, Finmap.amount_charge,
      sum_exchangeFees_cons hgroup hcurrency hamount, sub_sub]

/-- The loop over the groups returns when every fee can be read, and only then. -/
theorem foldlM_parseFee_returns_iff {groups : List FieldMap}
    (h : ∀ group ∈ groups, group.Valid FixOeSchema.noMiscFees) (feeDelta : AssetDelta) :
    (∃ feeDelta', (groups.map FieldMap.miscFee).foldlM app.parseFee feeDelta = .ok feeDelta') ↔
      ∀ group ∈ groups, ∀ text, group.get .MiscFeeAmt = some text →
        ∃ amount, app.preciseNumber text = some amount := by
  induction groups generalizing feeDelta with
  | nil => exact ⟨fun _ _ hmem => (nomatch hmem), fun _ => ⟨feeDelta, rfl⟩⟩
  | cons group groups ih =>
    have hgroup := h group List.mem_cons_self
    have htail := fun delta => ih (fun g hg => h g (List.mem_cons_of_mem _ hg)) delta
    rw [List.forall_mem_cons]
    simp only [List.map_cons, List.foldlM_cons, bind_eq_ok_iff]
    constructor
    · rintro ⟨feeDelta', charged, hfee, hfold⟩
      refine ⟨fun text htext => ?_, (htail charged).mp ⟨feeDelta', hfold⟩⟩
      obtain ⟨-, amount, -, hamount, -⟩ := (parseFee_eq_ok_iff hgroup).mp hfee
      rw [HasAmount, htext, Option.bind_some] at hamount
      exact ⟨amount, hamount⟩
    · rintro ⟨hread, hreads⟩
      obtain ⟨-, ⟨currency, hcurrency⟩, text, htext⟩ := fee_of_valid hgroup
      obtain ⟨amount, hamount⟩ := hread text htext
      obtain ⟨feeDelta', hfold⟩ := (htail (feeDelta.charge currency amount)).mpr hreads
      refine ⟨feeDelta', _, (parseFee_eq_ok_iff hgroup).mpr ⟨currency, amount, hcurrency, ?_, rfl⟩,
        hfold⟩
      rw [HasAmount, htext, Option.bind_some, hamount]

/-! ### The parser against the reference -/

/-- The fee groups that the parser sees are those of the message. -/
private theorem groups_eq : message.executionReport.noMiscFees.getD []
    = (message.noMiscFees.getD []).map FieldMap.miscFee := by
  obtain ⟨fields, noMiscFees⟩ := message
  cases noMiscFees <;> rfl

/-- The `Side` that the parser sees is the one of the message. -/
private theorem side_eq {value : String} (h : message.fields.get .Side = some value) :
    message.executionReport.side = charValue value := by
  show (message.fields.get .Side).bind charValue = _
  rw [h, Option.bind_some]

/-- The fee groups of a valid message are valid. -/
theorem ValidReport.valid_groups (h : ValidReport message) :
    ∀ group ∈ message.noMiscFees.getD [], group.Valid FixOeSchema.noMiscFees := by
  intro group hgroup
  cases hfees : message.noMiscFees with
  | none => simp [hfees] at hgroup
  | some groups => exact h.groups groups hfees group (by simpa [hfees] using hgroup)

/-- A report that the parser returns for a valid message says what the message does. -/
theorem describes_of_parse (hvalid : ValidReport message) (hstatus : HasStatus message status)
    (h : app.parseExecutionReport message.executionReport = .ok report) :
    Describes app message status report := by
  obtain ⟨id, execType, status', cumQty, qtyBase, cumQuoteQty, qtyQuote, side, feeDelta, hid,
    hexec, hparsed, hcum, hbase, hquote, hqtyQuote, hside, hfees, rfl⟩ :=
    parseExecutionReport_eq_ok_iff.mp h
  have hamountBase : HasAmount app message.fields .CumQty qtyBase := by
    have hcum' : message.fields.get .CumQty = some cumQty := hcum
    rw [HasAmount, hcum', Option.bind_some, hbase]
  have hamountQuote : HasAmount app message.fields .CumQuoteQty qtyQuote := by
    have hquote' : message.fields.get .CumQuoteQty = some cumQuoteQty := hquote
    rw [HasAmount, hquote', Option.bind_some, hqtyQuote]
  rw [groups_eq] at hfees
  -- Each part of the report is what the parser has read for it.
  exact {
    id := hid
    status := by
      obtain ⟨execType', hexec', hparsed'⟩ := parseStatus_of_hasStatus hstatus
      rw [hexec] at hexec'
      cases hexec'
      rw [hparsed] at hparsed'
      cases hparsed'
      rfl
    bought := by
      intro hbuy
      have hside' : some side = charValue "1" := hside.symm.trans (side_eq hbuy)
      cases Option.some.inj hside'
      exact ⟨hamountQuote, hamountBase⟩
    sold := by
      intro hsell
      have hside' : some side = charValue "2" := hside.symm.trans (side_eq hsell)
      cases Option.some.inj hside'
      exact ⟨hamountBase, hamountQuote⟩
    fees := by
      intro currency
      rw [foldlM_parseFee hvalid.valid_groups hfees currency, Finmap.amount_empty, zero_sub] }

/-- The parser returns only what it could read. -/
theorem readable_of_parse (hvalid : ValidReport message)
    (h : app.parseExecutionReport message.executionReport = .ok report) :
    Readable app message := by
  obtain ⟨-, -, -, cumQty, qtyBase, cumQuoteQty, qtyQuote, -, feeDelta, -, -, -, hcum, hbase,
    hquote, hqtyQuote, -, hfees, -⟩ := parseExecutionReport_eq_ok_iff.mp h
  have hcum' : message.fields.get .CumQty = some cumQty := hcum
  have hquote' : message.fields.get .CumQuoteQty = some cumQuoteQty := hquote
  rw [groups_eq] at hfees
  exact {
    cumQuoteQty := Finmap.mem_iff.mpr ⟨cumQuoteQty, hquote'⟩
    quantities := by
      intro field hfield text htext
      obtain rfl | hfield := List.mem_cons.mp hfield
      · cases Option.some.inj (hcum'.symm.trans htext)
        exact ⟨qtyBase, hbase⟩
      · cases List.mem_singleton.mp hfield
        cases Option.some.inj (hquote'.symm.trans htext)
        exact ⟨qtyQuote, hqtyQuote⟩
    fees := (foldlM_parseFee_returns_iff hvalid.valid_groups ∅).mp ⟨feeDelta, hfees⟩ }

/-- The parser gets through a valid message that it can read. -/
theorem exists_parse_of_readable (hvalid : ValidReport message)
    (hid : Field.ClOrdID.number ∈ message.fields) (hstatus : HasStatus message status)
    (hread : Readable app message) :
    ∃ report, app.parseExecutionReport message.executionReport = .ok report := by
  obtain ⟨id, hid⟩ := Finmap.mem_iff.mp hid
  obtain ⟨execType, hexec, hparsed⟩ := parseStatus_of_hasStatus hstatus
  obtain ⟨cumQty, hcum, -⟩ := hvalid.fields.exists_get .CumQty (by decide)
  obtain ⟨cumQuoteQty, hquote⟩ := Finmap.mem_iff.mp hread.cumQuoteQty
  obtain ⟨qtyBase, hbase⟩ := hread.quantities .CumQty (by decide) cumQty hcum
  obtain ⟨qtyQuote, hqtyQuote⟩ := hread.quantities .CumQuoteQty (by decide) cumQuoteQty hquote
  obtain ⟨side, hside⟩ : ∃ side, message.executionReport.side = some side := by
    obtain hbuy | hsell := hvalid.side
    · exact ⟨'1', side_eq hbuy⟩
    · exact ⟨'2', side_eq hsell⟩
  obtain ⟨feeDelta, hfees⟩ := (foldlM_parseFee_returns_iff hvalid.valid_groups ∅).mpr hread.fees
  rw [← groups_eq] at hfees
  exact ⟨_, parseExecutionReport_eq_ok_iff.mpr ⟨id, execType, status, cumQty, qtyBase,
    cumQuoteQty, qtyQuote, side, feeDelta, hid, hexec, hparsed, hcum, hbase, hquote, hqtyQuote,
    hside, hfees, rfl⟩⟩

/-- A valid message is parsed as described exactly when it has a `CumQuoteQty` and its amounts
can be read. -/
theorem parseExecutionReport_describes_iff (hvalid : ValidReport message)
    (hid : Field.ClOrdID.number ∈ message.fields) (hstatus : HasStatus message status) :
    (∃ report, app.parseExecutionReport message.executionReport = .ok report ∧
        Describes app message status report) ↔ Readable app message := by
  constructor
  · rintro ⟨report, hparse, -⟩
    exact readable_of_parse hvalid hparse
  · intro hread
    obtain ⟨report, hparse⟩ := exists_parse_of_readable hvalid hid hstatus hread
    exact ⟨report, hparse, describes_of_parse hvalid hstatus hparse⟩

/-- The text denotes a multiple of `10 ^ -10` below `10 ^ 40`. -/
def Literal (text : String) : Prop :=
  ∃ q, literalValue text.toList = some q ∧ |q| < 10 ^ 40 ∧ ∃ n : ℤ, q * 10 ^ 10 = n

/-- Over `boost`, a message with a `CumQuoteQty` can be read when its amounts have at most ten
digits after the point. -/
theorem readable_of_literals {F : Type} {boost : Multiprecision F} {value : F → ℚ}
    (hboost : boost.Documented value) (symbolMap : Finset String)
    (hquote : Field.CumQuoteQty.number ∈ message.fields)
    (hquantities : ∀ field ∈ [Field.CumQty, Field.CumQuoteQty], ∀ text,
      message.fields.get field = some text → Literal text)
    (hfees : ∀ group ∈ message.noMiscFees.getD [], ∀ text,
      group.get .MiscFeeAmt = some text → Literal text) :
    Readable (.ofBoost boost symbolMap) message := by
  have hread : ∀ text, Literal text →
      ∃ amount, PreciseNumber.ofString boost text.toList = some amount := by
    rintro text ⟨q, hliteral, hq, n, hn⟩
    exact ⟨_, (PreciseNumber.decimal_roundtrip hboost).2 _ q hliteral hq n hn⟩
  exact {
    cumQuoteQty := hquote
    quantities := fun field hfield text htext => hread text (hquantities field hfield text htext)
    fees := fun group hgroup text htext => hread text (hfees group hgroup text htext) }

/-- An application with exact numbers. -/
def sampleReader : Application := .ofBoost PreciseNumber.exactBoost {"BTCUSDT"}

/-- The fields of a message. -/
def fieldsOf (fields : List (Field × String)) : FieldMap :=
  fields.foldl (fun m f => m.insert f.1.number f.2) ∅

/-- A purchase of 2 for 200, with a fee. -/
def sampleFill : ReceivedReport where
  fields := fieldsOf [(.ClOrdID, "7"), (.OrdType, "2"), (.Side, "1"), (.Symbol, "BTCUSDT"),
    (.ExecType, "F"), (.CumQty, "2"), (.CumQuoteQty, "200"), (.LastQty, "2"), (.OrdStatus, "2")]
  noMiscFees :=
    some [fieldsOf [(.MiscFeeAmt, "0.001"), (.MiscFeeCurr, "BNB"), (.MiscFeeType, "4")]]

/-- A new order of which nothing is filled. -/
def sampleNew : ReceivedReport where
  fields := fieldsOf [(.ClOrdID, "7"), (.OrdType, "2"), (.Side, "1"), (.Symbol, "BTCUSDT"),
    (.ExecType, "0"), (.CumQty, "0"), (.LastQty, "0"), (.OrdStatus, "0")]
  noMiscFees := none

/-- The sample fill is valid. -/
private theorem valid_sampleFill : ValidReport sampleFill where
  fields := by decide +kernel
  groups := by
    rintro groups hgroups group hgroup
    cases hgroups
    cases List.mem_singleton.mp hgroup
    decide +kernel

/-- The sample order without a `CumQuoteQty` is valid. -/
private theorem valid_sampleNew : ValidReport sampleNew where
  fields := by decide +kernel
  groups := fun _ h => nomatch h

/-- The purchase has a `CumQuoteQty`. -/
theorem parseExecutionReport_describes_iff_fill :
    ∃ report, sampleReader.parseExecutionReport sampleFill.executionReport = .ok report ∧
      Describes sampleReader sampleFill .FILLED report := by
  refine (parseExecutionReport_describes_iff valid_sampleFill (by decide +kernel)
    (.trade (by decide +kernel))).mpr ?_
  have hquantities : ∀ field ∈ [Field.CumQty, Field.CumQuoteQty],
      sampleFill.fields.get field = some "2" ∨ sampleFill.fields.get field = some "200" := by
    decide +kernel
  have hfees : ∀ group ∈ sampleFill.noMiscFees.getD [],
      group.get .MiscFeeAmt = some "0.001" := by decide +kernel
  refine readable_of_literals PreciseNumber.documented_exactBoost _ (by decide +kernel) ?_ ?_
  · intro field hfield text htext
    rcases hquantities field hfield with h | h
    · rw [h, Option.some.injEq] at htext
      subst htext
      exact ⟨2, by decide +kernel, by norm_num, 20000000000, by norm_num⟩
    · rw [h, Option.some.injEq] at htext
      subst htext
      exact ⟨200, by decide +kernel, by norm_num, 2000000000000, by norm_num⟩
  · intro group hgroup text htext
    rw [hfees group hgroup, Option.some.injEq] at htext
    subst htext
    exact ⟨1 / 1000, by decide +kernel, by norm_num, 10000000, by norm_num⟩

/-- The schema does not require the `CumQuoteQty` that the parser asks for. -/
theorem parseExecutionReport_describes_counterexample :
    ValidReport sampleNew ∧ Field.ClOrdID.number ∈ sampleNew.fields ∧ HasStatus sampleNew .NEW ∧
      ¬ ∃ report, sampleReader.parseExecutionReport sampleNew.executionReport = .ok report ∧
        Describes sampleReader sampleNew .NEW report := by
  refine ⟨valid_sampleNew, by decide +kernel, .new (by decide +kernel), ?_⟩
  rintro ⟨report, hparse, -⟩
  have hread := readable_of_parse valid_sampleNew hparse
  exact absurd hread.cumQuoteQty (by decide +kernel)

end Harjus
