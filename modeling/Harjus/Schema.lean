import Harjus.Application

/-!
# `Harjus.Schema`: the execution reports of the order entry schema

`FixOeSchema` (`src/FixConfig.cpp`) is the data dictionary that the engine checks the messages
of the exchange against. The module has its `ExecutionReport`: the members of the message with
their numbers, types and enumerated values.

* A received message is a map from tags to texts, and the groups of `NoMiscFees` beside it, so
  a tag does not repeat and the count of the groups is their number.
* `ValidReport` is a message as the schema describes it.
* `ReceivedReport.executionReport` is what `parseExecutionReport` reads of it.

`INT64` and `ULONG` are no types of the engine, which takes any text for them. The format of a
`UTCTIMESTAMP` is left out, since no parser reads one. The schema requires its three fields in
every group of `NoMiscFees`.
-/

set_option autoImplicit false

namespace Harjus

namespace FixOeSchema

/-- The types of the fields. -/
inductive FieldType where
  | STRING
  | CHAR
  | PRICE
  | QTY
  | BOOLEAN
  | UTCTIMESTAMP
  | INT64
  | ULONG
  deriving DecidableEq, Repr

/-- The fields of an `ExecutionReport`. -/
inductive Field where
  | ExecID
  | ClOrdID
  | OrigClOrdID
  | OrderID
  | OrderQty
  | OrdType
  | Side
  | Symbol
  | ExecInst
  | Price
  | TriggerType
  | TriggerAction
  | TriggerPrice
  | TriggerPriceType
  | TriggerPriceDirection
  | TriggerTrailingDeltaBips
  | TimeInForce
  | TransactTime
  | OrderCreationTime
  | MaxFloor
  | ListID
  | CashOrderQty
  | TargetStrategy
  | StrategyID
  | SelfTradePreventionMode
  | ExecType
  | CumQty
  | LeavesQty
  | CumQuoteQty
  | AggressorIndicator
  | TradeID
  | LastPx
  | LastQty
  | OrdStatus
  | AllocID
  | MatchType
  | WorkingFloor
  | WorkingIndicator
  | WorkingTime
  | TrailingTime
  | PreventedMatchID
  | PreventedExecutionPrice
  | PreventedExecutionQty
  | TradeGroupID
  | CounterSymbol
  | CounterOrderID
  | PreventedQty
  | LastPreventedQty
  | SOR
  | MiscFeeAmt
  | MiscFeeCurr
  | MiscFeeType
  | OrdRejReason
  | ErrorCode
  | Text
  deriving DecidableEq, Repr

namespace Field

/-- `number`. -/
def number : Field → ℕ
  | ExecID => 17
  | ClOrdID => 11
  | OrigClOrdID => 41
  | OrderID => 37
  | OrderQty => 38
  | OrdType => 40
  | Side => 54
  | Symbol => 55
  | ExecInst => 18
  | Price => 44
  | TriggerType => 1100
  | TriggerAction => 1101
  | TriggerPrice => 1102
  | TriggerPriceType => 1107
  | TriggerPriceDirection => 1109
  | TriggerTrailingDeltaBips => 25009
  | TimeInForce => 59
  | TransactTime => 60
  | OrderCreationTime => 25018
  | MaxFloor => 111
  | ListID => 66
  | CashOrderQty => 152
  | TargetStrategy => 847
  | StrategyID => 7940
  | SelfTradePreventionMode => 25001
  | ExecType => 150
  | CumQty => 14
  | LeavesQty => 151
  | CumQuoteQty => 25017
  | AggressorIndicator => 1057
  | TradeID => 1003
  | LastPx => 31
  | LastQty => 32
  | OrdStatus => 39
  | AllocID => 70
  | MatchType => 574
  | WorkingFloor => 25021
  | WorkingIndicator => 636
  | WorkingTime => 25023
  | TrailingTime => 25022
  | PreventedMatchID => 25024
  | PreventedExecutionPrice => 25025
  | PreventedExecutionQty => 25026
  | TradeGroupID => 25027
  | CounterSymbol => 25028
  | CounterOrderID => 25029
  | PreventedQty => 25030
  | LastPreventedQty => 25031
  | SOR => 25032
  | MiscFeeAmt => 137
  | MiscFeeCurr => 138
  | MiscFeeType => 139
  | OrdRejReason => 103
  | ErrorCode => 25016
  | Text => 58

/-- `type`. -/
def type : Field → FieldType
  | ClOrdID | OrigClOrdID | Symbol | MatchType | CounterSymbol | MiscFeeCurr | Text => .STRING
  | OrdType | Side | ExecInst | TriggerType | TriggerAction | TriggerPriceType
  | TriggerPriceDirection | TimeInForce | SelfTradePreventionMode | ExecType | OrdStatus => .CHAR
  | Price | TriggerPrice | LastPx | PreventedExecutionPrice => .PRICE
  | OrderQty | MaxFloor | CashOrderQty | CumQty | LeavesQty | CumQuoteQty | LastQty
  | PreventedExecutionQty | PreventedQty | LastPreventedQty | MiscFeeAmt => .QTY
  | AggressorIndicator | WorkingIndicator | SOR => .BOOLEAN
  | TransactTime | OrderCreationTime | WorkingTime | TrailingTime => .UTCTIMESTAMP
  | ExecID | OrderID | TriggerTrailingDeltaBips | ListID | TargetStrategy | StrategyID | TradeID
  | AllocID | WorkingFloor | PreventedMatchID | TradeGroupID | CounterOrderID | MiscFeeType
  | OrdRejReason | ErrorCode => .INT64

/-- The `enum` of each `value`. A field without one takes any value. -/
def enum : Field → List String
  | OrdType => ["1", "2", "3", "4"]
  | Side => ["1", "2"]
  | ExecInst => ["6"]
  | TriggerType => ["4"]
  | TriggerAction => ["1"]
  | TriggerPriceType => ["2"]
  | TriggerPriceDirection => ["U", "D"]
  | TimeInForce => ["1", "3", "4"]
  | SelfTradePreventionMode => ["1", "2", "3", "4", "5"]
  | ExecType => ["0", "4", "5", "8", "F", "C"]
  | AggressorIndicator => ["Y", "N"]
  | OrdStatus => ["0", "1", "2", "4", "6", "8", "A", "C"]
  | MatchType => ["1", "4"]
  | WorkingFloor => ["1", "2", "3"]
  | MiscFeeType => ["4"]
  | OrdRejReason => ["99"]
  | _ => []

end Field

/-- A `field` of a message or a group. -/
structure Member where
  field : Field
  required : Bool
  deriving DecidableEq, Repr

/-- The component `TriggeringInstruction`. -/
def triggeringInstruction : List Member :=
  [⟨.TriggerType, false⟩, ⟨.TriggerAction, false⟩, ⟨.TriggerPrice, false⟩,
    ⟨.TriggerPriceType, false⟩, ⟨.TriggerPriceDirection, false⟩,
    ⟨.TriggerTrailingDeltaBips, false⟩]

/-- The message `ExecutionReport`, apart from the group `NoMiscFees`, which is not required. -/
def executionReport : List Member :=
  [⟨.ExecID, false⟩, ⟨.ClOrdID, false⟩, ⟨.OrigClOrdID, false⟩, ⟨.OrderID, false⟩,
    ⟨.OrderQty, false⟩, ⟨.OrdType, true⟩, ⟨.Side, true⟩, ⟨.Symbol, true⟩, ⟨.ExecInst, false⟩,
    ⟨.Price, false⟩] ++ triggeringInstruction ++
  [⟨.TimeInForce, false⟩, ⟨.TransactTime, false⟩, ⟨.OrderCreationTime, false⟩,
    ⟨.MaxFloor, false⟩, ⟨.ListID, false⟩, ⟨.CashOrderQty, false⟩, ⟨.TargetStrategy, false⟩,
    ⟨.StrategyID, false⟩, ⟨.SelfTradePreventionMode, false⟩, ⟨.ExecType, true⟩,
    ⟨.CumQty, true⟩, ⟨.LeavesQty, false⟩, ⟨.CumQuoteQty, false⟩, ⟨.AggressorIndicator, false⟩,
    ⟨.TradeID, false⟩, ⟨.LastPx, false⟩, ⟨.LastQty, true⟩, ⟨.OrdStatus, true⟩,
    ⟨.AllocID, false⟩, ⟨.MatchType, false⟩, ⟨.WorkingFloor, false⟩, ⟨.WorkingIndicator, false⟩,
    ⟨.WorkingTime, false⟩, ⟨.TrailingTime, false⟩, ⟨.PreventedMatchID, false⟩,
    ⟨.PreventedExecutionPrice, false⟩, ⟨.PreventedExecutionQty, false⟩, ⟨.TradeGroupID, false⟩,
    ⟨.CounterSymbol, false⟩, ⟨.CounterOrderID, false⟩, ⟨.PreventedQty, false⟩,
    ⟨.LastPreventedQty, false⟩, ⟨.SOR, false⟩, ⟨.OrdRejReason, false⟩, ⟨.ErrorCode, false⟩,
    ⟨.Text, false⟩]

/-- The group `NoMiscFees`. -/
def noMiscFees : List Member :=
  [⟨.MiscFeeAmt, true⟩, ⟨.MiscFeeCurr, true⟩, ⟨.MiscFeeType, true⟩]

/-! ### What the engine checks -/

/-- `DoubleConvertor::convert`: a sign, digits, and digits after a point, one digit at least. -/
def isDouble (value : String) : Bool :=
  let unsigned :=
    match value.toList with
    | '-' :: cs => cs
    | cs => cs
  let whole := unsigned.takeWhile Char.isDigit
  match unsigned.dropWhile Char.isDigit with
  | [] => whole ≠ []
  | '.' :: fraction => fraction.all Char.isDigit && (whole ≠ [] || fraction ≠ [])
  | _ :: _ => false

/-- `DataDictionary::checkValidFormat`. -/
def checkValidFormat (type : FieldType) (value : String) : Bool :=
  match type with
  | .CHAR => value.length = 1
  | .PRICE | .QTY => isDouble value
  | .BOOLEAN => value = "Y" ∨ value = "N"
  | .STRING | .UTCTIMESTAMP | .INT64 | .ULONG => true

/-- `checkHasValue`, `checkValidFormat` and `checkValue`. -/
def Field.Accepts (field : Field) (value : String) : Prop :=
  value ≠ "" ∧ checkValidFormat field.type value ∧ (field.enum = [] ∨ value ∈ field.enum)

instance (field : Field) (value : String) : Decidable (field.Accepts value) :=
  inferInstanceAs (Decidable (_ ∧ _ ∧ _))

end FixOeSchema

/-! ### Received messages -/

/-- `FIX::FieldMap`: the text of every tag that is set. -/
abbrev FieldMap := Finmap fun _ : ℕ => String

/-- The text of a field. -/
def FieldMap.get (m : FieldMap) (field : FixOeSchema.Field) : Option String :=
  m.lookup field.number

/-- The map has the required members, nothing but members, and their values are accepted. -/
structure FieldMap.Valid (members : List FixOeSchema.Member) (m : FieldMap) : Prop where
  required : ∀ member ∈ members, member.required → member.field.number ∈ m
  defined : ∀ tag ∈ m, ∃ member ∈ members, member.field.number = tag
  accepted : ∀ member ∈ members, ∀ value, m.get member.field = some value →
    member.field.Accepts value

instance (members : List FixOeSchema.Member) (m : FieldMap) : Decidable (m.Valid members) :=
  decidable_of_iff
    ((∀ member ∈ members, member.required → member.field.number ∈ m) ∧
      (∀ tag ∈ m.keys, ∃ member ∈ members, member.field.number = tag) ∧
      ∀ member ∈ members, ∀ value ∈ m.get member.field, member.field.Accepts value)
    ⟨fun h => ⟨h.1, fun tag htag => h.2.1 tag (Finmap.mem_keys.mpr htag), h.2.2⟩,
      fun h => ⟨h.required, fun tag htag => h.defined tag (Finmap.mem_keys.mp htag), h.accepted⟩⟩

/-- An `ExecutionReport` as received: its fields, and the groups of `NoMiscFees` if that is
set. -/
structure ReceivedReport where
  fields : FieldMap
  noMiscFees : Option (List FieldMap)

/-- The message satisfies the definition of `ExecutionReport` in `FixOeSchema`. -/
structure ValidReport (message : ReceivedReport) : Prop where
  fields : message.fields.Valid FixOeSchema.executionReport
  groups : ∀ groups, message.noMiscFees = some groups →
    ∀ group ∈ groups, group.Valid FixOeSchema.noMiscFees

/-- `CharField::getValue`. A CHAR field that was checked has one character. -/
def charValue (value : String) : Option Char :=
  match value.toList with
  | [c] => some c
  | _ => none

/-- What `parseExecutionReport` reads of a group. -/
def FieldMap.miscFee (group : FieldMap) : FIX.NoMiscFees where
  miscFeeAmt := group.get .MiscFeeAmt
  miscFeeCurr := group.get .MiscFeeCurr
  miscFeeType := group.get .MiscFeeType

/-- What `parseExecutionReport` reads of a message. -/
def ReceivedReport.executionReport (message : ReceivedReport) : FIX.ExecutionReport where
  clOrdID := message.fields.get .ClOrdID
  execType := (message.fields.get .ExecType).bind charValue
  text := message.fields.get .Text
  cumQty := message.fields.get .CumQty
  cumQuoteQty := message.fields.get .CumQuoteQty
  side := (message.fields.get .Side).bind charValue
  noMiscFees := message.noMiscFees.map (List.map FieldMap.miscFee)

end Harjus
