import Harjus.Multiprecision
import Harjus.Worker

/-!
# `Harjus.Application`: FIX messages and what the Worker gets of them

`Application` (`src/HarjusApplication.cpp`) turns the messages of the exchange into price
updates and execution reports.

* A message is a record of its fields. A field that may be unset is an `Option`, and the
  entries of a repeating group are a list, so the number in the group's count field is the
  length of the list. Numbers are texts and CHAR fields are characters, as on the wire.
* `Application::symbolMap` is read for its keys: the address of an entry is its name.
* The parsers are given the string constructor of `PreciseNumber` as `preciseNumber`, which is
  `none` where it throws. `Application.ofBoost` gives them the one of `Harjus.Multiprecision`.
* An exception ends the parsing, and with it everything parsed so far is gone
  (`ApplicationError`).

The fields no parser reads, the log and the session callbacks are left out.
-/

set_option autoImplicit false

namespace Harjus

/-! ### Messages -/

namespace FIX

/-- The tags of the fields, `FIX::FIELD`. -/
inductive FIELD where
  | ClOrdID
  | CumQty
  | Symbol
  | Side
  | MiscFeeAmt
  | MiscFeeCurr
  | MiscFeeType
  | ExecType
  | NoMDEntries
  | MDEntryType
  | MDEntryPx
  | MDEntrySize
  | MDUpdateAction
  | CumQuoteQty
  deriving DecidableEq, Repr

/-- The number of a tag on the wire. -/
def FIELD.tag : FIELD → ℕ
  | .ClOrdID => 11
  | .CumQty => 14
  | .Symbol => 55
  | .Side => 54
  | .MiscFeeAmt => 137
  | .MiscFeeCurr => 138
  | .MiscFeeType => 139
  | .ExecType => 150
  | .NoMDEntries => 268
  | .MDEntryType => 269
  | .MDEntryPx => 270
  | .MDEntrySize => 271
  | .MDUpdateAction => 279
  | .CumQuoteQty => 25017

def ExecType_NEW : Char := '0'
def ExecType_TRADE : Char := 'F'
def ExecType_EXPIRED : Char := 'C'
def ExecType_REJECTED : Char := '8'
def Side_BUY : Char := '1'
def MiscFeeType_EXCHANGE_FEES : String := "4"
def MDEntryType_BID : Char := '0'
def MDEntryType_OFFER : Char := '1'
def MDUpdateAction_NEW : Char := '0'
def MDUpdateAction_CHANGE : Char := '1'

/-- A group of `FIX44::ExecutionReport::NoMiscFees`. -/
structure NoMiscFees where
  miscFeeAmt : Option String
  miscFeeCurr : Option String
  miscFeeType : Option String

/-- `FIX44::ExecutionReport`. -/
structure ExecutionReport where
  clOrdID : Option String
  execType : Option Char
  text : Option String
  cumQty : Option String
  cumQuoteQty : Option String
  side : Option Char
  noMiscFees : Option (List NoMiscFees)

/-- A group of `NoMDEntries`. The symbol and the action are fields of the incremental
refresh only. -/
structure NoMDEntries where
  mdUpdateAction : Option Char
  mdEntryType : Option Char
  mdEntryPx : Option String
  mdEntrySize : Option String
  symbol : Option String

/-- `FIX44::MarketDataSnapshotFullRefresh`. -/
structure MarketDataSnapshotFullRefresh where
  symbol : Option String
  noMDEntries : Option (List NoMDEntries)

/-- `FIX44::MarketDataIncrementalRefresh`. -/
structure MarketDataIncrementalRefresh where
  noMDEntries : Option (List NoMDEntries)

/-- The messages `Application::onMessage` is overloaded for. A reject is its text. -/
inductive Message where
  | executionReport (message : ExecutionReport)
  | marketDataRequestReject (message : String)
  | marketDataSnapshotFullRefresh (message : MarketDataSnapshotFullRefresh)
  | marketDataIncrementalRefresh (message : MarketDataIncrementalRefresh)

end FIX

/-! ### Parsing -/

/-- The exceptions of the parsers: `FIX::FieldNotFound`, `std::out_of_range` of
`symbolMap->at`, a text that is not a number, and `std::runtime_error`. -/
inductive ApplicationError where
  | fieldNotFound (field : ℕ)
  | outOfRange
  | notANumber (amount : String)
  | runtimeError (what : String)
  deriving DecidableEq, Repr

/-- `Application`: what its parsers read. -/
structure Application where
  symbolMap : Finset String
  preciseNumber : String → Option PreciseNumber

namespace Application

/-- `Application` with the string constructor over the numbers of `boost`. -/
def ofBoost {F : Type} (boost : Multiprecision F) (symbolMap : Finset String) : Application where
  symbolMap := symbolMap
  preciseNumber amount := PreciseNumber.ofString boost amount.toList

variable (app : Application)

/-- `FieldMap::getField`. -/
def getField {α : Type} (field : FIX.FIELD) : Option α → Except ApplicationError α
  | none => .error (.fieldNotFound field.tag)
  | some value => .ok value

/-- `PreciseNumber{amount}`. -/
def number (amount : String) : Except ApplicationError PreciseNumber :=
  match app.preciseNumber amount with
  | none => .error (.notANumber amount)
  | some value => .ok value

/-- `&symbolMap->at(symbol)`. -/
def symbolAt (symbol : String) : Except ApplicationError String :=
  if symbol ∈ app.symbolMap then .ok symbol else .error .outOfRange

/-- The status of an `ExecType`. A rejection is expected for an insufficient balance only. -/
def parseStatus (execReport : FIX.ExecutionReport) (execTypeValue : Char) :
    Except ApplicationError TradeExecutionStatus :=
  if execTypeValue = FIX.ExecType_NEW then .ok .NEW
  else if execTypeValue = FIX.ExecType_TRADE then .ok .FILLED
  else if execTypeValue = FIX.ExecType_EXPIRED then .ok .EXPIRED
  else if execTypeValue = FIX.ExecType_REJECTED then
    -- `errorMsg.find` is a search for a part of the text.
    let errorMsg := execReport.text.getD "Unknown error (Text field not set)"
    if "insufficient balance".toList <:+: errorMsg.toList then .ok .REJECTED
    else .error (.runtimeError ("Order rejected for unexpected reason: " ++ errorMsg))
  else
    .error (.runtimeError ("Received ExecutionReport with unhandled ExecType: "
      ++ toString execTypeValue.toNat))

/-- The loop body over the fees: only exchange fees count. -/
def parseFee (feeDelta : AssetDelta) (group : FIX.NoMiscFees) :
    Except ApplicationError AssetDelta := do
  let feeType ← getField .MiscFeeType group.miscFeeType
  -- The currency and the amount of another fee may be missing: they are not read.
  if feeType = FIX.MiscFeeType_EXCHANGE_FEES then
    let currency ← getField .MiscFeeCurr group.miscFeeCurr
    let feeAmount ← getField .MiscFeeAmt group.miscFeeAmt
    let amount ← app.number feeAmount
    return feeDelta.charge currency amount
  else
    return feeDelta

/-- `parseExecutionReport`. Every side other than BUY is taken for a sale. -/
def parseExecutionReport (execReport : FIX.ExecutionReport) :
    Except ApplicationError ExecutionReport := do
  let id ← getField .ClOrdID execReport.clOrdID
  let execTypeValue ← getField .ExecType execReport.execType
  let status ← parseStatus execReport execTypeValue
  let cumQty ← getField .CumQty execReport.cumQty
  let qtyBase ← app.number cumQty
  let cumQuoteQty ← getField .CumQuoteQty execReport.cumQuoteQty
  let qtyQuote ← app.number cumQuoteQty
  let side ← getField .Side execReport.side
  let position := if side = FIX.Side_BUY then Position.LONG else Position.SHORT
  let usedQty := if position = .LONG then qtyQuote else qtyBase
  let recvQty := if position = .LONG then qtyBase else qtyQuote
  let feeDelta ← (execReport.noMiscFees.getD []).foldlM app.parseFee ∅
  return { id := id, status := status, usedQty := usedQty, recvQty := recvQty
           feeDelta := feeDelta }

/-- The loop body over the entries of a snapshot. -/
def parseSnapshotEntry (quote : Quote) (group : FIX.NoMDEntries) :
    Except ApplicationError Quote := do
  let entryType ← getField .MDEntryType group.mdEntryType
  if entryType = FIX.MDEntryType_BID then
    let entryPrice ← getField .MDEntryPx group.mdEntryPx
    let entrySize ← getField .MDEntrySize group.mdEntrySize
    let bidPrice ← app.number entryPrice
    let bidQty ← app.number entrySize
    return { quote with bidPrice := bidPrice, bidQty := bidQty }
  else if entryType = FIX.MDEntryType_OFFER then
    let entryPrice ← getField .MDEntryPx group.mdEntryPx
    let entrySize ← getField .MDEntrySize group.mdEntrySize
    let askPrice ← app.number entryPrice
    let askQty ← app.number entrySize
    return { quote with askPrice := askPrice, askQty := askQty }
  else
    return quote

/-- `Application::parsePriceUpdateFromMarketDataSnapshotFullRefresh`. -/
def parsePriceUpdateFromMarketDataSnapshotFullRefresh
    (message : FIX.MarketDataSnapshotFullRefresh) : Except ApplicationError PriceUpdate := do
  let symbolValue ← getField .Symbol message.symbol
  let entries ← getField .NoMDEntries message.noMDEntries
  let quote ← entries.foldlM app.parseSnapshotEntry ⟨0, 0, 0, 0⟩
  -- The symbol is looked up last, when the update is built.
  let symbol ← app.symbolAt symbolValue
  return { symbol := symbol, bidPrice := quote.bidPrice, askPrice := quote.askPrice
           bidQty := quote.bidQty, askQty := quote.askQty }

/-- The local variables of the loop over the entries of an incremental refresh: the updates
made so far, the position of the update of a symbol, and the symbol read last. -/
structure RefreshLoop where
  priceUpdates : List PriceUpdate
  updates : Finmap fun _ : String => ℕ
  symbol : String

/-- `Check if we already have an update for this symbol`: if not, a new one is made. -/
def RefreshLoop.findOrCreate (loop : RefreshLoop) (symbolValue : String) :
    Except ApplicationError RefreshLoop :=
  if symbolValue ∈ loop.updates then .ok loop
  else do
    let symbol ← app.symbolAt symbolValue
    -- All four quote fields start at `PreciseNumber{}`, not at the current quote.
    return { loop with
      priceUpdates := loop.priceUpdates ++ [⟨symbol, 0, 0, 0, 0⟩]
      updates := loop.updates.insert symbolValue loop.priceUpdates.length }

/-- An assignment to `priceUpdates[updates[symbolValue]]`. -/
def RefreshLoop.assign (loop : RefreshLoop) (symbolValue : String)
    (f : PriceUpdate → PriceUpdate) : RefreshLoop :=
  { loop with
    priceUpdates := loop.priceUpdates.modify ((loop.updates.lookup symbolValue).getD 0) f }

/-- The part of the loop body for the actions NEW and CHANGE. -/
def assignEntry (loop : RefreshLoop) (symbolValue : String) (entryType : Char)
    (group : FIX.NoMDEntries) : Except ApplicationError RefreshLoop := do
  -- The price is read first, so an entry without one throws, also when it has no size.
  let entryPrice ← getField .MDEntryPx group.mdEntryPx
  match group.mdEntrySize with
  | none => return loop
  | some entrySize =>
    if entryType = FIX.MDEntryType_BID then
      let bidPrice ← app.number entryPrice
      let bidQty ← app.number entrySize
      return loop.assign symbolValue fun u => { u with bidPrice := bidPrice, bidQty := bidQty }
    else if entryType = FIX.MDEntryType_OFFER then
      let askPrice ← app.number entryPrice
      let askQty ← app.number entrySize
      return loop.assign symbolValue fun u => { u with askPrice := askPrice, askQty := askQty }
    else
      return loop

/-- The loop body over the entries of an incremental refresh. -/
def parseRefreshEntry (loop : RefreshLoop) (group : FIX.NoMDEntries) :
    Except ApplicationError RefreshLoop := do
  let entryType ← getField .MDEntryType group.mdEntryType
  -- `symbol` is declared outside the loop: an entry without a symbol sees the last one.
  let symbolValue := group.symbol.getD loop.symbol
  let loop ← RefreshLoop.findOrCreate app { loop with symbol := symbolValue } symbolValue
  let action ← getField .MDUpdateAction group.mdUpdateAction
  if action = FIX.MDUpdateAction_NEW ∨ action = FIX.MDUpdateAction_CHANGE then
    app.assignEntry loop symbolValue entryType group
  else
    return loop

/-- `Application::parsePriceUpdateFromMarketDataIncrementalRefresh`. -/
def parsePriceUpdateFromMarketDataIncrementalRefresh
    (message : FIX.MarketDataIncrementalRefresh) :
    Except ApplicationError (List PriceUpdate) := do
  let entries ← getField .NoMDEntries message.noMDEntries
  let loop ← entries.foldlM app.parseRefreshEntry ⟨[], ∅, ""⟩
  return loop.priceUpdates

/-! ### `onMessage` -/

/-- What `Application::onMessage` pushes, in order. A price update goes into
`priceUpdateQueue`, a report into `executionReportQueue`. -/
def onMessage : FIX.Message → Except ApplicationError (List Worker.Event)
  | .executionReport message => do
    let execReport ← app.parseExecutionReport message
    return [.report execReport]
  | .marketDataRequestReject message =>
    .error (.runtimeError ("Market Data Request Rejected: " ++ message))
  | .marketDataSnapshotFullRefresh message => do
    let priceUpdate ← app.parsePriceUpdateFromMarketDataSnapshotFullRefresh message
    return [.priceUpdate priceUpdate]
  | .marketDataIncrementalRefresh message => do
    let priceUpdates ← app.parsePriceUpdateFromMarketDataIncrementalRefresh message
    return priceUpdates.map .priceUpdate

end Application

end Harjus
