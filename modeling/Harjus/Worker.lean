import Harjus.Execution
import Harjus.Lib.Machine

/-!
# `Harjus.Worker`: reacting to price updates and execution reports

`Worker` (`src/Worker.cpp`) owns the opportunities, the two accounts and four tables about
the executions in flight. `processPriceUpdate` writes a quote, picks the best opportunity on
the updated symbol and submits its orders. `processReport` settles one order and, with the
last order of an execution, the execution.

What the model fixes about the surroundings:

* `generateId()` draws random ids. The model takes them from an `IdSource`, a stream of
  pairwise distinct ids with the number of ids drawn so far;
* `_opportunities` is an unordered multimap. `HashOrder` is the order in which the standard
  library keeps the entries of one key, which is any order;
* a call of `IApplication::submitOrder` is an output of the step;
* an exception ends the run (`WorkerError`). The log is left out.

`Worker.machine` is the machine of both calls, one `Event` a step.
-/

set_option autoImplicit false

namespace Harjus

open Harjus.Lib

/-- The random ids of `generateId()`, assumed not to repeat. -/
structure IdSource where
  id : ℕ → String
  distinct : Function.Injective id
  drawn : ℕ

/-- `generateId()`. -/
def IdSource.generateId (ids : IdSource) : String × IdSource :=
  (ids.id ids.drawn, { ids with drawn := ids.drawn + 1 })

/-- The order in which an unordered multimap keeps its entries. -/
structure HashOrder (n : ℕ) where
  arrange : List (String × Fin n) → List (String × Fin n)
  perm : ∀ entries, (arrange entries).Perm entries

/-- A call of `IApplication::submitOrder`. -/
structure SubmitOrder where
  id : String
  symbol : String
  qty : PreciseNumber
  price : PreciseNumber
  position : Position
  deriving DecidableEq, Repr

/-- The exceptions of the Worker: `std::out_of_range` of `_executionsMap.at`, and the
`std::runtime_error` with the text `Unknown ExecutionReport status`. -/
inductive WorkerError where
  | outOfRange
  | unknownStatus
  deriving DecidableEq, Repr

/-- `Worker` over `n` opportunities. -/
structure Worker (n : ℕ) where
  book : Book
  opportunities : List (String × Fin n)
  opportunityList : Fin n → Opportunity
  balance : Balance
  reservedTrades : ReservedTrades
  executionsMap : Finmap fun _ : String => Execution × AssetDelta
  executionIdMap : Finmap fun _ : String => StaticTrade × String
  pendingOrdersCount : Finmap fun _ : String => ℤ
  failedExecutions : Finset String
  ids : IdSource

/-- What `main` hands to the constructor of the Worker. -/
structure WorkerConfig (n : ℕ) where
  tradingPaths : Fin n → TradingPath
  relativeValues : AssetDelta
  balance : Balance
  commission : PreciseNumber
  book : Book
  hashOrder : HashOrder n
  ids : IdSource

namespace Worker

variable {n : ℕ}

/-- `Worker::Worker`. `_relativeValues[startingAsset]` is zero for a missing asset. Every
trade of a path enters the index, also when two trades of the path have one symbol. -/
def new (config : WorkerConfig n) : Worker n where
  book := config.book
  opportunities :=
    config.hashOrder.arrange <|
      (List.finRange n).flatMap fun i =>
        (config.tradingPaths i).trades.map fun trade => (trade.symbol.symbol, i)
  opportunityList := fun i =>
    let path := config.tradingPaths i
    let startingAsset := (path.trades.head path.nonempty).usedCurrency
    Opportunity.new path (config.relativeValues.amount startingAsset) config.commission
  balance := config.balance
  reservedTrades := ∅
  executionsMap := ∅
  executionIdMap := ∅
  pendingOrdersCount := ∅
  failedExecutions := ∅
  ids := config.ids

/-! ### `processPriceUpdate` -/

/-- `_opportunities.equal_range(symbol)`. -/
def equalRange (w : Worker n) (symbol : String) : List (Fin n) :=
  (w.opportunities.filter (·.1 = symbol)).map (·.2)

/-- The loop body over the affected opportunities: the list of opportunities and the best
candidate so far. -/
def considerOpportunity (book : Book) (balanceMap : Balance) (reservedSymbols : ReservedTrades)
    (state : (Fin n → Opportunity) × Option (Fin n)) (i : Fin n) :
    (Fin n → Opportunity) × Option (Fin n) :=
  match balanceMap.lookup (state.1 i).startingAsset with
  | none => state
  | some budget =>
    -- `continue` before `update`: without a budget the opportunity keeps its old sizes.
    if budget ≤ 0 then state
    else
      let opp := (state.1 i).update book budget
      let opportunityList := Function.update state.1 i opp
      if opp.totalProfit ≤ 0 ∨ ∃ s ∈ opp.symbols, s ∈ reservedSymbols then
        (opportunityList, state.2)
      else
        match state.2 with
        | none => (opportunityList, some i)
        | some best =>
          -- `best` is a pointer, so its profit is read from the list as it is now. The
          -- comparison is strict: the first of equal candidates stays.
          if (opportunityList best).totalProfit < opp.totalProfit then
            (opportunityList, some i)
          else (opportunityList, some best)

/-- The loop over the affected opportunities. -/
def selectBest (w : Worker n) (symbol : String) : (Fin n → Opportunity) × Option (Fin n) :=
  (w.equalRange symbol).foldl (considerOpportunity w.book w.balance w.reservedTrades)
    (w.opportunityList, none)

/-- `emplace`: insert unless the key is there. -/
def emplace {β : Type} (m : Finmap fun _ : String => β) (key : String) (value : β) :
    Finmap fun _ : String => β :=
  if key ∈ m then m else m.insert key value

/-- The loop that submits the orders of an execution: the ids left, the order table and the
submitted orders. -/
def submitOrders (executionId : String) :
    List StaticTrade → IdSource → (Finmap fun _ : String => StaticTrade × String) →
      IdSource × (Finmap fun _ : String => StaticTrade × String) × List SubmitOrder
  | [], ids, executionIdMap => (ids, executionIdMap, [])
  | trade :: trades, ids, executionIdMap =>
    let orderId := ids.generateId.1
    let executionIdMap := emplace executionIdMap orderId (trade, executionId)
    let order : SubmitOrder :=
      { id := orderId, symbol := trade.symbol, qty := trade.orderQty
        price := trade.orderPrice, position := trade.position }
    let rest := submitOrders executionId trades ids.generateId.2 executionIdMap
    (rest.1, rest.2.1, order :: rest.2.2)

/-- `Worker::reserveBudgetAndSymbols`. -/
def reserveBudgetAndSymbols (w : Worker n) (opp : Opportunity) : Worker n :=
  { w with
    reservedTrades := ReservedTrades.reserveAll w.reservedTrades opp.trades
    balance :=
      Balance.updateBalance w.balance opp.startingAsset
        (opp.getCapacity w.book * PreciseNumber.minusOne) }

/-- The part of `Worker::processPriceUpdate` behind `if (!best) return`. -/
def startExecution (w : Worker n) (best : Opportunity) : Worker n × List SubmitOrder :=
  let w := w.reserveBudgetAndSymbols best
  let execution := Execution.ofOpportunity w.book best
  let executionId := w.ids.generateId.1
  let delta : AssetDelta := Finmap.singleton execution.startingAsset execution.capacity
  let submitted := submitOrders executionId execution.trades w.ids.generateId.2 w.executionIdMap
  ({ w with
      ids := submitted.1
      executionIdMap := submitted.2.1
      executionsMap := emplace w.executionsMap executionId (execution, delta)
      pendingOrdersCount :=
        w.pendingOrdersCount.insert executionId execution.trades.length },
    submitted.2.2)

/-- The Worker after the four assignments at the top of `processPriceUpdate`. -/
def quoted (w : Worker n) (update : PriceUpdate) : Worker n :=
  { w with book := w.book.apply update }

/-- `Worker::processPriceUpdate`. -/
def processPriceUpdate (w : Worker n) (update : PriceUpdate) : Worker n × List SubmitOrder :=
  let w := w.quoted update
  let selected := w.selectBest update.symbol
  let w := { w with opportunityList := selected.1 }
  match selected.2 with
  | none => (w, [])
  | some best => w.startExecution (w.opportunityList best)

/-! ### `processReport` -/

/-- The end of `Worker::processReport`, reached when an order is done: it leaves the order
table, and with the last order the execution is settled. -/
def finishOrder (w : Worker n) (orderId executionId : String) (execution : Execution)
    (delta : AssetDelta) : Worker n :=
  let pending := w.pendingOrdersCount.amount executionId - 1
  let w :=
    { w with
      executionIdMap := w.executionIdMap.erase orderId
      pendingOrdersCount := w.pendingOrdersCount.insert executionId pending }
  if pending = 0 then
    -- A failed execution is settled like a successful one: the two differ in the log only.
    { w with
      executionsMap := w.executionsMap.erase executionId
      pendingOrdersCount := w.pendingOrdersCount.erase executionId
      failedExecutions := w.failedExecutions.erase executionId
      balance := Balance.updateBalanceAll w.balance delta
      reservedTrades := ReservedTrades.releaseAll w.reservedTrades execution.tradesVector }
  else w

/-- `_failedExecutions.insert(executionId)`. -/
def markFailed (w : Worker n) (executionId : String) : Worker n :=
  { w with failedExecutions := insert executionId w.failedExecutions }

/-- The base quantity of a report about the order of `trade`. -/
def compareQty (trade : StaticTrade) (report : ExecutionReport) : PreciseNumber :=
  match trade.position with
  | .LONG => report.recvQty
  | .SHORT => report.usedQty

/-- The delta of an execution after a completing report about the order of `trade`. -/
def fillDelta (trade : StaticTrade) (report : ExecutionReport) (delta : AssetDelta) :
    AssetDelta :=
  ((delta.postAll report.feeDelta).charge trade.usedCurrency report.usedQty).post
    trade.recvCurrency report.recvQty

/-- `Worker::processReport`. A partial fill adds its fees to a local copy of the delta and
returns without storing it. -/
def processReport (w : Worker n) (report : ExecutionReport) : Except WorkerError (Worker n) :=
  match w.executionIdMap.lookup report.id with
  | none => .ok w
  | some (oldTrade, executionId) =>
    match w.executionsMap.lookup executionId with
    | none => .error .outOfRange
    | some (execution, delta) =>
      match report.status with
      | .NEW => .ok w
      | .REJECTED =>
        .ok ((w.markFailed executionId).finishOrder report.id executionId execution delta)
      | .EXPIRED =>
        .ok ((w.markFailed executionId).finishOrder report.id executionId execution delta)
      | .FILLED =>
        -- The fees of a partial fill went into the local `delta`, which is dropped here.
        if compareQty oldTrade report < oldTrade.orderQty then .ok w
        else
          let delta := fillDelta oldTrade report delta
          let w :=
            { w with executionsMap := w.executionsMap.insert executionId (execution, delta) }
          .ok (w.finishOrder report.id executionId execution delta)
      | .UNKNOWN => .error .unknownStatus

/-! ### The machine of the two calls -/

/-- A call of the Worker. -/
inductive Event where
  | priceUpdate (update : PriceUpdate)
  | report (report : ExecutionReport)

/-- One call: the next state and the orders it submits. -/
def step (w : Worker n) : Event → Except WorkerError (Worker n × List SubmitOrder)
  | .priceUpdate update => .ok (w.processPriceUpdate update)
  | .report report =>
    match w.processReport report with
    | .error e => .error e
    | .ok w => .ok (w, [])

/-- The Worker as a machine over its calls. -/
def machine (n : ℕ) : Machine (Worker n) Event SubmitOrder WorkerError := ⟨step⟩

/-- A report that `parseExecutionReport` can return: its status is not `UNKNOWN`. A price
update is always admissible. -/
def Event.Known : Event → Prop
  | .priceUpdate _ => True
  | .report r => r.status ≠ .UNKNOWN

end Worker

end Harjus
