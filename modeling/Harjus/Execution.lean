import Harjus.Lib.Amounts
import Harjus.Opportunity

/-!
# `Harjus.Execution`: executions, their reports and the accounts

* `Execution` (`src/Execution.cpp`) is an opportunity with its trades frozen.
* `ExecutionReport` (`src/ExecutionReport.cpp`) is one message of the exchange about an
  order, with the currency map of its fees.
* `Balance` (`src/Balance.cpp`) and `ReservedTrades` (`src/ReservedTrades.cpp`) are the two
  accounts of the Worker: amounts by currency, and the symbols in use.

A hash map is a `Finmap`. Its indexing operator creates a missing amount at
`PreciseNumber{}`, which is what the postings of `Harjus.Lib.Amounts` do.
-/

set_option autoImplicit false

namespace Harjus

/-- `Execution`. The queue `trades` and the vector `tradesVector` are filled from the same
trades. The stream operator is the only reader of the total profit. -/
structure Execution where
  trades : List StaticTrade
  tradesVector : List StaticTrade
  startingAsset : String
  totalProfit : PreciseNumber
  capacity : PreciseNumber

namespace Execution

/-- `Execution::Execution(opportunity)`. -/
def ofOpportunity (book : Book) (opportunity : Opportunity) : Execution where
  trades := opportunity.trades.map (StaticTrade.ofTrade book)
  tradesVector := opportunity.trades.map (StaticTrade.ofTrade book)
  startingAsset := opportunity.startingAsset
  totalProfit := opportunity.totalProfit
  capacity := opportunity.getCapacity book

/-- The symbols of the frozen trades. -/
def symbols (execution : Execution) : List String := execution.tradesVector.map (·.symbol)

end Execution

/-- `TradeExecutionStatus`. -/
inductive TradeExecutionStatus where
  | NEW
  | FILLED
  | EXPIRED
  | REJECTED
  | UNKNOWN
  deriving DecidableEq, Repr

/-- `std::unordered_map<std::string, PreciseNumber>`: amounts by currency. -/
abbrev AssetDelta := Finmap fun _ : String => PreciseNumber

/-- `ExecutionReport`. -/
structure ExecutionReport where
  id : String
  status : TradeExecutionStatus
  usedQty : PreciseNumber
  recvQty : PreciseNumber
  feeDelta : AssetDelta

/-- `Balance`. -/
abbrev Balance := Finmap fun _ : String => PreciseNumber

namespace Balance

/-- `Balance::updateBalance(currency, amount)`. -/
def updateBalance (balance : Balance) (currency : String) (amount : PreciseNumber) : Balance :=
  Finmap.post balance currency amount

/-- `Balance::updateBalance(assetDelta)`. -/
def updateBalanceAll (balance : Balance) (assetDelta : AssetDelta) : Balance :=
  Finmap.postAll balance assetDelta

end Balance

/-- `ReservedTrades`: the names of the reserved symbols. -/
abbrev ReservedTrades := Finset String

namespace ReservedTrades

/-- `ReservedTrades::reserveAll`. -/
def reserveAll (reserved : ReservedTrades) (trades : List Trade) : ReservedTrades :=
  trades.foldl (fun reserved trade => insert trade.symbol.symbol reserved) reserved

/-- `ReservedTrades::releaseAll`. -/
def releaseAll (reserved : ReservedTrades) (trades : List StaticTrade) : ReservedTrades :=
  trades.foldl (fun reserved trade => reserved.erase trade.symbol) reserved

/-- A symbol is reserved when it was, or a trade reserves it. -/
theorem mem_reserveAll {reserved : ReservedTrades} {trades : List Trade} {s : String} :
    s ∈ reserveAll reserved trades ↔
      s ∈ reserved ∨ s ∈ trades.map (·.symbol.symbol) := by
  unfold reserveAll
  induction trades generalizing reserved with
  | nil => simp
  | cons t trades ih =>
    rw [List.foldl_cons, ih, Finset.mem_insert, List.map_cons, List.mem_cons]
    tauto

/-- A symbol stays reserved when no trade releases it. -/
theorem mem_releaseAll {reserved : ReservedTrades} {trades : List StaticTrade} {s : String} :
    s ∈ releaseAll reserved trades ↔ s ∈ reserved ∧ s ∉ trades.map (·.symbol) := by
  unfold releaseAll
  induction trades generalizing reserved with
  | nil => simp
  | cons t trades ih =>
    rw [List.foldl_cons, ih, Finset.mem_erase, List.map_cons, List.mem_cons]
    tauto

end ReservedTrades

end Harjus
