import Harjus.Trade

/-!
# `Harjus.Opportunity`: sizing a trading path

`Opportunity` (`src/Opportunity.cpp`) sizes the trades of one path against the book and a
budget. `update` runs three passes:

* `calculateMaxQtyAfterTrades` carries the budget forward through the path, caps it at each
  leg and resets each order quantity to the offer. It stops at a `LONG` leg without a price,
  with the legs behind it not yet reset;
* `calculateStartingAssetQty` carries the result back to the first leg. It stops at a
  `SHORT` leg without a price;
* `updateTrades` sizes each trade with what the trade before it gives.

The constructor calls `front()` on its path, so a path is not empty and an `Opportunity`
starts at the used currency of its first trade. Both facts are fields of the structures
`TradingPath` and `Opportunity`.
-/

set_option autoImplicit false

namespace Harjus

/-- A trading path: at least one trade. -/
structure TradingPath where
  trades : List Trade
  nonempty : trades ≠ []

/-- `calculateMaxQtyAfterTrades`: the quantity after all trades, and the trades with the
order quantities it leaves. -/
def calculateMaxQtyAfterTrades (book : Book) :
    List Trade → PreciseNumber → PreciseNumber × List Trade
  | [], acc => (acc, [])
  | trade :: trades, acc =>
    let trade := trade.resetOrderQty book
    match trade.position with
    | .LONG =>
      -- not every trade of the path has a price yet
      if trade.orderPrice book = 0 then (0, trade :: trades)
      else
        -- `usedQty` of a `LONG` trade is a quote quantity already: the cap has the price twice.
        let acc :=
          PreciseNumber.min acc (trade.usedQty book * trade.orderPrice book)
            / trade.orderPrice book
        let rest := calculateMaxQtyAfterTrades book trades acc
        (rest.1, trade :: rest.2)
    | .SHORT =>
      let acc := PreciseNumber.min acc (trade.usedQty book) * trade.orderPrice book
      let rest := calculateMaxQtyAfterTrades book trades acc
      (rest.1, trade :: rest.2)

/-- The loop of `calculateStartingAssetQty` over the trades from last to first. -/
def calculateStartingAssetQtyLoop (book : Book) : List Trade → PreciseNumber → PreciseNumber
  | [], acc => acc
  | trade :: trades, acc =>
    match trade.position with
    | .LONG => calculateStartingAssetQtyLoop book trades (acc.mulAssign (trade.orderPrice book))
    | .SHORT =>
      -- not every trade of the path has a price yet
      if trade.orderPrice book = 0 then 0
      else calculateStartingAssetQtyLoop book trades (acc.divAssign (trade.orderPrice book))

/-- `calculateStartingAssetQty`. -/
def calculateStartingAssetQty (book : Book) (trades : List Trade)
    (startingAssetQtyAfterTrades : PreciseNumber) : PreciseNumber :=
  calculateStartingAssetQtyLoop book trades.reverse startingAssetQtyAfterTrades

/-- The loop of `Opportunity::update` that sizes the trades. -/
def updateTrades (book : Book) : List Trade → PreciseNumber → List Trade
  | [], _ => []
  | trade :: trades, acc =>
    let trade := trade.recalculateOrderQty book acc
    trade :: updateTrades book trades (trade.recvQty book)

/-- The trades after the three passes of `Opportunity::update`. -/
def sizeTrades (book : Book) (trades : List Trade) (startingAssetBudget : PreciseNumber) :
    List Trade :=
  let afterTrades := calculateMaxQtyAfterTrades book trades startingAssetBudget
  let startingAssetQty := calculateStartingAssetQty book afterTrades.2 afterTrades.1
  updateTrades book afterTrades.2 startingAssetQty

/-! ### The passes keep the legs -/

/-- The way forth keeps the legs of a path. -/
theorem legs_calculateMaxQtyAfterTrades (book : Book) (trades : List Trade)
    (acc : PreciseNumber) :
    (calculateMaxQtyAfterTrades book trades acc).2.map Trade.leg = trades.map Trade.leg := by
  induction trades generalizing acc with
  | nil => rfl
  | cons trade trades ih =>
    unfold calculateMaxQtyAfterTrades
    dsimp only
    split
    · split
      · simp
      · simp [ih]
    · simp [ih]

/-- Sizing keeps the legs of a path. -/
theorem legs_updateTrades (book : Book) (trades : List Trade) (acc : PreciseNumber) :
    (updateTrades book trades acc).map Trade.leg = trades.map Trade.leg := by
  induction trades generalizing acc with
  | nil => rfl
  | cons trade trades ih => simp [updateTrades, ih]

/-- Sizing changes order quantities and nothing else. -/
theorem legs_sizeTrades (book : Book) (trades : List Trade) (budget : PreciseNumber) :
    (sizeTrades book trades budget).map Trade.leg = trades.map Trade.leg := by
  rw [sizeTrades, legs_updateTrades, legs_calculateMaxQtyAfterTrades]

/-- A path with the legs of one that has trades has trades. -/
theorem ne_nil_of_legs {trades trades' : List Trade}
    (h : trades'.map Trade.leg = trades.map Trade.leg) (hne : trades ≠ []) : trades' ≠ [] := by
  rintro rfl
  exact hne (List.map_eq_nil_iff.mp h.symm)

/-- Paths with the same legs start with the same asset. -/
theorem head_usedCurrency_of_legs {trades trades' : List Trade}
    (h : trades'.map Trade.leg = trades.map Trade.leg) (hne : trades ≠ [])
    (hne' : trades' ≠ []) :
    (trades'.head hne').usedCurrency = (trades.head hne).usedCurrency := by
  cases trades with
  | nil => exact absurd rfl hne
  | cons t trades =>
    cases trades' with
    | nil => exact absurd rfl hne'
    | cons t' trades' => exact Trade.usedCurrency_eq_of_leg (List.cons.inj h).1

/-! ### The class -/

/-- `Opportunity`: a path with its commission, relative value and last computed profit. -/
structure Opportunity where
  trades : List Trade
  startingAsset : String
  commission : PreciseNumber
  relativeValue : PreciseNumber
  totalProfit : PreciseNumber
  nonempty : trades ≠ []
  starts : startingAsset = (trades.head nonempty).usedCurrency

namespace Opportunity

/-- `Opportunity::Opportunity`. -/
def new (path : TradingPath) (relativeValue commission : PreciseNumber) : Opportunity where
  trades := path.trades
  startingAsset := (path.trades.head path.nonempty).usedCurrency
  commission := commission
  relativeValue := relativeValue
  totalProfit := 0
  nonempty := path.nonempty
  starts := rfl

/-- The profit formula of `Opportunity::update`. -/
def profit (opp : Opportunity) (recvQty usedQty : PreciseNumber) (size : ℕ) : PreciseNumber :=
  (recvQty * (PreciseNumber.one - opp.commission * PreciseNumber.ofCount size) - usedQty)
    * opp.relativeValue

/-- `Opportunity::update`. -/
def update (book : Book) (opp : Opportunity) (startingAssetBudget : PreciseNumber) :
    Opportunity :=
  let trades := sizeTrades book opp.trades startingAssetBudget
  have hlegs := legs_sizeTrades book opp.trades startingAssetBudget
  have hne : trades ≠ [] := ne_nil_of_legs hlegs opp.nonempty
  { opp with
    trades := trades
    totalProfit :=
      opp.profit ((trades.getLast hne).recvQty book) ((trades.head hne).usedQty book)
        trades.length
    nonempty := hne
    starts := opp.starts.trans (head_usedCurrency_of_legs hlegs opp.nonempty hne).symm }

/-- `Opportunity::getCapacity`. -/
def getCapacity (book : Book) (opp : Opportunity) : PreciseNumber :=
  (opp.trades.head opp.nonempty).usedQty book

/-- The symbols on the path, leg by leg. -/
def symbols (opp : Opportunity) : List String := opp.trades.map (·.symbol.symbol)

/-- What `update` does not change: the legs, the asset the path starts from and the two
rates. -/
structure SamePath (opp opp' : Opportunity) : Prop where
  legs : opp.trades.map Trade.leg = opp'.trades.map Trade.leg
  startingAsset : opp.startingAsset = opp'.startingAsset
  commission : opp.commission = opp'.commission
  relativeValue : opp.relativeValue = opp'.relativeValue

/-- An opportunity has its own path. -/
theorem SamePath.refl (opp : Opportunity) : opp.SamePath opp := ⟨rfl, rfl, rfl, rfl⟩

/-- Having the same path is transitive. -/
theorem SamePath.trans {opp₁ opp₂ opp₃ : Opportunity} (h : opp₁.SamePath opp₂)
    (h' : opp₂.SamePath opp₃) : opp₁.SamePath opp₃ :=
  ⟨h.legs.trans h'.legs, h.startingAsset.trans h'.startingAsset,
    h.commission.trans h'.commission, h.relativeValue.trans h'.relativeValue⟩

/-- An update keeps the path. -/
theorem samePath_update (book : Book) (opp : Opportunity) (budget : PreciseNumber) :
    (opp.update book budget).SamePath opp :=
  ⟨legs_sizeTrades book opp.trades budget, rfl, rfl, rfl⟩

/-- An update sizes the trades. -/
@[simp] theorem update_trades (book : Book) (opp : Opportunity) (budget : PreciseNumber) :
    (opp.update book budget).trades = sizeTrades book opp.trades budget := rfl

end Opportunity

end Harjus
