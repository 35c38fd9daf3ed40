import Harjus.PreciseNumber

/-!
# `Harjus.Trade`: symbols, quotes and trades

`include/Symbol.h` puts the description of a market and its current quote into one class.
The model keeps them apart. `Symbol` has the fields that `getSymbols` fills once, and
`Quote` has the four fields that the Worker overwrites. The Worker and the trades reach a
quote through a pointer into the symbol map, whose key is the symbol's own name, so a
pointer is that name and the quotes are a `Book` over names. The precisions and the quote
increment are left out: no modelled function reads them.

`Trade` (`src/Trade.cpp`) is one leg of a trading path, and `StaticTrade`
(`src/StaticTrade.cpp`) is a leg with its quantity and price frozen. The two currencies of a
`Trade` are set by its constructor from the symbol and the position and never change, so
they are functions here.

The lemmas at the end are the spec of `recalculateOrderQty`: the new quantity is within the
offer, its cost is within the budget, and a positive quantity meets the minimum notional.
-/

set_option autoImplicit false

namespace Harjus

/-- `Position`. -/
inductive Position where
  | LONG
  | SHORT
  deriving DecidableEq, Repr

/-- `Symbol`, without its quote. -/
structure Symbol where
  symbol : String
  baseAsset : String
  quoteAsset : String
  minNotional : PreciseNumber
  baseAssetIncrement : PreciseNumber
  deriving DecidableEq, Repr

/-- The quote fields of `Symbol`. -/
structure Quote where
  bidPrice : PreciseNumber
  askPrice : PreciseNumber
  bidQty : PreciseNumber
  askQty : PreciseNumber
  deriving DecidableEq, Repr

/-- The quote of every symbol, by the symbol's name. -/
abbrev Book := String → Quote

/-- The book of `getSymbols`: every quote field is `PreciseNumber{}`. -/
def Book.empty : Book := fun _ => ⟨0, 0, 0, 0⟩

/-- `PriceUpdate`. The pointer to the symbol is its name. -/
structure PriceUpdate where
  symbol : String
  bidPrice : PreciseNumber
  askPrice : PreciseNumber
  bidQty : PreciseNumber
  askQty : PreciseNumber
  deriving DecidableEq, Repr

/-- The four assignments at the top of `Worker::processPriceUpdate`. -/
def Book.apply (book : Book) (update : PriceUpdate) : Book :=
  Function.update book update.symbol
    { bidPrice := update.bidPrice, askPrice := update.askPrice
      bidQty := update.bidQty, askQty := update.askQty }

/-- `Trade`. -/
structure Trade where
  symbol : Symbol
  position : Position
  orderQty : PreciseNumber
  deriving DecidableEq, Repr

namespace Trade

/-- `Trade::orderPrice`. -/
def orderPrice (book : Book) (t : Trade) : PreciseNumber :=
  match t.position with
  | .LONG => (book t.symbol.symbol).askPrice
  | .SHORT => (book t.symbol.symbol).bidPrice

/-- `Trade::offerQty`. -/
def offerQty (book : Book) (t : Trade) : PreciseNumber :=
  match t.position with
  | .LONG => (book t.symbol.symbol).askQty
  | .SHORT => (book t.symbol.symbol).bidQty

/-- `Trade::resetOrderQty`. -/
def resetOrderQty (book : Book) (t : Trade) : Trade :=
  { t with orderQty := t.offerQty book }

/-- `Trade::Trade(symbol, position)`. -/
def new (book : Book) (symbol : Symbol) (position : Position) : Trade :=
  Trade.resetOrderQty book ⟨symbol, position, 0⟩

/-- `maxOrderQty` in `Trade::recalculateOrderQty`: what the budget buys at the order price,
rounded down to a multiple of the step size and capped by the offer. -/
def maxOrderQty (book : Book) (t : Trade) (budget : PreciseNumber) : PreciseNumber :=
  let budgetOrderQty :=
    match t.position with
    | .LONG => budget / t.orderPrice book
    | .SHORT => budget
  -- a multiple of the step size; a step size of zero leaves the quantity as it is
  let budgetOrderQty :=
    budgetOrderQty - PreciseNumber.fmod budgetOrderQty t.symbol.baseAssetIncrement
  PreciseNumber.min budgetOrderQty (t.offerQty book)

/-- `Trade::recalculateOrderQty`. -/
def recalculateOrderQty (book : Book) (t : Trade) (budget : PreciseNumber) : Trade :=
  { t with
    orderQty :=
      if t.maxOrderQty book budget * t.orderPrice book < t.symbol.minNotional then 0
      else t.maxOrderQty book budget }

/-- `Trade::recvQty`. -/
def recvQty (book : Book) (t : Trade) : PreciseNumber :=
  match t.position with
  | .LONG => t.orderQty
  | .SHORT => t.orderQty * t.orderPrice book

/-- `Trade::usedQty`. -/
def usedQty (book : Book) (t : Trade) : PreciseNumber :=
  match t.position with
  | .LONG => t.orderQty * t.orderPrice book
  | .SHORT => t.orderQty

/-- `Trade::recvCurrency`. -/
def recvCurrency (t : Trade) : String :=
  match t.position with
  | .LONG => t.symbol.baseAsset
  | .SHORT => t.symbol.quoteAsset

/-- `Trade::usedCurrency`. -/
def usedCurrency (t : Trade) : String :=
  match t.position with
  | .LONG => t.symbol.quoteAsset
  | .SHORT => t.symbol.baseAsset

/-- What a trade is apart from its order quantity. -/
def leg (t : Trade) : Symbol × Position := (t.symbol, t.position)

end Trade

/-- `StaticTrade`. -/
structure StaticTrade where
  symbol : String
  position : Position
  orderQty : PreciseNumber
  orderPrice : PreciseNumber
  recvCurrency : String
  usedCurrency : String
  deriving DecidableEq, Repr

namespace StaticTrade

/-- `StaticTrade::StaticTrade(trade)`. -/
def ofTrade (book : Book) (t : Trade) : StaticTrade where
  symbol := t.symbol.symbol
  position := t.position
  orderQty := t.orderQty
  orderPrice := t.orderPrice book
  recvCurrency := t.recvCurrency
  usedCurrency := t.usedCurrency

/-- What a frozen order gives when it fills completely at its own price. -/
def recvQty (t : StaticTrade) : PreciseNumber :=
  match t.position with
  | .LONG => t.orderQty
  | .SHORT => t.orderQty * t.orderPrice

/-- What a frozen order takes when it fills completely at its own price. -/
def usedQty (t : StaticTrade) : PreciseNumber :=
  match t.position with
  | .LONG => t.orderQty * t.orderPrice
  | .SHORT => t.orderQty

/-- The quantities of a frozen trade are those of the trade. -/
theorem usedQty_ofTrade (book : Book) (t : Trade) :
    (ofTrade book t).usedQty = t.usedQty book := by
  cases hp : t.position <;> simp [usedQty, ofTrade, Trade.usedQty, hp]

/-- A frozen trade receives what its trade receives on the book it was frozen on. -/
theorem recvQty_ofTrade (book : Book) (t : Trade) :
    (ofTrade book t).recvQty = t.recvQty book := by
  cases hp : t.position <;> simp [recvQty, ofTrade, Trade.recvQty, hp]

end StaticTrade

/-! ### Non-negative books -/

/-- No quote of the book is negative. -/
structure Book.NonNeg (book : Book) : Prop where
  bidPrice : ∀ s, 0 ≤ (book s).bidPrice
  askPrice : ∀ s, 0 ≤ (book s).askPrice
  bidQty : ∀ s, 0 ≤ (book s).bidQty
  askQty : ∀ s, 0 ≤ (book s).askQty

/-- No quote of the update is negative. -/
structure PriceUpdate.NonNeg (update : PriceUpdate) : Prop where
  bidPrice : 0 ≤ update.bidPrice
  askPrice : 0 ≤ update.askPrice
  bidQty : 0 ≤ update.bidQty
  askQty : 0 ≤ update.askQty

/-- An empty book has no negative entry: it has none. -/
theorem Book.nonNeg_empty : Book.empty.NonNeg :=
  ⟨fun _ => le_rfl, fun _ => le_rfl, fun _ => le_rfl, fun _ => le_rfl⟩

/-- A quote after an update is the update's own or the old one. -/
theorem Book.apply_cases (book : Book) (update : PriceUpdate) (s : String) :
    book.apply update s = ⟨update.bidPrice, update.askPrice, update.bidQty, update.askQty⟩ ∨
      book.apply update s = book s := by
  unfold Book.apply
  by_cases hs : s = update.symbol
  · exact Or.inl (hs ▸ Function.update_self _ _ _)
  · exact Or.inr (Function.update_of_ne hs _ _)

/-- A quote without negative entries keeps the book so. -/
theorem Book.NonNeg.apply {book : Book} (h : book.NonNeg) {update : PriceUpdate}
    (hu : update.NonNeg) : (book.apply update).NonNeg where
  bidPrice s := by
    rcases book.apply_cases update s with hs | hs <;> rw [hs]
    exacts [hu.bidPrice, h.bidPrice s]
  askPrice s := by
    rcases book.apply_cases update s with hs | hs <;> rw [hs]
    exacts [hu.askPrice, h.askPrice s]
  bidQty s := by
    rcases book.apply_cases update s with hs | hs <;> rw [hs]
    exacts [hu.bidQty, h.bidQty s]
  askQty s := by
    rcases book.apply_cases update s with hs | hs <;> rw [hs]
    exacts [hu.askQty, h.askQty s]

namespace Trade

variable {book : Book}

/-- Prices of such a book are not negative, with or without a quote. -/
theorem orderPrice_nonneg (hb : book.NonNeg) (t : Trade) : 0 ≤ t.orderPrice book := by
  unfold orderPrice
  split
  · exact hb.askPrice _
  · exact hb.bidPrice _

/-- Offers of such a book are not negative, with or without a quote. -/
theorem offerQty_nonneg (hb : book.NonNeg) (t : Trade) : 0 ≤ t.offerQty book := by
  unfold offerQty
  split
  · exact hb.askQty _
  · exact hb.bidQty _

/-- A trade is `LONG` or `SHORT`. -/
theorem position_cases (t : Trade) : t.position = .LONG ∨ t.position = .SHORT := by
  cases t.position
  · exact Or.inl rfl
  · exact Or.inr rfl

/-- A `LONG` trade uses the price of what it buys. -/
theorem usedQty_long {t : Trade} (h : t.position = .LONG) :
    t.usedQty book = t.orderQty * t.orderPrice book := by rw [usedQty, h]

/-- A `SHORT` trade uses what it sells. -/
theorem usedQty_short {t : Trade} (h : t.position = .SHORT) :
    t.usedQty book = t.orderQty := by rw [usedQty, h]

/-- A `LONG` trade receives what it buys. -/
theorem recvQty_long {t : Trade} (h : t.position = .LONG) :
    t.recvQty book = t.orderQty := by rw [recvQty, h]

/-- A `SHORT` trade receives the price of what it sells. -/
theorem recvQty_short {t : Trade} (h : t.position = .SHORT) :
    t.recvQty book = t.orderQty * t.orderPrice book := by rw [recvQty, h]

/-- What a trade takes and gives is not negative when its order quantity is not. -/
theorem usedQty_nonneg (hb : book.NonNeg) {t : Trade} (ht : 0 ≤ t.orderQty) :
    0 ≤ t.usedQty book := by
  rcases t.position_cases with hp | hp
  · rw [usedQty_long hp]
    exact PreciseNumber.mul_nonneg ht (orderPrice_nonneg hb t)
  · rw [usedQty_short hp]
    exact ht

/-- A trade with an amount receives an amount. -/
theorem recvQty_nonneg (hb : book.NonNeg) {t : Trade} (ht : 0 ≤ t.orderQty) :
    0 ≤ t.recvQty book := by
  rcases t.position_cases with hp | hp
  · rw [recvQty_long hp]
    exact ht
  · rw [recvQty_short hp]
    exact PreciseNumber.mul_nonneg ht (orderPrice_nonneg hb t)

/-- The reset of a trade keeps its leg. -/
@[simp] theorem leg_resetOrderQty (t : Trade) : (t.resetOrderQty book).leg = t.leg := rfl

/-- The order price of a trade is a function of its leg. -/
theorem orderPrice_eq_of_leg {t t' : Trade} (h : t.leg = t'.leg) :
    t.orderPrice book = t'.orderPrice book := by
  obtain ⟨hs, hp⟩ := Prod.ext_iff.mp h
  unfold orderPrice
  simp only [leg] at hs hp
  rw [hs, hp]

/-- The used currency of a trade is a function of its leg. -/
theorem usedCurrency_eq_of_leg {t t' : Trade} (h : t.leg = t'.leg) :
    t.usedCurrency = t'.usedCurrency := by
  obtain ⟨hs, hp⟩ := Prod.ext_iff.mp h
  unfold usedCurrency
  simp only [leg] at hs hp
  rw [hs, hp]

/-- The received currency of a trade is a function of its leg. -/
theorem recvCurrency_eq_of_leg {t t' : Trade} (h : t.leg = t'.leg) :
    t.recvCurrency = t'.recvCurrency := by
  obtain ⟨hs, hp⟩ := Prod.ext_iff.mp h
  unfold recvCurrency
  simp only [leg] at hs hp
  rw [hs, hp]

/-! ### The spec of `recalculateOrderQty` -/

/-- `recalculateOrderQty` writes the order quantity and nothing else. -/
@[simp] theorem leg_recalculateOrderQty (t : Trade) (budget : PreciseNumber) :
    (t.recalculateOrderQty book budget).leg = t.leg := rfl

/-- Sizing a trade does not change its price. -/
@[simp] theorem orderPrice_recalculateOrderQty (t : Trade) (budget : PreciseNumber) :
    (t.recalculateOrderQty book budget).orderPrice book = t.orderPrice book := rfl

/-- The quantity is zero or the maximum one. -/
theorem orderQty_recalculateOrderQty (t : Trade) (budget : PreciseNumber) :
    (t.recalculateOrderQty book budget).orderQty = 0 ∨
      (t.recalculateOrderQty book budget).orderQty = t.maxOrderQty book budget ∧
        t.symbol.minNotional ≤ t.maxOrderQty book budget * t.orderPrice book := by
  unfold recalculateOrderQty
  dsimp only
  split
  · exact Or.inl rfl
  · rename_i h
    exact Or.inr ⟨rfl, PreciseNumber.not_lt.mp h⟩

/-- No order is larger than the offer. -/
theorem maxOrderQty_le_offerQty (t : Trade) (budget : PreciseNumber) :
    t.maxOrderQty book budget ≤ t.offerQty book := PreciseNumber.min_le_right _ _

/-- The maximum quantity is at most what the budget buys before the rounding. -/
theorem maxOrderQty_long_le {t : Trade} (hp : t.position = .LONG) (hb : book.NonNeg)
    {budget : PreciseNumber} (hbudget : 0 ≤ budget) :
    t.maxOrderQty book budget ≤ budget / t.orderPrice book := by
  have hbuys := PreciseNumber.div_nonneg hbudget (orderPrice_nonneg hb t)
  unfold maxOrderQty
  rw [hp]
  exact (PreciseNumber.min_le_left _ _).trans
    (sub_le_self _ (PreciseNumber.fmod_nonneg hbuys _))

/-- A `SHORT` order sells at most the budget. -/
theorem maxOrderQty_short_le {t : Trade} (hp : t.position = .SHORT)
    {budget : PreciseNumber} (hbudget : 0 ≤ budget) : t.maxOrderQty book budget ≤ budget := by
  unfold maxOrderQty
  rw [hp]
  exact (PreciseNumber.min_le_left _ _).trans
    (sub_le_self _ (PreciseNumber.fmod_nonneg hbudget _))

/-- What the budget and the offer allow is an amount. -/
theorem maxOrderQty_nonneg (hb : book.NonNeg) (t : Trade) {budget : PreciseNumber}
    (hbudget : 0 ≤ budget) : 0 ≤ t.maxOrderQty book budget := by
  refine PreciseNumber.le_min ?_ (offerQty_nonneg hb t)
  rcases t.position_cases with hp | hp <;> rw [hp] <;> refine sub_nonneg.mpr ?_
  · exact PreciseNumber.fmod_le
      (PreciseNumber.div_nonneg hbudget (orderPrice_nonneg hb t)) _
  · exact PreciseNumber.fmod_le hbudget _

/-- A sized order has an amount. -/
theorem orderQty_recalculateOrderQty_nonneg (hb : book.NonNeg) (t : Trade)
    {budget : PreciseNumber} (hbudget : 0 ≤ budget) :
    0 ≤ (t.recalculateOrderQty book budget).orderQty := by
  rcases @orderQty_recalculateOrderQty book t budget with h | ⟨h, -⟩ <;> rw [h]
  exact maxOrderQty_nonneg hb t hbudget

/-- A sized order is at most what the budget and the offer allow. -/
theorem orderQty_recalculateOrderQty_le (hb : book.NonNeg) (t : Trade)
    {budget : PreciseNumber} (hbudget : 0 ≤ budget) :
    (t.recalculateOrderQty book budget).orderQty ≤ t.maxOrderQty book budget := by
  rcases @orderQty_recalculateOrderQty book t budget with h | ⟨h, -⟩ <;> rw [h]
  exact maxOrderQty_nonneg hb t hbudget

/-- A sized trade uses at most its budget. -/
theorem usedQty_recalculateOrderQty_le (hb : book.NonNeg) (t : Trade)
    {budget : PreciseNumber} (hbudget : 0 ≤ budget) :
    (t.recalculateOrderQty book budget).usedQty book ≤ budget := by
  have hle := orderQty_recalculateOrderQty_le hb t hbudget
  have hprice := orderPrice_nonneg hb t
  rcases t.position_cases with hp | hp
  · rw [usedQty_long (t := t.recalculateOrderQty book budget) hp,
      orderPrice_recalculateOrderQty]
    calc (t.recalculateOrderQty book budget).orderQty * t.orderPrice book
        ≤ budget / t.orderPrice book * t.orderPrice book :=
          PreciseNumber.mul_le_mul_right hprice
            (hle.trans (maxOrderQty_long_le hp hb hbudget))
      _ ≤ budget := PreciseNumber.div_mul_le hbudget _
  · rw [usedQty_short (t := t.recalculateOrderQty book budget) hp]
    exact hle.trans (maxOrderQty_short_le hp hbudget)

/-- A sized trade that gives something has a price and a quantity, and had a budget. -/
theorem pos_of_recvQty_pos (hb : book.NonNeg) (t : Trade) {budget : PreciseNumber}
    (hbudget : 0 ≤ budget) (h : 0 < (t.recalculateOrderQty book budget).recvQty book) :
    0 < t.orderPrice book ∧ 0 < (t.recalculateOrderQty book budget).orderQty ∧
      0 < budget := by
  have hprice := orderPrice_nonneg hb t
  have hqty := orderQty_recalculateOrderQty_nonneg hb t hbudget
  have hle := orderQty_recalculateOrderQty_le hb t hbudget
  rcases t.position_cases with hp | hp
  · -- A `LONG` order is at most the budget over the price, which is zero if one of them is.
    rw [recvQty_long (t := t.recalculateOrderQty book budget) hp] at h
    have hbuys : 0 < budget / t.orderPrice book :=
      h.trans_le (hle.trans (maxOrderQty_long_le hp hb hbudget))
    refine ⟨hprice.lt_of_ne' fun hzero => ?_, h, hbudget.lt_of_ne' fun hzero => ?_⟩
    · rw [hzero, PreciseNumber.div_zero] at hbuys
      exact lt_irrefl _ hbuys
    · rw [hzero, PreciseNumber.zero_div] at hbuys
      exact lt_irrefl _ hbuys
  · -- A `SHORT` trade gives quantity times price, so both factors are positive.
    rw [recvQty_short (t := t.recalculateOrderQty book budget) hp,
      orderPrice_recalculateOrderQty] at h
    have hpos := PreciseNumber.pos_of_mul_pos_left hqty h
    exact ⟨PreciseNumber.pos_of_mul_pos_right hqty h, hpos,
      hpos.trans_le (hle.trans (maxOrderQty_short_le hp hbudget))⟩

/-- A positive quantity is within the offer and meets the minimum notional. -/
theorem placeable_of_orderQty_pos (t : Trade) {budget : PreciseNumber}
    (h : 0 < (t.recalculateOrderQty book budget).orderQty) :
    (t.recalculateOrderQty book budget).orderQty ≤ t.offerQty book ∧
      t.symbol.minNotional
        ≤ (t.recalculateOrderQty book budget).orderQty * t.orderPrice book := by
  rcases @orderQty_recalculateOrderQty book t budget with hq | ⟨hq, hnotional⟩
  · rw [hq] at h
    exact absurd h (lt_irrefl _)
  · rw [hq]
    exact ⟨maxOrderQty_le_offerQty t budget, hnotional⟩

end Trade

end Harjus
