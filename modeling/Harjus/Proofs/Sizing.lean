import Harjus.Opportunity
import Mathlib.Data.List.Chain

/-!
# `Harjus.Proofs.Sizing`: what `Opportunity::update` guarantees

The sizing of one path, against a book without negative entries.

* `startingAssetQty_le`: the backward pass over the forward pass stays within the budget.
  Each pass is a fold of one conversion per leg, and a leg converts back at most what it
  converted forth (`back_forth_le`). Stopping at a leg without a price is the fold too: the
  amount is zero from there on.
* `usedQty_head_sizeTrades_le` and `isChain_sizeTrades`: the first trade uses at most the
  budget, and each later trade uses at most what the trade before it gives.
* `placeable_of_recvQty_pos`: when the last trade gives something, every trade of the path
  has a price and a quantity. The induction runs from the last leg to the first.
* `update_eq_of_samePath`: `update` reads the legs of the path and no order quantity that an
  earlier update left. So it forgets the history and is idempotent (`update_history_free`).
* `getCapacity_update_le`, `placeable_of_profit`, `getCapacity_lt_of_profit`: the capacity is
  within the budget, and with a positive profit every trade is placeable and the last one
  gives more than the first one uses.
-/

set_option autoImplicit false

namespace Harjus

open Harjus.Lib

variable {book : Book}

/-! ### The two passes as folds -/

/-- One leg of the forward pass: cap the amount by the leg, then convert it. -/
def forth (book : Book) (t : Trade) (acc : PreciseNumber) : PreciseNumber :=
  match t.position with
  | .LONG =>
    PreciseNumber.min acc ((t.resetOrderQty book).usedQty book * t.orderPrice book)
      / t.orderPrice book
  | .SHORT => PreciseNumber.min acc ((t.resetOrderQty book).usedQty book) * t.orderPrice book

/-- One leg of the backward pass. -/
def back (book : Book) (t : Trade) (acc : PreciseNumber) : PreciseNumber :=
  match t.position with
  | .LONG => acc * t.orderPrice book
  | .SHORT => acc / t.orderPrice book

/-- The way back over a trade is a matter of its leg. -/
theorem back_eq_of_leg {t t' : Trade} (h : t.leg = t'.leg) (acc : PreciseNumber) :
    back book t acc = back book t' acc := by
  have hp : t.position = t'.position := (Prod.ext_iff.mp h).2
  unfold back
  rw [hp, Trade.orderPrice_eq_of_leg h]

/-- Nothing on the way back needs nothing. -/
@[simp] theorem back_zero (t : Trade) : back book t 0 = 0 := by
  unfold back
  split <;> simp

/-- Nothing on the way back over several trades needs nothing. -/
theorem foldl_back_zero (trades : List Trade) :
    trades.foldl (fun acc t => back book t acc) 0 = 0 := by
  induction trades with
  | nil => rfl
  | cons t trades ih => rw [List.foldl_cons, back_zero, ih]

/-- The backward loop is a fold. A `SHORT` leg without a price makes the amount zero, and it
stays zero. -/
theorem calculateStartingAssetQtyLoop_eq (trades : List Trade) (acc : PreciseNumber) :
    calculateStartingAssetQtyLoop book trades acc
      = trades.foldl (fun acc t => back book t acc) acc := by
  induction trades generalizing acc with
  | nil => rfl
  | cons t trades ih =>
    rw [List.foldl_cons, calculateStartingAssetQtyLoop, back]
    rcases t.position_cases with hp | hp <;> rw [hp] <;> dsimp only
    · rw [ih, PreciseNumber.mulAssign_eq_mul]
    · -- The early exit is the fold as well: dividing by a zero price gives zero.
      split
      · rename_i hzero
        rw [hzero, PreciseNumber.div_zero, foldl_back_zero]
      · rename_i hne
        rw [ih, PreciseNumber.divAssign_eq_div acc hne]

/-- `calculateStartingAssetQty` goes the way back over all trades. -/
theorem calculateStartingAssetQty_eq (trades : List Trade) (acc : PreciseNumber) :
    calculateStartingAssetQty book trades acc = trades.foldr (back book) acc := by
  rw [calculateStartingAssetQty, calculateStartingAssetQtyLoop_eq, List.foldl_reverse]

/-- The backward pass reads the legs only. -/
theorem foldr_back_eq_of_legs {trades trades' : List Trade}
    (h : trades'.map Trade.leg = trades.map Trade.leg) (acc : PreciseNumber) :
    trades'.foldr (back book) acc = trades.foldr (back book) acc := by
  induction trades generalizing trades' with
  | nil => rw [List.map_eq_nil_iff.mp h]
  | cons t trades ih =>
    cases trades' with
    | nil => cases h
    | cons t' trades' =>
      obtain ⟨hleg, hrest⟩ := List.cons.inj h
      rw [List.foldr_cons, List.foldr_cons, ih hrest, back_eq_of_leg hleg]

/-- The offer of a trade is an amount. -/
theorem offer_nonneg (hb : book.NonNeg) (t : Trade) :
    0 ≤ (t.resetOrderQty book).usedQty book :=
  Trade.usedQty_nonneg hb (Trade.offerQty_nonneg hb t)

/-- The way forth over a trade carries amounts. -/
theorem forth_nonneg (hb : book.NonNeg) (t : Trade) {acc : PreciseNumber} (h : 0 ≤ acc) :
    0 ≤ forth book t acc := by
  have hprice := Trade.orderPrice_nonneg hb t
  have hoffer := offer_nonneg hb t
  unfold forth
  split
  · exact PreciseNumber.div_nonneg
      (PreciseNumber.le_min h (PreciseNumber.mul_nonneg hoffer hprice)) hprice
  · exact PreciseNumber.mul_nonneg (PreciseNumber.le_min h hoffer) hprice

/-- Nothing is carried forth as nothing. -/
theorem forth_zero (hb : book.NonNeg) (t : Trade) : forth book t 0 = 0 := by
  have hprice := Trade.orderPrice_nonneg hb t
  have hoffer := offer_nonneg hb t
  have hmin : ∀ {b : PreciseNumber}, 0 ≤ b → PreciseNumber.min 0 b = 0 := fun h =>
    le_antisymm (PreciseNumber.min_le_left _ _) (PreciseNumber.le_min le_rfl h)
  unfold forth
  split
  · rw [hmin (PreciseNumber.mul_nonneg hoffer hprice), PreciseNumber.zero_div]
  · rw [hmin hoffer, PreciseNumber.zero_mul]

/-- Nothing is carried forth over several trades as nothing. -/
theorem foldl_forth_zero (hb : book.NonNeg) (trades : List Trade) :
    trades.foldl (fun acc t => forth book t acc) 0 = 0 := by
  induction trades with
  | nil => rfl
  | cons t trades ih => rw [List.foldl_cons, forth_zero hb, ih]

/-- The forward pass is a fold. A `LONG` leg without a price makes the amount zero, and it
stays zero. -/
theorem calculateMaxQtyAfterTrades_eq (hb : book.NonNeg) (trades : List Trade)
    (acc : PreciseNumber) :
    (calculateMaxQtyAfterTrades book trades acc).1
      = trades.foldl (fun acc t => forth book t acc) acc := by
  induction trades generalizing acc with
  | nil => rfl
  | cons t trades ih =>
    have hprice : (t.resetOrderQty book).orderPrice book = t.orderPrice book := rfl
    have hpos : (t.resetOrderQty book).position = t.position := rfl
    rw [List.foldl_cons, calculateMaxQtyAfterTrades, forth]
    simp only [hprice, hpos]
    rcases t.position_cases with hp | hp <;> rw [hp] <;> dsimp only
    · split
      · -- The loop returns zero at once, and the fold carries a zero to the end.
        rename_i hzero
        rw [hzero, PreciseNumber.div_zero, foldl_forth_zero hb]
      · exact ih _
    · exact ih _

/-- A leg converts back at most what it converted forth. -/
theorem back_forth_le (hb : book.NonNeg) (t : Trade) {acc : PreciseNumber} (h : 0 ≤ acc) :
    back book t (forth book t acc) ≤ acc := by
  have hprice := Trade.orderPrice_nonneg hb t
  have hoffer := offer_nonneg hb t
  unfold back forth
  rcases t.position_cases with hp | hp <;> rw [hp] <;> dsimp only
  -- Each conversion rounds toward zero, so the way back does not exceed the capped amount.
  · refine (PreciseNumber.div_mul_le ?_ _).trans (PreciseNumber.min_le_left _ _)
    exact PreciseNumber.le_min h (PreciseNumber.mul_nonneg hoffer hprice)
  · refine (PreciseNumber.mul_div_le ?_ hprice).trans (PreciseNumber.min_le_left _ _)
    exact PreciseNumber.le_min h hoffer

/-- More at the end needs at least as much before. -/
theorem back_monotone (hb : book.NonNeg) (t : Trade) : Monotone (back book t) := by
  have hprice := Trade.orderPrice_nonneg hb t
  unfold back
  split
  · exact PreciseNumber.mul_le_mul_right hprice
  · exact PreciseNumber.div_le_div_right hprice

/-- The way back over a trade carries amounts. -/
theorem back_nonneg (hb : book.NonNeg) (t : Trade) {acc : PreciseNumber} (h : 0 ≤ acc) :
    0 ≤ back book t acc := by
  rw [← @back_zero book t]
  exact back_monotone hb t h

/-- `startingAssetQty` of `Opportunity::update`. -/
def startingAssetQty (book : Book) (trades : List Trade) (budget : PreciseNumber) :
    PreciseNumber :=
  let afterTrades := calculateMaxQtyAfterTrades book trades budget
  calculateStartingAssetQty book afterTrades.2 afterTrades.1

/-- The starting quantity is the way forth with the offers and the way back without them. -/
theorem startingAssetQty_eq (hb : book.NonNeg) (trades : List Trade)
    (budget : PreciseNumber) :
    startingAssetQty book trades budget
      = trades.foldr (back book) (trades.foldl (fun acc t => forth book t acc) budget) := by
  rw [startingAssetQty, calculateStartingAssetQty_eq, calculateMaxQtyAfterTrades_eq hb,
    foldr_back_eq_of_legs (legs_calculateMaxQtyAfterTrades book trades budget)]

/-- The backward pass over the forward pass stays within the budget. -/
theorem startingAssetQty_le (hb : book.NonNeg) (trades : List Trade)
    {budget : PreciseNumber} (h : 0 ≤ budget) :
    startingAssetQty book trades budget ≤ budget := by
  rw [startingAssetQty_eq hb]
  exact FixedPoint.foldr_foldl_le (P := fun acc => 0 ≤ acc) (forth book) (back book) trades
    (fun t _ _ hacc => forth_nonneg hb t hacc) (fun t _ => back_monotone hb t)
    (fun t _ _ hacc => back_forth_le hb t hacc) budget h

/-- The starting quantity is an amount. -/
theorem startingAssetQty_nonneg (hb : book.NonNeg) (trades : List Trade)
    {budget : PreciseNumber} (h : 0 ≤ budget) : 0 ≤ startingAssetQty book trades budget := by
  have hforth : ∀ (ts : List Trade) {acc : PreciseNumber}, 0 ≤ acc →
      0 ≤ ts.foldl (fun acc t => forth book t acc) acc := by
    intro ts
    induction ts with
    | nil => exact fun h => h
    | cons t ts ih => exact fun h => ih (forth_nonneg hb t h)
  have hback : ∀ (ts : List Trade) {acc : PreciseNumber}, 0 ≤ acc →
      0 ≤ ts.foldr (back book) acc := by
    intro ts
    induction ts with
    | nil => exact fun h => h
    | cons t ts ih => exact fun h => back_nonneg hb t (ih h)
  rw [startingAssetQty_eq hb]
  exact hback trades (hforth trades h)

/-! ### The sized trades -/

/-- A sized path: no quantity is negative, the head uses at most `acc`, and each later trade
uses at most what the trade before it gives. -/
theorem isChain_updateTrades (hb : book.NonNeg) (trades : List Trade)
    {acc : PreciseNumber} (h : 0 ≤ acc) :
    (∀ t ∈ updateTrades book trades acc, 0 ≤ t.orderQty) ∧
    (∀ t ∈ (updateTrades book trades acc).head?, t.usedQty book ≤ acc) ∧
      (updateTrades book trades acc).IsChain
        fun t t' => t'.usedQty book ≤ t.recvQty book := by
  induction trades generalizing acc with
  | nil => exact ⟨by simp [updateTrades], by simp [updateTrades], List.IsChain.nil⟩
  | cons t trades ih =>
    have hqty := Trade.orderQty_recalculateOrderQty_nonneg hb t h
    -- What the trade gives is the budget of the next one.
    obtain ⟨hnonneg, hhead, hchain⟩ := ih (Trade.recvQty_nonneg hb hqty)
    refine ⟨?_, ?_, ?_⟩
    · intro t' ht'
      rcases List.mem_cons.mp ht' with rfl | ht'
      · exact hqty
      · exact hnonneg t' ht'
    · intro t' ht'
      cases ht'
      exact Trade.usedQty_recalculateOrderQty_le hb t h
    · exact List.isChain_cons.mpr ⟨hhead, hchain⟩

/-- The order quantities of a sized path are not negative. -/
theorem orderQty_sizeTrades_nonneg (hb : book.NonNeg) (trades : List Trade)
    {budget : PreciseNumber} (h : 0 ≤ budget) :
    ∀ t ∈ sizeTrades book trades budget, 0 ≤ t.orderQty :=
  (isChain_updateTrades hb _ (startingAssetQty_nonneg hb trades h)).1

/-- The first trade of a sized path uses at most the budget. -/
theorem usedQty_head_sizeTrades_le (hb : book.NonNeg) (trades : List Trade)
    {budget : PreciseNumber} (h : 0 ≤ budget) (hne : sizeTrades book trades budget ≠ []) :
    ((sizeTrades book trades budget).head hne).usedQty book ≤ budget := by
  have hhead := (isChain_updateTrades hb (calculateMaxQtyAfterTrades book trades budget).2
    (startingAssetQty_nonneg hb trades h)).2.1
  exact (hhead _ (List.head?_eq_some_head hne)).trans (startingAssetQty_le hb trades h)

/-- Each later trade of a sized path uses at most what the trade before it gives. -/
theorem isChain_sizeTrades (hb : book.NonNeg) (trades : List Trade)
    {budget : PreciseNumber} (h : 0 ≤ budget) :
    (sizeTrades book trades budget).IsChain
      fun t t' => t'.usedQty book ≤ t.recvQty book :=
  (isChain_updateTrades hb _ (startingAssetQty_nonneg hb trades h)).2.2

/-- A trade an exchange accepts against the book: it has a price and a quantity, it is
within the offer, and it meets the minimum notional. -/
structure Trade.Placeable (book : Book) (t : Trade) : Prop where
  orderPrice : 0 < t.orderPrice book
  orderQty : 0 < t.orderQty
  offer : t.orderQty ≤ t.offerQty book
  notional : t.symbol.minNotional ≤ t.orderQty * t.orderPrice book

/-- When the last trade of a sized path gives something, every trade of the path is
placeable. The last trade had a budget, which is what the trade before it gives, and so on
back to the first. -/
theorem placeable_of_recvQty_pos (hb : book.NonNeg) (trades : List Trade)
    {acc : PreciseNumber} (h : 0 ≤ acc) (hne : updateTrades book trades acc ≠ [])
    (hpos : 0 < ((updateTrades book trades acc).getLast hne).recvQty book) :
    0 < acc ∧ ∀ t ∈ updateTrades book trades acc, t.Placeable book := by
  induction trades generalizing acc with
  | nil => exact absurd rfl hne
  | cons t trades ih =>
    have hqty := Trade.orderQty_recalculateOrderQty_nonneg hb t h
    have hrecv := Trade.recvQty_nonneg hb hqty
    -- The head gives something: it is the last trade, or the budget of the next one.
    have hgives : 0 < (t.recalculateOrderQty book acc).recvQty book ∧
        ∀ t' ∈ updateTrades book trades ((t.recalculateOrderQty book acc).recvQty book),
          t'.Placeable book := by
      by_cases hrest : updateTrades book trades
          ((t.recalculateOrderQty book acc).recvQty book) = []
      · refine ⟨?_, by simp [hrest]⟩
        simpa [updateTrades, hrest] using hpos
      · have hlast : (updateTrades book (t :: trades) acc).getLast hne
            = (updateTrades book trades _).getLast hrest := List.getLast_cons hrest
        rw [hlast] at hpos
        exact ih hrecv hrest hpos
    obtain ⟨hprice, hq, hacc⟩ := Trade.pos_of_recvQty_pos hb t h hgives.1
    obtain ⟨hoffer, hnotional⟩ := Trade.placeable_of_orderQty_pos t hq
    refine ⟨hacc, fun t' ht' => ?_⟩
    rcases List.mem_cons.mp ht' with rfl | ht'
    · exact ⟨hprice, hq, hoffer, hnotional⟩
    · exact hgives.2 t' ht'

/-! ### `update` reads the legs only -/

/-- Sizing a trade is a matter of its leg. -/
theorem recalculateOrderQty_eq_of_leg {t t' : Trade} (h : t.leg = t'.leg)
    (acc : PreciseNumber) :
    t.recalculateOrderQty book acc = t'.recalculateOrderQty book acc := by
  obtain ⟨symbol, position, qty⟩ := t
  obtain ⟨symbol', position', qty'⟩ := t'
  obtain ⟨rfl, rfl⟩ := Prod.ext_iff.mp h
  rfl

/-- Sizing the trades of a path is a matter of their legs. -/
theorem updateTrades_eq_of_legs {trades trades' : List Trade}
    (h : trades'.map Trade.leg = trades.map Trade.leg) (acc : PreciseNumber) :
    updateTrades book trades' acc = updateTrades book trades acc := by
  induction trades generalizing trades' acc with
  | nil => rw [List.map_eq_nil_iff.mp h]
  | cons t trades ih =>
    cases trades' with
    | nil => cases h
    | cons t' trades' =>
      obtain ⟨hleg, hrest⟩ := List.cons.inj h
      rw [updateTrades, updateTrades, recalculateOrderQty_eq_of_leg hleg, ih hrest]

/-- The forward pass resets an order quantity before it reads it. -/
theorem calculateMaxQtyAfterTrades_eq_of_legs {trades trades' : List Trade}
    (h : trades'.map Trade.leg = trades.map Trade.leg) (acc : PreciseNumber) :
    (calculateMaxQtyAfterTrades book trades' acc).1
      = (calculateMaxQtyAfterTrades book trades acc).1 := by
  induction trades generalizing trades' acc with
  | nil => rw [List.map_eq_nil_iff.mp h]
  | cons t trades ih =>
    cases trades' with
    | nil => cases h
    | cons t' trades' =>
      obtain ⟨hleg, hrest⟩ := List.cons.inj h
      -- The offer replaces the old quantity, whatever it was.
      have hreset : t'.resetOrderQty book = t.resetOrderQty book := by
        obtain ⟨symbol, position, qty⟩ := t
        obtain ⟨symbol', position', qty'⟩ := t'
        obtain ⟨rfl, rfl⟩ := Prod.ext_iff.mp hleg
        rfl
      rw [calculateMaxQtyAfterTrades, calculateMaxQtyAfterTrades, hreset]
      rcases (t.resetOrderQty book).position_cases with hp | hp <;> simp only [hp]
      · split
        · rfl
        · exact ih hrest _
      · exact ih hrest _

/-- The whole update of the trades is a matter of their legs: what they were sized to before is
gone. -/
theorem sizeTrades_eq_of_legs {trades trades' : List Trade}
    (h : trades'.map Trade.leg = trades.map Trade.leg) (budget : PreciseNumber) :
    sizeTrades book trades' budget = sizeTrades book trades budget := by
  have hlegs : (calculateMaxQtyAfterTrades book trades' budget).2.map Trade.leg
      = (calculateMaxQtyAfterTrades book trades budget).2.map Trade.leg := by
    rw [legs_calculateMaxQtyAfterTrades, legs_calculateMaxQtyAfterTrades, h]
  rw [sizeTrades, sizeTrades, updateTrades_eq_of_legs hlegs, calculateStartingAssetQty_eq,
    calculateStartingAssetQty_eq, foldr_back_eq_of_legs hlegs,
    calculateMaxQtyAfterTrades_eq_of_legs h]

/-- Two states of one path are equal after an update. -/
theorem Opportunity.update_eq_of_samePath {opp opp' : Opportunity} (h : opp.SamePath opp')
    (budget : PreciseNumber) : opp.update book budget = opp'.update book budget := by
  obtain ⟨hlegs, hstart, hcommission, hvalue⟩ := h
  have htrades := @sizeTrades_eq_of_legs book _ _ hlegs budget
  unfold Opportunity.update
  simp only [htrades, Opportunity.profit, hstart, hcommission, hvalue]

/-- Whatever order quantities and profit earlier updates left in a path, an update gives its
trades the same order quantities, and the path the same capacity and profit. A second update
changes nothing. -/
theorem Opportunity.update_history_free {opp opp' : Opportunity} (h : opp.SamePath opp')
    (budget : PreciseNumber) :
    (opp.update book budget).trades.map Trade.orderQty
        = (opp'.update book budget).trades.map Trade.orderQty ∧
      (opp.update book budget).getCapacity book = (opp'.update book budget).getCapacity book ∧
      (opp.update book budget).totalProfit = (opp'.update book budget).totalProfit ∧
      (opp.update book budget).update book budget = opp.update book budget := by
  have hsame : opp.update book budget = opp'.update book budget := update_eq_of_samePath h budget
  have hagain : (opp.update book budget).update book budget = opp.update book budget :=
    update_eq_of_samePath (samePath_update book opp budget) budget
  exact ⟨by rw [hsame], by rw [hsame], by rw [hsame], hagain⟩

/-- A path of two legs with the given order quantities. -/
def halfPriced (qty qty' : PreciseNumber) : Opportunity :=
  Opportunity.new
    ⟨[⟨⟨"ETHBTC", "ETH", "BTC", 0, 0⟩, .LONG, qty⟩,
      ⟨⟨"ETHUSDT", "ETH", "USDT", 0, 0⟩, .SHORT, qty'⟩], List.cons_ne_nil _ _⟩
    PreciseNumber.one 0

/-- A book with a price for the second leg only. -/
def halfPricedBook : Book :=
  Function.update Book.empty "ETHUSDT" ⟨.ofCount 1, .ofCount 2, .ofCount 5, .ofCount 5⟩

/-- The stale order quantity behind the leg without a price is overwritten. -/
theorem Opportunity.update_history_free_halfPriced :
    ((halfPriced 0 0).update halfPricedBook (.ofCount 3)).trades.map Trade.orderQty
      = ((halfPriced (.ofCount 7) (.ofCount 9)).update halfPricedBook
          (.ofCount 3)).trades.map Trade.orderQty :=
  (Opportunity.update_history_free ⟨rfl, rfl, rfl, rfl⟩ _).1

/-! ### The profit -/

namespace Opportunity

/-- A positive profit with a non-negative relative value has a positive excess over what the
first trade used. -/
theorem excess_pos_of_profit_pos {opp : Opportunity} (hv : 0 ≤ opp.relativeValue)
    {recvQty usedQty : PreciseNumber} {size : ℕ} (h : 0 < opp.profit recvQty usedQty size) :
    usedQty < recvQty * (PreciseNumber.one - opp.commission * PreciseNumber.ofCount size) := by
  have hexcess := FixedPoint.pos_of_mul_pos PreciseNumber.kPrecision_pos hv h
  rw [PreciseNumber.lt_def]
  rw [PreciseNumber.units_sub] at hexcess
  omega

/-- A positive profit needs a last trade that gives something. -/
theorem recvQty_pos_of_profit_pos {opp : Opportunity} (hv : 0 ≤ opp.relativeValue)
    {recvQty usedQty : PreciseNumber} {size : ℕ} (hrecv : 0 ≤ recvQty) (hused : 0 ≤ usedQty)
    (h : 0 < opp.profit recvQty usedQty size) : 0 < recvQty :=
  PreciseNumber.pos_of_mul_pos_left hrecv (hused.trans_lt (excess_pos_of_profit_pos hv h))

/-- With a non-negative commission, a positive profit means that the last trade gives more
than the first trade uses. -/
theorem usedQty_lt_recvQty_of_profit_pos {opp : Opportunity} (hv : 0 ≤ opp.relativeValue)
    (hc : 0 ≤ opp.commission) {recvQty usedQty : PreciseNumber} {size : ℕ}
    (hrecv : 0 ≤ recvQty) (h : 0 < opp.profit recvQty usedQty size) : usedQty < recvQty := by
  refine (excess_pos_of_profit_pos hv h).trans_le ?_
  -- The factor after the commission is at most one.
  refine FixedPoint.mul_le_self PreciseNumber.kPrecision_pos hrecv ?_
  have hfee : 0 ≤ opp.commission * PreciseNumber.ofCount size :=
    PreciseNumber.mul_nonneg hc
      (Int.mul_nonneg (Int.natCast_nonneg size) PreciseNumber.kPrecision_pos.le)
  rw [PreciseNumber.le_def, PreciseNumber.units_zero] at hfee
  rw [PreciseNumber.units_sub, PreciseNumber.units_one]
  omega

section Update
variable {opp : Opportunity} {budget : PreciseNumber}

/-- The capacity of an updated path is at most the budget. -/
theorem getCapacity_update_le (hb : book.NonNeg) (h : 0 ≤ budget) :
    (opp.update book budget).getCapacity book ≤ budget :=
  usedQty_head_sizeTrades_le hb opp.trades h _

/-- What an updated path uses first and gives last is not negative. -/
theorem update_ends_nonneg (opp : Opportunity) (hb : book.NonNeg) (h : 0 ≤ budget) :
    0 ≤ (opp.update book budget).getCapacity book ∧
      0 ≤ ((opp.update book budget).trades.getLast
        (opp.update book budget).nonempty).recvQty book := by
  have hqty := orderQty_sizeTrades_nonneg hb opp.trades h
  exact ⟨Trade.usedQty_nonneg hb (hqty _ (List.head_mem _)),
    Trade.recvQty_nonneg hb (hqty _ (List.getLast_mem _))⟩

/-- Every trade of an updated path with a profit is placeable. -/
theorem placeable_of_profit (hb : book.NonNeg) (hv : 0 ≤ opp.relativeValue) (h : 0 ≤ budget)
    (hprofit : 0 < (opp.update book budget).totalProfit) :
    ∀ t ∈ (opp.update book budget).trades, t.Placeable book := by
  obtain ⟨hused, hrecv⟩ := update_ends_nonneg opp hb h
  have hlast := recvQty_pos_of_profit_pos hv hrecv hused hprofit
  exact (placeable_of_recvQty_pos hb _ (startingAssetQty_nonneg hb opp.trades h)
    (opp.update book budget).nonempty hlast).2

/-- The last trade of an updated path with a profit gives more than the first one uses. -/
theorem getCapacity_lt_of_profit (hb : book.NonNeg) (hv : 0 ≤ opp.relativeValue)
    (hc : 0 ≤ opp.commission) (h : 0 ≤ budget)
    (hprofit : 0 < (opp.update book budget).totalProfit) :
    (opp.update book budget).getCapacity book
      < ((opp.update book budget).trades.getLast
          (opp.update book budget).nonempty).recvQty book :=
  usedQty_lt_recvQty_of_profit_pos hv hc (update_ends_nonneg opp hb h).2 hprofit

end Update

end Opportunity

end Harjus
