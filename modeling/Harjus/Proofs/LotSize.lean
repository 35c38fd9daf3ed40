import Harjus.Trade
import Mathlib.Order.Bounds.Basic

/-!
# `Harjus.Proofs.LotSize`: the maximum correct order quantity

An exchange takes an order whose quantity is a multiple of the step size. The documentation
of `Trade::recalculateOrderQty` promises the maximum such quantity that the offer and the
budget allow. The code rounds what the budget buys down to a multiple and caps the result by
the offer afterwards, so an offer between two multiples comes out as the order quantity.

* `isGreatest_lotQty`: the rounded quantity is the greatest multiple the budget pays for.
* `isGreatest_min`: the greatest correct quantity is the smaller of it and the greatest
  multiple within the offer.
* `maxCorrect_iff`: the order quantity is the documented one unless the offer is not a
  multiple, the budget pays for a multiple above the offer, and the offer meets the minimum
  notional.
-/

set_option autoImplicit false

namespace Harjus.Trade

open Harjus.Lib

variable {book : Book} {t : Trade} {budget : PreciseNumber}

/-! ### The documented quantity -/

/-- The quantity is a multiple of the step size. -/
def IsLot (t : Trade) (q : PreciseNumber) : Prop :=
  t.symbol.baseAssetIncrement.smallestUnit ∣ q.smallestUnit

/-- The exact cost of the quantity is within the budget. -/
def Affordable (book : Book) (t : Trade) (budget q : PreciseNumber) : Prop :=
  match t.position with
  | .LONG => q.toRat * (t.orderPrice book).toRat ≤ budget.toRat
  | .SHORT => q ≤ budget

/-- The multiples of the step size within the offer and the budget. -/
def correctQtys (book : Book) (t : Trade) (budget : PreciseNumber) : Set PreciseNumber :=
  {q | t.IsLot q ∧ q ≤ t.offerQty book ∧ t.Affordable book budget q}

/-- The order quantity is the greatest correct one, or zero when that one is worth less than
the minimum notional. In particular it is a multiple of the step size. -/
structure MaxCorrect (book : Book) (t : Trade) (budget orderQty : PreciseNumber) : Prop where
  greatest : ∃ q, IsGreatest (t.correctQtys book budget) q ∧
    orderQty = if t.symbol.minNotional ≤ q * t.orderPrice book then q else 0
  lot : t.IsLot orderQty

/-- No multiple of the step size above the offer is affordable, the offer is a multiple
itself, or the whole offer is worth less than the minimum notional. -/
def OfferFits (book : Book) (t : Trade) (budget : PreciseNumber) : Prop :=
  (∀ q, t.IsLot q → t.Affordable book budget q → q ≤ t.offerQty book) ∨
    t.IsLot (t.offerQty book) ∨
    t.offerQty book * t.orderPrice book < t.symbol.minNotional

/-! ### Rounding down to a multiple -/

/-- What the budget buys, rounded down to a multiple of the step size. -/
def lotQty (book : Book) (t : Trade) (budget : PreciseNumber) : PreciseNumber :=
  match t.position with
  | .LONG => budget / t.orderPrice book
      - PreciseNumber.fmod (budget / t.orderPrice book) t.symbol.baseAssetIncrement
  | .SHORT => budget - PreciseNumber.fmod budget t.symbol.baseAssetIncrement

/-- An order is the whole lots that the budget buys, up to the offer. -/
theorem maxOrderQty_eq (t : Trade) (budget : PreciseNumber) :
    t.maxOrderQty book budget = min (t.lotQty book budget) (t.offerQty book) := by
  unfold maxOrderQty lotQty
  rcases t.position_cases with hp | hp <;> rw [hp] <;> rfl

/-- An amount less its remainder is the greatest multiple up to it. -/
theorem isGreatest_sub_fmod (hinc : 0 < t.symbol.baseAssetIncrement) {a : PreciseNumber}
    (ha : 0 ≤ a) :
    IsGreatest {q | t.IsLot q ∧ q ≤ a}
      (a - PreciseNumber.fmod a t.symbol.baseAssetIncrement) := by
  have hne : t.symbol.baseAssetIncrement.smallestUnit ≠ 0 := ne_of_gt hinc
  have hgreatest := FixedPoint.isGreatest_sub_tmod ha hinc
  have hunits : (a - PreciseNumber.fmod a t.symbol.baseAssetIncrement).smallestUnit
      = a.smallestUnit - a.smallestUnit.tmod t.symbol.baseAssetIncrement.smallestUnit := by
    rw [PreciseNumber.units_sub, PreciseNumber.fmod, if_neg hne]
  rw [← hunits] at hgreatest
  exact ⟨hgreatest.1, fun q hq => hgreatest.2 hq⟩

/-- What a budget buys in whole units is what it pays for exactly. -/
theorem affordable_iff (hprice : 0 < t.orderPrice book) (hbudget : 0 ≤ budget)
    (q : PreciseNumber) :
    t.Affordable book budget q ↔
      q ≤ match t.position with
        | .LONG => budget / t.orderPrice book
        | .SHORT => budget := by
  unfold Affordable
  rcases t.position_cases with hp | hp <;> rw [hp]
  · show q.toRat * (t.orderPrice book).toRat ≤ budget.toRat ↔ _
    rw [PreciseNumber.toRat_mul_le_toRat]
    exact (FixedPoint.le_div_iff PreciseNumber.kPrecision_pos hbudget hprice).symm

/-- The rounded quantity is the greatest multiple the budget pays for. -/
theorem isGreatest_lotQty (hprice : 0 < t.orderPrice book)
    (hinc : 0 < t.symbol.baseAssetIncrement) (hbudget : 0 ≤ budget) :
    IsGreatest {q | t.IsLot q ∧ t.Affordable book budget q} (t.lotQty book budget) := by
  simp only [affordable_iff hprice hbudget]
  unfold lotQty
  rcases t.position_cases with hp | hp <;> rw [hp] <;> dsimp only
  · exact isGreatest_sub_fmod hinc (PreciseNumber.div_nonneg hbudget hprice.le)
  · exact isGreatest_sub_fmod hinc hbudget

/-- The greatest multiple within the offer. -/
def offerLots (book : Book) (t : Trade) : PreciseNumber :=
  t.offerQty book - PreciseNumber.fmod (t.offerQty book) t.symbol.baseAssetIncrement

/-- The greatest correct quantity is the smaller of the two roundings. -/
theorem isGreatest_min (hprice : 0 < t.orderPrice book)
    (hinc : 0 < t.symbol.baseAssetIncrement) (hoffer : 0 ≤ t.offerQty book)
    (hbudget : 0 ≤ budget) :
    IsGreatest (t.correctQtys book budget)
      (min (t.lotQty book budget) (t.offerLots book)) := by
  have hlot := isGreatest_lotQty hprice hinc hbudget
  have hlots := isGreatest_sub_fmod hinc hoffer
  constructor
  · refine ⟨?_, (min_le_right _ _).trans hlots.1.2, ?_⟩
    · rcases min_choice (t.lotQty book budget) (t.offerLots book) with h | h <;> rw [h]
      · exact hlot.1.1
      · exact hlots.1.1
    · have hpays := hlot.1.2
      rw [affordable_iff hprice hbudget] at hpays ⊢
      exact (min_le_left _ _).trans hpays
  · intro q hq
    obtain ⟨hmultiple, hwithin, hpays⟩ := hq
    exact le_min (hlot.2 ⟨hmultiple, hpays⟩) (hlots.2 ⟨hmultiple, hwithin⟩)

/-! ### The code against the documentation -/

/-- An order that is worth too little is none. -/
theorem orderQty_eq (t : Trade) (budget : PreciseNumber) :
    (t.recalculateOrderQty book budget).orderQty
      = if t.symbol.minNotional ≤ t.maxOrderQty book budget * t.orderPrice book
        then t.maxOrderQty book budget else 0 := by
  unfold recalculateOrderQty
  dsimp only
  split
  · rename_i h
    rw [if_neg (PreciseNumber.not_le.mpr h)]
  · rename_i h
    rw [if_pos (PreciseNumber.not_lt.mp h)]

/-- Where the offer fits, the code computes the documented quantity. -/
theorem maxCorrect_of_offerFits (hprice : 0 < t.orderPrice book)
    (hinc : 0 < t.symbol.baseAssetIncrement) (hoffer : 0 ≤ t.offerQty book)
    (hbudget : 0 ≤ budget) (hfits : t.OfferFits book budget) :
    t.MaxCorrect book budget (t.recalculateOrderQty book budget).orderQty := by
  have hlot := isGreatest_lotQty hprice hinc hbudget
  have hlots : IsGreatest {q | t.IsLot q ∧ q ≤ t.offerQty book} (t.offerLots book) :=
    isGreatest_sub_fmod hinc hoffer
  have hgreatest := isGreatest_min hprice hinc hoffer hbudget
  have hzero : t.IsLot 0 := dvd_zero _
  rw [orderQty_eq, maxOrderQty_eq]
  rcases hfits with hfits | hfits | hfits
  · -- The budget binds: what it buys is within the offer.
    have hle := hfits _ hlot.1.1 hlot.1.2
    rw [min_eq_left (hlots.2 ⟨hlot.1.1, hle⟩)] at hgreatest
    rw [min_eq_left hle]
    refine ⟨⟨_, hgreatest, rfl⟩, ?_⟩
    split
    · exact hlot.1.1
    · exact hzero
  · -- The offer is a multiple, so the cap loses nothing.
    have heq : t.offerLots book = t.offerQty book :=
      le_antisymm hlots.1.2 (hlots.2 ⟨hfits, le_rfl⟩)
    rw [heq] at hgreatest
    refine ⟨⟨_, hgreatest, rfl⟩, ?_⟩
    split
    · exact hgreatest.1.1
    · exact hzero
  · -- Neither quantity reaches the minimum notional, so both are zero.
    have hsmall : ∀ q, q ≤ t.offerQty book →
        ¬ t.symbol.minNotional ≤ q * t.orderPrice book := fun q hq =>
      PreciseNumber.not_le.mpr
        ((PreciseNumber.mul_le_mul_right hprice.le hq).trans_lt hfits)
    rw [if_neg (hsmall _ (min_le_right _ _))]
    exact ⟨⟨_, hgreatest, (if_neg (hsmall _ hgreatest.1.2.1)).symm⟩, hzero⟩

/-- Where the offer does not fit, the order quantity is the offer, which is no multiple. -/
theorem offerFits_of_isLot (hprice : 0 < t.orderPrice book)
    (hinc : 0 < t.symbol.baseAssetIncrement) (hbudget : 0 ≤ budget)
    (hmultiple : t.IsLot (t.recalculateOrderQty book budget).orderQty) :
    t.OfferFits book budget := by
  by_contra hnot
  unfold OfferFits at hnot
  push Not at hnot
  obtain ⟨⟨q, hq, hpays, habove⟩, hoffer, hnotional⟩ := hnot
  have hle : t.offerQty book ≤ t.lotQty book budget :=
    habove.le.trans ((isGreatest_lotQty hprice hinc hbudget).2 ⟨hq, hpays⟩)
  rw [orderQty_eq, maxOrderQty_eq, min_eq_right hle, if_pos hnotional] at hmultiple
  exact hoffer hmultiple

/-- The order quantity is the documented one exactly where the offer fits, and there only it
is a multiple of the step size. -/
theorem maxCorrect_iff (book : Book) (t : Trade) (budget : PreciseNumber)
    (hprice : 0 < t.orderPrice book) (hinc : 0 < t.symbol.baseAssetIncrement)
    (hoffer : 0 ≤ t.offerQty book) (hbudget : 0 ≤ budget) :
    (t.MaxCorrect book budget (t.recalculateOrderQty book budget).orderQty
        ↔ t.OfferFits book budget) ∧
      (t.IsLot (t.recalculateOrderQty book budget).orderQty ↔ t.OfferFits book budget) :=
  ⟨⟨fun h => offerFits_of_isLot hprice hinc hbudget h.lot,
      maxCorrect_of_offerFits hprice hinc hoffer hbudget⟩,
    ⟨offerFits_of_isLot hprice hinc hbudget,
      fun h => (maxCorrect_of_offerFits hprice hinc hoffer hbudget h).lot⟩⟩

/-- An offer of two and a half at a step size of one. -/
def betweenLots : Trade := ⟨⟨"ETHBTC", "ETH", "BTC", 0, .ofCount 1⟩, .SHORT, 0⟩

/-- The book of `betweenLots`. -/
def betweenLotsBook : Book := fun _ => ⟨.ofCount 1, .ofCount 1, ⟨25000000000⟩, ⟨25000000000⟩⟩

/-- With a budget of two the budget binds, and the order is for two. -/
theorem maxCorrect_iff_betweenLots :
    betweenLots.MaxCorrect betweenLotsBook (.ofCount 2)
        (betweenLots.recalculateOrderQty betweenLotsBook (.ofCount 2)).orderQty ∧
      betweenLots.IsLot (betweenLots.recalculateOrderQty betweenLotsBook (.ofCount 2)).orderQty ∧
      (betweenLots.recalculateOrderQty betweenLotsBook (.ofCount 2)).orderQty = .ofCount 2 := by
  obtain ⟨hcorrect, hlot⟩ := maxCorrect_iff betweenLotsBook betweenLots (.ofCount 2) (by decide)
    (by decide) (by decide) (by decide)
  have hfits : betweenLots.OfferFits betweenLotsBook (.ofCount 2) := by
    refine Or.inl fun q _ hpays => ?_
    have hle : q ≤ .ofCount 2 := hpays
    exact hle.trans (by decide)
  exact ⟨hcorrect.mpr hfits, hlot.mpr hfits, by decide⟩

/-- With a budget of three the order is for two and a half. -/
theorem not_maxCorrect_betweenLots :
    (0 < betweenLots.orderPrice betweenLotsBook ∧
      0 < betweenLots.symbol.baseAssetIncrement ∧
      0 ≤ betweenLots.offerQty betweenLotsBook ∧ 0 ≤ betweenLots.symbol.minNotional ∧
      (0 : PreciseNumber) ≤ .ofCount 3) ∧
    ¬ betweenLots.MaxCorrect betweenLotsBook (.ofCount 3)
        (betweenLots.recalculateOrderQty betweenLotsBook (.ofCount 3)).orderQty := by
  refine ⟨by decide, fun h => ?_⟩
  have hnot : ¬ betweenLots.IsLot
      (betweenLots.recalculateOrderQty betweenLotsBook (.ofCount 3)).orderQty := by
    unfold IsLot
    decide
  exact hnot h.lot

end Harjus.Trade
