import Harjus.Proofs.Sizing
import Mathlib.Algebra.Order.Ring.Pow

/-!
# `Harjus.Proofs.Commission`: the reported profit against compounded commission

`Opportunity::update` charges the commission of `n` trades as `1 - c * n` of what the last
trade gives. An exchange charges it on every trade, which leaves `(1 - c) ^ n`.

* `toRat_excess_le`: the truncated product with the linear estimate is at most the exact
  amount after compounded commission. The estimate is exact in fixed point, the truncation
  goes down because the product is positive, and the rest is Bernoulli's inequality.
* `usedQty_lt_compounded_of_profit`: a positive profit means that the path gains after
  compounded commission, in exact arithmetic.
-/

set_option autoImplicit false

namespace Harjus.Opportunity

open Harjus.Lib

variable {book : Book} {opp : Opportunity}

/-- The factor after the linear commission, exactly. -/
theorem toRat_linearFactor (c : PreciseNumber) (n : ℕ) :
    (PreciseNumber.one - c * PreciseNumber.ofCount n).toRat = 1 - n * c.toRat := by
  rw [PreciseNumber.toRat_sub, PreciseNumber.toRat_one, PreciseNumber.toRat_mul_ofCount,
    mul_comm]

/-- Bernoulli's inequality for a commission between zero and one. -/
theorem linear_le_compounded {c : ℚ} (hc : c ≤ 1) (n : ℕ) : 1 - n * c ≤ (1 - c) ^ n := by
  have h := one_add_mul_le_pow (show (-2 : ℚ) ≤ -c by linarith) n
  rwa [mul_neg, ← sub_eq_add_neg, ← sub_eq_add_neg] at h

/-- A positive product with the linear factor is at most the exact amount after compounded
commission. -/
theorem toRat_excess_le {c recvQty : PreciseNumber} {n : ℕ} (hc : c ≤ PreciseNumber.one)
    (hrecv : 0 ≤ recvQty)
    (hpos : 0 < recvQty * (PreciseNumber.one - c * PreciseNumber.ofCount n)) :
    (recvQty * (PreciseNumber.one - c * PreciseNumber.ofCount n)).toRat
      ≤ recvQty.toRat * (1 - c.toRat) ^ n := by
  -- Both factors are positive, so the truncation rounds down.
  have hfactor := PreciseNumber.pos_of_mul_pos_right hrecv hpos
  have hsign : 0 ≤ recvQty.smallestUnit
      * (PreciseNumber.one - c * PreciseNumber.ofCount n).smallestUnit :=
    Int.mul_nonneg hrecv hfactor.le
  have hc' : c.toRat ≤ 1 := by
    rw [← PreciseNumber.toRat_one]
    exact PreciseNumber.toRat_le_toRat.mpr hc
  calc (recvQty * (PreciseNumber.one - c * PreciseNumber.ofCount n)).toRat
      ≤ recvQty.toRat * (PreciseNumber.one - c * PreciseNumber.ofCount n).toRat :=
        PreciseNumber.toRat_mul_le hsign
    _ = recvQty.toRat * (1 - n * c.toRat) := by rw [toRat_linearFactor]
    _ ≤ recvQty.toRat * (1 - c.toRat) ^ n :=
        mul_le_mul_of_nonneg_left (linear_le_compounded hc' n)
          (PreciseNumber.toRat_nonneg hrecv)

/-- A positive profit is a gain after compounded commission: with `c` paid on each of the `n`
trades, in exact arithmetic, the path gives more than it uses. -/
theorem usedQty_lt_compounded_of_profit (hb : book.NonNeg) {budget : PreciseNumber}
    (hbudget : 0 ≤ budget) (hc : 0 ≤ opp.commission ∧ opp.commission ≤ PreciseNumber.one)
    (hv : 0 < opp.relativeValue)
    (hprofit : 0 < (opp.update book budget).totalProfit) :
    (((opp.update book budget).trades.head (opp.update book budget).nonempty).usedQty
        book).toRat
      < (((opp.update book budget).trades.getLast (opp.update book budget).nonempty).recvQty
          book).toRat * (1 - opp.commission.toRat) ^ opp.trades.length := by
  obtain ⟨hused, hrecv⟩ := update_ends_nonneg opp hb hbudget
  have hexcess := excess_pos_of_profit_pos hv.le hprofit
  have hlength : (opp.update book budget).trades.length = opp.trades.length := by
    have hlegs := congrArg List.length (legs_sizeTrades book opp.trades budget)
    rwa [List.length_map, List.length_map] at hlegs
  rw [← hlength]
  exact (PreciseNumber.toRat_lt_toRat.mpr hexcess).trans_le
    (toRat_excess_le hc.2 hrecv (hused.trans_lt hexcess))

/-- A market whose bid is above its ask, at a commission of one per mille. -/
def crossed : Opportunity :=
  Opportunity.new
    ⟨[⟨⟨"ETHBTC", "ETH", "BTC", 0, 0⟩, .LONG, 0⟩, ⟨⟨"ETHBTC", "ETH", "BTC", 0, 0⟩, .SHORT, 0⟩],
      List.cons_ne_nil _ _⟩
    PreciseNumber.one ⟨10000000⟩

/-- The book of `crossed`. -/
def crossedBook : Book := fun _ =>
  ⟨.ofCount 2, .ofCount 1, .ofCount 5, .ofCount 5⟩

/-- The crossed book has no negative entry. -/
private theorem nonNeg_crossedBook : crossedBook.NonNeg := by
  constructor <;> intro s <;> unfold crossedBook <;> decide

/-- The crossed path has a profit, and returns more than it uses after the commission. -/
theorem usedQty_lt_compounded_of_profit_crossed :
    (((crossed.update crossedBook (.ofCount 3)).trades.head
        (crossed.update crossedBook (.ofCount 3)).nonempty).usedQty crossedBook).toRat
      < (((crossed.update crossedBook (.ofCount 3)).trades.getLast
            (crossed.update crossedBook (.ofCount 3)).nonempty).recvQty crossedBook).toRat
          * (1 - crossed.commission.toRat) ^ crossed.trades.length :=
  usedQty_lt_compounded_of_profit nonNeg_crossedBook (by decide) ⟨by decide, by decide⟩
    (by decide) (by decide)

end Harjus.Opportunity
