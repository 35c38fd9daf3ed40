import Harjus.Lib.Bottleneck
import Harjus.Proofs.Sizing

/-!
# `Harjus.Proofs.Capacity`: the forward pass against its reference

`calculateMaxQtyAfterTrades` carries a budget through a path. At each leg the book absorbs so
much of the carried amount as its offer costs, and the rest goes nowhere. The reference caps
the amount at that cost, in the used currency of the leg, and converts it. The code caps a
`LONG` leg at the cost times the price once more, and the two agree where the price is one.

Both are flows through a chain of monotone conversions (`Harjus.Lib.Bottleneck`), so each
gives the least yield of its limits.

* `calculateMaxQtyAfterTrades_eq_flow`: with a price at every leg the code is the flow with
  the caps it applies.
* `calculateMaxQtyAfterTrades_eq_reference_iff`: the code meets the reference exactly when no
  `LONG` leg is the bottleneck under one of its two caps only.
* `sameBottleneck_of_one`: prices of one on the `LONG` legs are enough.
-/

set_option autoImplicit false

namespace Harjus

open Harjus.Lib Harjus.Lib.Bottleneck

variable {book : Book}

/-! ### The reference -/

/-- What the book absorbs at a leg: the used quantity at the full offer. -/
def absorbedQty (book : Book) (t : Trade) : PreciseNumber :=
  (t.resetOrderQty book).usedQty book

/-- The conversion of a leg at its price. -/
def convert (book : Book) (t : Trade) (acc : PreciseNumber) : PreciseNumber :=
  match t.position with
  | .LONG => acc / t.orderPrice book
  | .SHORT => acc * t.orderPrice book

/-- The reference for `calculateMaxQtyAfterTrades`: each leg takes what the book absorbs and
converts it. -/
def referenceQtyAfterTrades (book : Book) (trades : List Trade) (budget : PreciseNumber) :
    PreciseNumber :=
  trades.foldl (fun acc t => convert book t (min acc (absorbedQty book t))) budget

/-- The cap that `calculateMaxQtyAfterTrades` applies at a leg. -/
def appliedCap (book : Book) (t : Trade) : PreciseNumber :=
  match t.position with
  | .LONG => absorbedQty book t * t.orderPrice book
  | .SHORT => absorbedQty book t

/-- No `LONG` leg is the bottleneck under one of its two caps only. Carried to the end of the
path, what the book absorbs at the leg is at least some limit of the code, and what the code
caps it at is at least some limit of the reference. The limits are the budget and the caps of
the legs. -/
def SameBottleneck (book : Book) (trades : List Trade) (budget : PreciseNumber) : Prop :=
  ∀ t rest, t :: rest <:+ trades → t.position = .LONG →
    (∃ y ∈ yields (appliedCap book) (convert book) trades budget,
      y ≤ carry (convert book) (t :: rest) (absorbedQty book t)) ∧
    ∃ y ∈ yields (absorbedQty book) (convert book) trades budget,
      y ≤ carry (convert book) (t :: rest) (absorbedQty book t * t.orderPrice book)

/-! ### The code is a flow -/

/-- The code caps a `LONG` trade by its offer priced twice. -/
theorem appliedCap_long {t : Trade} (hp : t.position = .LONG) :
    appliedCap book t = absorbedQty book t * t.orderPrice book := by rw [appliedCap, hp]

/-- The code caps a `SHORT` trade by its offer. -/
theorem appliedCap_not_long {t : Trade} (hp : t.position ≠ .LONG) :
    appliedCap book t = absorbedQty book t := by
  rcases t.position_cases with hlong | hshort
  · exact absurd hlong hp
  · rw [appliedCap, hshort]

/-- A positive price makes the conversion monotone. -/
theorem convert_monotone {t : Trade} (hprice : 0 < t.orderPrice book) :
    Monotone (convert book t) := by
  unfold convert
  split
  · exact PreciseNumber.div_le_div_right hprice.le
  · exact PreciseNumber.mul_le_mul_right hprice.le

/-- With a price at every leg the loop does not stop early. -/
theorem calculateMaxQtyAfterTrades_eq_flow {trades : List Trade}
    (hprice : ∀ t ∈ trades, 0 < t.orderPrice book) (acc : PreciseNumber) :
    (calculateMaxQtyAfterTrades book trades acc).1
      = flow (appliedCap book) (convert book) trades acc := by
  induction trades generalizing acc with
  | nil => rfl
  | cons t trades ih =>
    have hrest := ih fun t' ht' => hprice t' (List.mem_cons_of_mem _ ht')
    have hne : (t.resetOrderQty book).orderPrice book ≠ 0 :=
      (hprice t List.mem_cons_self).ne'
    have hstep : flow (appliedCap book) (convert book) (t :: trades) acc
        = flow (appliedCap book) (convert book) trades
            (convert book t (min acc (appliedCap book t))) := rfl
    have hpos : (t.resetOrderQty book).position = t.position := rfl
    rw [calculateMaxQtyAfterTrades, hstep, convert, appliedCap]
    simp only [hpos, if_neg hne]
    rcases t.position_cases with hp | hp <;> rw [hp]
    · exact hrest _
    · exact hrest _

/-! ### The code against the reference -/

/-- The code meets the reference exactly when the two caps of each `LONG` leg leave the
bottleneck of the path where it is. -/
theorem calculateMaxQtyAfterTrades_eq_reference_iff (book : Book) (trades : List Trade)
    (budget : PreciseNumber) (hprice : ∀ t ∈ trades, 0 < t.orderPrice book) :
    (calculateMaxQtyAfterTrades book trades budget).1
        = referenceQtyAfterTrades book trades budget
      ↔ SameBottleneck book trades budget := by
  have hmono : ∀ t ∈ trades, Monotone (convert book t) := fun t ht =>
    convert_monotone (hprice t ht)
  have hreference : referenceQtyAfterTrades book trades budget
      = flow (absorbedQty book) (convert book) trades budget := rfl
  rw [calculateMaxQtyAfterTrades_eq_flow hprice, hreference,
    flow_eq_flow_iff hmono (S := fun t => t.position = .LONG)
      (fun t hp => appliedCap_not_long hp) budget]
  constructor
  · intro h t rest hsuffix hp
    have hleg := h t rest hsuffix hp
    rwa [appliedCap_long hp] at hleg
  · intro h t rest hsuffix hp
    have hleg := h t rest hsuffix hp
    rwa [← appliedCap_long hp] at hleg

/-- Prices of one on the `LONG` legs hide the second price. -/
theorem sameBottleneck_of_one {trades : List Trade} {budget : PreciseNumber}
    (hone : ∀ t ∈ trades, t.position = .LONG → t.orderPrice book = PreciseNumber.one) :
    SameBottleneck book trades budget := by
  intro t rest hsuffix hp
  have hcap : absorbedQty book t * t.orderPrice book = absorbedQty book t := by
    rw [hone t (hsuffix.subset List.mem_cons_self) hp, PreciseNumber.mul_one]
  have happlied : appliedCap book t = absorbedQty book t := by
    rw [appliedCap_long hp, hcap]
  rw [hcap]
  exact ⟨⟨_, Or.inr ⟨t, rest, hsuffix, rfl⟩, by rw [happlied]⟩,
    ⟨_, Or.inr ⟨t, rest, hsuffix, rfl⟩, le_rfl⟩⟩

/-- One base unit on offer, with a stale order quantity. -/
def atTwo : List Trade := [⟨⟨"ETHBTC", "ETH", "BTC", 0, 0⟩, .LONG, .ofCount 7⟩]

/-- The unit of `atTwo` is offered at two quote units. -/
def atTwoBook : Book := fun _ => ⟨.ofCount 1, .ofCount 2, .ofCount 1, .ofCount 1⟩

/-- The unit of `atTwo` is offered at one quote unit. -/
def atOneBook : Book := fun _ => ⟨.ofCount 1, .ofCount 1, .ofCount 1, .ofCount 1⟩

/-- At a price of one the code meets the reference for every budget. At a price of two it does
so for a budget of one, and not for a budget of ten, where the two caps differ. -/
theorem calculateMaxQtyAfterTrades_eq_reference_iff_atTwo :
    (∀ budget, (calculateMaxQtyAfterTrades atOneBook atTwo budget).1
      = referenceQtyAfterTrades atOneBook atTwo budget) ∧
    SameBottleneck atTwoBook atTwo (.ofCount 1) ∧
    ¬ SameBottleneck atTwoBook atTwo (.ofCount 10) := by
  have hiff (budget : PreciseNumber) :=
    calculateMaxQtyAfterTrades_eq_reference_iff atTwoBook atTwo budget (by decide)
  refine ⟨fun budget => ?_, (hiff _).mp (by decide), fun h => ?_⟩
  · exact (calculateMaxQtyAfterTrades_eq_reference_iff atOneBook atTwo budget (by decide)).mpr
      (sameBottleneck_of_one (by decide))
  · exact absurd ((hiff _).mpr h) (by decide)

/-- With a budget of ten the code lets two base units through an offer of one. -/
theorem calculateMaxQtyAfterTrades_ne_reference_atTwo :
    ((∀ t ∈ atTwo, 0 < t.orderPrice atTwoBook ∧ 0 ≤ t.offerQty atTwoBook) ∧
      (0 : PreciseNumber) ≤ .ofCount 10) ∧
    (calculateMaxQtyAfterTrades atTwoBook atTwo (.ofCount 10)).1
      ≠ referenceQtyAfterTrades atTwoBook atTwo (.ofCount 10) := by
  decide

end Harjus
