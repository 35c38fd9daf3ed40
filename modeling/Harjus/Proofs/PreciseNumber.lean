import Harjus.PreciseNumber

/-!
# `Harjus.Proofs.PreciseNumber`: the operators in place, and conversions at a price

* `inPlace_agree_iff`: the operators in place leave what the binary ones return, unless an amount
  other than zero is divided by zero. `operator/` returns `PreciseNumber{}` then, and `operator/=`
  leaves the dividend.
* `convert_and_back`: a conversion at a price and back creates no value, and loses less than the
  last unit on either side.
-/

set_option autoImplicit false

namespace Harjus.PreciseNumber

open Harjus.Lib

/-! ### In place -/

/-- Each operator in place leaves what its binary form returns. -/
def InPlaceAgree (a b : PreciseNumber) : Prop :=
  a.addAssign b = a + b ∧ a.subAssign b = a - b ∧ a.mulAssign b = a * b ∧ a.divAssign b = a / b

instance (a b : PreciseNumber) : Decidable (InPlaceAgree a b) :=
  inferInstanceAs (Decidable (_ ∧ _ ∧ _ ∧ _))

/-- The operators in place agree with the binary ones exactly when no amount other than zero is
divided by zero. -/
theorem inPlace_agree_iff (a b : PreciseNumber) : InPlaceAgree a b ↔ (b = 0 → a = 0) := by
  have hadd : a.addAssign b = a + b := rfl
  have hsub : a.subAssign b = a - b := rfl
  constructor
  · rintro ⟨-, -, -, hdiv⟩ rfl
    rw [div_zero] at hdiv
    exact hdiv
  · intro h
    refine ⟨hadd, hsub, mulAssign_eq_mul a b, ?_⟩
    by_cases hb : b = 0
    · rw [h hb, hb]
      rfl
    · exact divAssign_eq_div a hb

/-- `PreciseNumber{"1"}` divided by zero. -/
theorem one_divAssign_zero : one.divAssign 0 = one ∧ one / 0 = 0 ∧ ¬ InPlaceAgree one 0 := by
  decide

/-! ### Conversions at a price -/

/-- The units lost in a conversion, from a bound in whole numbers. -/
private theorem sub_lt_div_add_one {x y c d : ℤ} (hc : 0 < c) (h : x * c < y * c + d + c) :
    (x : ℚ) - y < d / c + 1 := by
  have hc' : (0 : ℚ) < c := Int.cast_pos.mpr hc
  have h' : (x : ℚ) * c < y * c + d + c := by exact_mod_cast h
  rw [← sub_lt_iff_lt_add, lt_div_iff₀ hc']
  linarith

/-- Converting through a price and back never gives more than the start. With `K` units to the one,
dividing first loses less than `p / K + 1` units, multiplying first less than `K / p + 1`. Both
conversions are monotone in the amount. -/
theorem convert_and_back (a p : PreciseNumber) (ha : 0 ≤ a) (hp : 0 < p) :
    a / p * p ≤ a ∧
    (a.smallestUnit : ℚ) - (a / p * p).smallestUnit < p.smallestUnit / kPrecision + 1 ∧
    a * p / p ≤ a ∧
    (a.smallestUnit : ℚ) - (a * p / p).smallestUnit < kPrecision / p.smallestUnit + 1 ∧
    Monotone (fun a : PreciseNumber => a / p) ∧ Monotone (fun a : PreciseNumber => a * p) := by
  have hunits : 0 < p.smallestUnit := hp
  have hback := FixedPoint.lt_mul_div_add kPrecision_pos a.smallestUnit hunits
  have hforth := FixedPoint.lt_div_mul_add_add kPrecision_pos a.smallestUnit hunits
  refine ⟨div_mul_le ha p, ?_, mul_div_le ha hp.le, ?_, div_le_div_right hp.le,
    mul_le_mul_right hp.le⟩
  · exact sub_lt_div_add_one kPrecision_pos hback
  · refine sub_lt_div_add_one hunits ?_
    show _ < FixedPoint.div kPrecision _ _ * p.smallestUnit + kPrecision + p.smallestUnit
    rw [units_mul]
    omega

/-- One third of `1`, through the price `3`. -/
theorem convert_and_back_three :
    one / ofCount 3 * ofCount 3 ≤ one ∧
    (one.smallestUnit : ℚ) - (one / ofCount 3 * ofCount 3).smallestUnit
      < (ofCount 3).smallestUnit / kPrecision + 1 ∧
    one * ofCount 3 / ofCount 3 ≤ one ∧
    (one.smallestUnit : ℚ) - (one * ofCount 3 / ofCount 3).smallestUnit
      < kPrecision / (ofCount 3).smallestUnit + 1 ∧
    Monotone (fun a : PreciseNumber => a / ofCount 3) ∧
    Monotone (fun a : PreciseNumber => a * ofCount 3) :=
  convert_and_back one (ofCount 3) (by decide) (by decide)

end Harjus.PreciseNumber
