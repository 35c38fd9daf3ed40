import Harjus.Lib.FixedPoint
import Mathlib.Algebra.Order.Group.Defs
import Mathlib.Algebra.Group.InjSurj
import Mathlib.Algebra.Order.Field.Rat
import Mathlib.Tactic.FieldSimp

/-!
# `Harjus.PreciseNumber`: currency amounts

The class `PreciseNumber` (`include/PreciseNumber.h`, `src/PreciseNumber.cpp`) holds an
amount as an unbounded integer of smallest units, `kPrecision` units to the one. Division of
the underlying `mpz_int` truncates toward zero, so the operators are the fixed-point
operations of `Harjus.Lib.FixedPoint` at `kPrecision`.

The constructor from a string runs through a decimal float of a third party
(`Harjus.Multiprecision`). The literals the trading code builds, `PreciseNumber{"0"}`,
`PreciseNumber{"1"}`, `PreciseNumber{"-1"}` and `PreciseNumber{std::to_string(n)}`, are `0`, `one`,
`minusOne` and `ofCount n`.

Amounts add as a commutative group and are ordered by their units. `toRat` is the exact
value of an amount, to compare the truncating operators with exact arithmetic.
-/

set_option autoImplicit false

namespace Harjus

open Harjus.Lib

/-- `PreciseNumber`: an amount in its smallest unit. -/
@[ext]
structure PreciseNumber where
  smallestUnit : ℤ
  deriving DecidableEq, Repr

namespace PreciseNumber

/-- `kPrecision`: the number of smallest units in one. -/
def kPrecision : ℤ := 10000000000

/-- The scale is positive, so division by it is division. -/
theorem kPrecision_pos : 0 < kPrecision := by decide

/-- `PreciseNumber{}` and `PreciseNumber{"0"}`. -/
instance : Zero PreciseNumber := ⟨⟨0⟩⟩

instance : Inhabited PreciseNumber := ⟨0⟩

/-- `PreciseNumber{"1"}`. -/
def one : PreciseNumber := ⟨kPrecision⟩

/-- `PreciseNumber{"-1"}`. -/
def minusOne : PreciseNumber := ⟨-kPrecision⟩

/-- `PreciseNumber{std::to_string(n)}` for a size `n`. -/
def ofCount (n : ℕ) : PreciseNumber := ⟨n * kPrecision⟩

/-! ### Operators -/

/-- `operator+`. -/
instance : Add PreciseNumber := ⟨fun a b => ⟨a.smallestUnit + b.smallestUnit⟩⟩

/-- `operator+=`: the value left in `a`. -/
def addAssign (a b : PreciseNumber) : PreciseNumber :=
  { a with smallestUnit := a.smallestUnit + b.smallestUnit }

/-- `operator-`. -/
instance : Sub PreciseNumber := ⟨fun a b => ⟨a.smallestUnit - b.smallestUnit⟩⟩

/-- `operator-=`: the value left in `a`. -/
def subAssign (a b : PreciseNumber) : PreciseNumber :=
  { a with smallestUnit := a.smallestUnit - b.smallestUnit }

instance : Neg PreciseNumber := ⟨fun a => ⟨-a.smallestUnit⟩⟩

/-- `operator*`. -/
instance : Mul PreciseNumber :=
  ⟨fun a b => ⟨FixedPoint.mul kPrecision a.smallestUnit b.smallestUnit⟩⟩

/-- `operator*=`: the value left in `a`. -/
def mulAssign (a b : PreciseNumber) : PreciseNumber :=
  ⟨(a.smallestUnit * b.smallestUnit).tdiv kPrecision⟩

/-- `operator/`. A zero divisor gives `PreciseNumber{}`. -/
instance : Div PreciseNumber :=
  ⟨fun a b => ⟨FixedPoint.div kPrecision a.smallestUnit b.smallestUnit⟩⟩

/-- `operator/=`: the value left in `a`. A zero divisor leaves `a` as it is. -/
def divAssign (a b : PreciseNumber) : PreciseNumber :=
  if b.smallestUnit = 0 then a
  else ⟨(a.smallestUnit * kPrecision).tdiv b.smallestUnit⟩

/-- `PreciseNumber::fmod`. A zero divisor gives `PreciseNumber{}`. -/
def fmod (a b : PreciseNumber) : PreciseNumber :=
  if b.smallestUnit = 0 then 0 else ⟨a.smallestUnit.tmod b.smallestUnit⟩

/-! ### Comparisons -/

/-- A number is its count of smallest units. -/
theorem smallestUnit_injective : Function.Injective smallestUnit :=
  fun _ _ h => PreciseNumber.ext h

instance : LE PreciseNumber := ⟨fun a b => a.smallestUnit ≤ b.smallestUnit⟩

instance : LT PreciseNumber := ⟨fun a b => a.smallestUnit < b.smallestUnit⟩

instance : DecidableLE PreciseNumber :=
  fun a b => inferInstanceAs (Decidable (a.smallestUnit ≤ b.smallestUnit))

instance : DecidableLT PreciseNumber :=
  fun a b => inferInstanceAs (Decidable (a.smallestUnit < b.smallestUnit))

/-- `PreciseNumber::min`. -/
def min (a b : PreciseNumber) : PreciseNumber := if a < b then a else b

/-- Numbers compare as their smallest units do. -/
theorem le_def {a b : PreciseNumber} : a ≤ b ↔ a.smallestUnit ≤ b.smallestUnit := Iff.rfl

/-- Numbers compare strictly as their smallest units do. -/
theorem lt_def {a b : PreciseNumber} : a < b ↔ a.smallestUnit < b.smallestUnit := Iff.rfl

instance : PartialOrder PreciseNumber where
  le_refl a := le_refl a.smallestUnit
  le_trans _ _ _ h h' := Int.le_trans h h'
  le_antisymm _ _ h h' := PreciseNumber.ext (Int.le_antisymm h h')
  lt_iff_le_not_ge a b := lt_iff_le_not_ge (a := a.smallestUnit) (b := b.smallestUnit)

/-- Any two amounts compare. `PreciseNumber::min` is the minimum of the order. -/
instance : LinearOrder PreciseNumber where
  le_total a b := Int.le_total a.smallestUnit b.smallestUnit
  toDecidableLE := inferInstance
  toDecidableEq := inferInstance
  toDecidableLT := inferInstance
  min := PreciseNumber.min
  max a b := if a ≤ b then b else a
  min_def a b := by
    show (if a < b then a else b) = if a ≤ b then a else b
    split
    · rename_i h
      rw [if_pos h.le]
    · rename_i h
      split
      · rename_i hle
        exact (PreciseNumber.ext (Int.le_antisymm hle (Int.not_lt.mp h))).symm
      · rfl
  max_def _ _ := rfl

/-- The order is linear, as that of the integers. -/
theorem not_lt {a b : PreciseNumber} : ¬ a < b ↔ b ≤ a := Int.not_lt

/-- The order is linear, stated for `≤`. -/
theorem not_le {a b : PreciseNumber} : ¬ a ≤ b ↔ b < a := Int.not_le

/-! ### Units of the operators -/

/-- Zero has no units. -/
@[simp] theorem units_zero : (0 : PreciseNumber).smallestUnit = 0 := rfl

/-- One is the scale. -/
@[simp] theorem units_one : one.smallestUnit = kPrecision := rfl

/-- Minus one is the scale with a sign. -/
@[simp] theorem units_minusOne : minusOne.smallestUnit = -kPrecision := rfl

/-- A whole number is that many times the scale. -/
@[simp] theorem units_ofCount (n : ℕ) : (ofCount n).smallestUnit = n * kPrecision := rfl

/-- Sums are exact. -/
@[simp] theorem units_add (a b : PreciseNumber) :
    (a + b).smallestUnit = a.smallestUnit + b.smallestUnit := rfl

/-- Differences are exact. -/
@[simp] theorem units_sub (a b : PreciseNumber) :
    (a - b).smallestUnit = a.smallestUnit - b.smallestUnit := rfl

/-- A sign changes the units only. -/
@[simp] theorem units_neg (a : PreciseNumber) : (-a).smallestUnit = -a.smallestUnit := rfl

/-- A product is that of the fixed point numbers, cut at the last digit. -/
@[simp] theorem units_mul (a b : PreciseNumber) :
    (a * b).smallestUnit = FixedPoint.mul kPrecision a.smallestUnit b.smallestUnit := rfl

/-- A quotient is that of the fixed point numbers, cut at the last digit. -/
@[simp] theorem units_div (a b : PreciseNumber) :
    (a / b).smallestUnit = FixedPoint.div kPrecision a.smallestUnit b.smallestUnit := rfl

instance : SMul ℕ PreciseNumber := ⟨fun n a => ⟨n * a.smallestUnit⟩⟩

instance : SMul ℤ PreciseNumber := ⟨fun n a => ⟨n * a.smallestUnit⟩⟩

/-- Amounts add as their units do. -/
instance : AddCommGroup PreciseNumber :=
  smallestUnit_injective.addCommGroup smallestUnit units_zero units_add units_neg units_sub
    (fun a n => show (n : ℤ) * a.smallestUnit = n • a.smallestUnit by simp)
    (fun a n => show n * a.smallestUnit = n • a.smallestUnit by simp)

instance : IsOrderedAddMonoid PreciseNumber where
  add_le_add_left a b h c := by
    rw [le_def] at h
    simp only [le_def, units_add]
    omega

/-! ### Laws of the operators -/

/-- `operator*=` leaves what `operator*` returns. -/
theorem mulAssign_eq_mul (a b : PreciseNumber) : a.mulAssign b = a * b := rfl

/-- The two forms of division agree when the divisor is not zero. -/
theorem divAssign_eq_div (a : PreciseNumber) {b : PreciseNumber} (hb : b ≠ 0) :
    a.divAssign b = a / b := by
  have hb' : b.smallestUnit ≠ 0 := fun h => hb (PreciseNumber.ext h)
  refine PreciseNumber.ext ?_
  rw [divAssign, if_neg hb', units_div, FixedPoint.div, if_neg hb']

/-- Nothing times a price is nothing. -/
@[simp] theorem zero_mul (a : PreciseNumber) : 0 * a = 0 := PreciseNumber.ext (by simp)

/-- Any amount at no price costs nothing. -/
@[simp] theorem mul_zero (a : PreciseNumber) : a * 0 = 0 := PreciseNumber.ext (by simp)

/-- Nothing buys nothing. -/
@[simp] theorem zero_div (a : PreciseNumber) : 0 / a = 0 := PreciseNumber.ext (by simp)

/-- `operator/` by zero is zero. -/
@[simp] theorem div_zero (a : PreciseNumber) : a / 0 = 0 := PreciseNumber.ext (by simp)

/-- A price of one changes nothing: no digit is cut off. -/
@[simp] theorem mul_one (a : PreciseNumber) : a * one = a := by
  refine PreciseNumber.ext ?_
  have h := FixedPoint.mul_whole kPrecision_pos.ne' a.smallestUnit 1
  rwa [Int.one_mul, Int.mul_one] at h

/-- Multiplying by `PreciseNumber{"-1"}` negates exactly. -/
theorem mul_minusOne (a : PreciseNumber) : a * minusOne = -a := by
  refine PreciseNumber.ext ?_
  have h := FixedPoint.mul_whole kPrecision_pos.ne' a.smallestUnit (-1)
  rw [neg_one_mul] at h
  rw [units_mul, units_minusOne, units_neg, h, mul_neg_one]

/-- A product of amounts is an amount. -/
theorem mul_nonneg {a b : PreciseNumber} (ha : 0 ≤ a) (hb : 0 ≤ b) : 0 ≤ a * b :=
  FixedPoint.mul_nonneg kPrecision_pos.le ha hb

/-- A quotient of amounts is an amount. -/
theorem div_nonneg {a b : PreciseNumber} (ha : 0 ≤ a) (hb : 0 ≤ b) : 0 ≤ a / b :=
  FixedPoint.div_nonneg kPrecision_pos.le ha hb

/-- More at the same price costs at least as much. -/
theorem mul_le_mul_right {p : PreciseNumber} (hp : 0 ≤ p) :
    Monotone fun a : PreciseNumber => a * p :=
  fun _ _ h => FixedPoint.mul_le_mul_right kPrecision_pos hp h

/-- A greater budget buys at least as much at the same price. -/
theorem div_le_div_right {p : PreciseNumber} (hp : 0 ≤ p) :
    Monotone fun a : PreciseNumber => a / p :=
  fun _ _ h => FixedPoint.div_le_div_right kPrecision_pos hp h

/-- Dividing by a price and multiplying back gives at most the start. -/
theorem div_mul_le {a : PreciseNumber} (ha : 0 ≤ a) (p : PreciseNumber) : a / p * p ≤ a :=
  FixedPoint.mul_div_le kPrecision_pos ha p.smallestUnit

/-- Multiplying by a price and dividing back gives at most the start. -/
theorem mul_div_le {a p : PreciseNumber} (ha : 0 ≤ a) (hp : 0 ≤ p) : a * p / p ≤ a :=
  FixedPoint.div_mul_le kPrecision_pos ha hp

/-- A positive product with a non-negative left factor has two positive factors. -/
theorem pos_of_mul_pos_left {a b : PreciseNumber} (ha : 0 ≤ a) (h : 0 < a * b) : 0 < a :=
  FixedPoint.pos_of_mul_pos_left ha h

/-- A positive product with an amount has a positive other factor. -/
theorem pos_of_mul_pos_right {a b : PreciseNumber} (ha : 0 ≤ a) (h : 0 < a * b) : 0 < b :=
  FixedPoint.pos_of_mul_pos_right kPrecision_pos ha h

/-- `min` is at most its first argument. -/
theorem min_le_left (a b : PreciseNumber) : min a b ≤ a := by
  unfold min
  split
  · exact le_rfl
  · rename_i h
    rw [lt_def] at h
    rw [le_def]
    omega

/-- `min` is at most its second argument. -/
theorem min_le_right (a b : PreciseNumber) : min a b ≤ b := by
  unfold min
  split
  · rename_i h
    exact h.le
  · exact le_rfl

/-- What is below both arguments is below `min`. -/
theorem le_min {a b c : PreciseNumber} (hb : a ≤ b) (hc : a ≤ c) : a ≤ min b c := by
  unfold min
  split
  · exact hb
  · exact hc

/-- The rest of an amount is an amount, also for a zero divisor. -/
theorem fmod_nonneg {a : PreciseNumber} (ha : 0 ≤ a) (b : PreciseNumber) : 0 ≤ fmod a b := by
  unfold fmod
  split
  · exact le_rfl
  · exact Int.tmod_nonneg _ ha

/-- The remainder of a non-negative amount is at most the amount, so the multiple below it
is not negative. -/
theorem fmod_le {a : PreciseNumber} (ha : 0 ≤ a) (b : PreciseNumber) : fmod a b ≤ a := by
  unfold fmod
  split
  · exact ha
  · show a.smallestUnit.tmod b.smallestUnit ≤ a.smallestUnit
    rw [le_def, units_zero] at ha
    obtain ⟨m, hm⟩ := Int.eq_ofNat_of_zero_le ha
    rw [hm]
    cases b.smallestUnit with
    | ofNat n => exact Int.ofNat_le.mpr (Nat.mod_le m n)
    | negSucc n => exact Int.ofNat_le.mpr (Nat.mod_le m (n + 1))

/-! ### The exact value -/

/-- The exact value of an amount, `kPrecision` units to the one. -/
def toRat (a : PreciseNumber) : ℚ := a.smallestUnit / kPrecision

/-- The scale as a rational is positive. -/
private theorem kPrecision_rat_pos : (0 : ℚ) < kPrecision :=
  Int.cast_pos.mpr kPrecision_pos

/-- Values compare strictly as the numbers do. -/
theorem toRat_lt_toRat {a b : PreciseNumber} : a.toRat < b.toRat ↔ a < b := by
  rw [toRat, toRat, div_lt_div_iff_of_pos_right kPrecision_rat_pos, Int.cast_lt, lt_def]

/-- Values compare as the numbers do. -/
theorem toRat_le_toRat {a b : PreciseNumber} : a.toRat ≤ b.toRat ↔ a ≤ b := by
  rw [toRat, toRat, div_le_div_iff_of_pos_right kPrecision_rat_pos, Int.cast_le, le_def]

/-- The value of one is one. -/
@[simp] theorem toRat_one : one.toRat = 1 := div_self kPrecision_rat_pos.ne'

/-- An amount has a non-negative value. -/
theorem toRat_nonneg {a : PreciseNumber} (h : 0 ≤ a) : 0 ≤ a.toRat := by
  have hunits : (0 : ℚ) ≤ a.smallestUnit := Int.cast_nonneg h
  have hk := kPrecision_rat_pos
  unfold toRat
  positivity

/-- The value of a difference is exact. -/
@[simp] theorem toRat_sub (a b : PreciseNumber) : (a - b).toRat = a.toRat - b.toRat := by
  simp only [toRat, units_sub, Int.cast_sub, sub_div]

/-- A product with a count is exact. -/
theorem toRat_mul_ofCount (a : PreciseNumber) (n : ℕ) :
    (a * ofCount n).toRat = a.toRat * n := by
  rw [toRat, toRat, units_mul, units_ofCount, FixedPoint.mul_whole kPrecision_pos.ne']
  push_cast
  exact mul_div_right_comm _ _ _

/-- A product of the right sign is at most the exact one. -/
theorem toRat_mul_le {a b : PreciseNumber} (h : 0 ≤ a.smallestUnit * b.smallestUnit) :
    (a * b).toRat ≤ a.toRat * b.toRat := by
  have hle := FixedPoint.mul_mul_le kPrecision_pos h
  have hcast : ((a * b).smallestUnit : ℚ) * kPrecision
      ≤ (a.smallestUnit : ℚ) * b.smallestUnit := by exact_mod_cast hle
  rw [toRat, toRat, toRat, div_mul_div_comm,
    div_le_div_iff₀ kPrecision_rat_pos (mul_pos kPrecision_rat_pos kPrecision_rat_pos)]
  nlinarith [kPrecision_rat_pos]

/-- An exact cost against a budget, in units. -/
theorem toRat_mul_le_toRat {q p b : PreciseNumber} :
    q.toRat * p.toRat ≤ b.toRat
      ↔ q.smallestUnit * p.smallestUnit ≤ b.smallestUnit * kPrecision := by
  rw [toRat, toRat, toRat, div_mul_div_comm,
    div_le_div_iff₀ (mul_pos kPrecision_rat_pos kPrecision_rat_pos) kPrecision_rat_pos,
    ← mul_assoc, mul_le_mul_iff_left₀ kPrecision_rat_pos]
  exact_mod_cast Iff.rfl

end PreciseNumber

end Harjus
