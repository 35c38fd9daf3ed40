import Harjus.Multiprecision

/-!
# `Harjus.Proofs.Multiprecision`: amounts come back from their texts

* `stripTrailingZeros_decimalText`: `toString` strips the zeros of the fraction and no others.
* `ofString_eq` and `toString_eq`: the two conversions on what `boost::multiprecision` does not
  round.
* `decimal_roundtrip`: the text of an amount is canonical, denotes the amount and is read back as
  it, and every literal of such an amount is read exactly.
-/

set_option autoImplicit false

namespace Harjus.PreciseNumber

open Harjus.Lib

variable {F : Type} {boost : Multiprecision F} {value : F → ℚ}

/-- The scale has ten digits. -/
theorem kPrecision_eq : (kPrecision : ℚ) = 10 ^ 10 := by norm_num [kPrecision]

/-- The zeros at the end of the fraction go, and the point with them if nothing is left. -/
theorem stripTrailingZeros_decimalText (negative : Bool) (whole : List Char)
    {fraction : List Char} (hne : fraction ≠ []) (hfraction : ∀ c ∈ fraction, c.isDigit) :
    stripTrailingZeros (decimalText negative whole fraction)
      = decimalText negative whole (fraction.rdropWhile (· = '0')) := by
  have hpoint : decimalText negative whole fraction
      = ((if negative then ['-'] else []) ++ whole) ++ '.' :: fraction := by
    rw [decimalText, fractionText, if_neg hne]
  rw [stripTrailingZeros, hpoint, rdropWhile_append_point, decimalText, fractionText]
  generalize (if negative then ['-'] else []) ++ whole = before
  by_cases hnil : fraction.rdropWhile (· = '0') = []
  · rw [if_pos hnil, hnil, List.append_nil]
    simp
  · rw [if_neg hnil, if_neg]
    rintro ⟨-, hlast⟩
    -- The last character is a digit of the fraction, and so no point.
    rw [List.getLast?_append_of_ne_nil _ (List.cons_ne_nil _ _), List.getLast?_cons_of_ne_nil hnil,
      List.getLast?_eq_some_getLast hnil, Option.some.injEq] at hlast
    have hkept := List.rdropWhile_prefix (· = '0') fraction
    have hdigit := hfraction _ (hkept.mem (List.getLast_mem hnil))
    rw [hlast] at hdigit
    exact absurd hdigit (by decide)

/-- The constructor holds the units of a literal. -/
theorem ofString_eq (hboost : boost.Documented value) {amount : List Char} {q : ℚ}
    (hliteral : literalValue amount = some q) {n : ℤ} (hn : |n| < 10 ^ 50)
    (hunits : q * kPrecision = n) : ofString boost amount = some ⟨n⟩ := by
  obtain ⟨x, hdecimal, hx⟩ := hboost.decFloat amount q hliteral n hn (Or.inr hunits)
  have hmul := hboost.mul x n hn (by rwa [hx])
  rw [ofString, hdecimal]
  show (boost.mpzInt (boost.str (boost.mul x kPrecision))).bind _ = _
  rw [hboost.str _ n hn hmul, hboost.mpzInt]
  rfl

/-- `toString` writes the units with ten digits after the point, and strips zeros. -/
theorem toString_eq (hboost : boost.Documented value) {a : PreciseNumber}
    (ha : |a.smallestUnit| < 10 ^ 50) :
    a.toString boost = some (stripTrailingZeros (fixedText 10 a.smallestUnit)) := by
  obtain ⟨x, hdecimal, hx⟩ := hboost.decFloat (intText a.smallestUnit) a.smallestUnit
    (literalValue_intText _) a.smallestUnit ha (Or.inl rfl)
  have hdiv := hboost.div x a.smallestUnit ha hx
  rw [toString, hboost.mpzStr, hdecimal]
  show some (stripTrailingZeros (boost.fixed 10 (boost.div x kPrecision))) = _
  rw [hboost.fixed _ a.smallestUnit ha hdiv]

/-- The text of `toString`. -/
theorem stripTrailingZeros_fixedText (n : ℤ) :
    stripTrailingZeros (fixedText 10 n)
      = decimalText (n < 0) (Nat.toDigits 10 (n.natAbs / 10 ^ 10))
          (((Nat.toDigits 10 (n.natAbs % 10 ^ 10)).leftpad 10 '0').rdropWhile (· = '0')) := by
  have hlength : ((Nat.toDigits 10 (n.natAbs % 10 ^ 10)).leftpad 10 '0').length = 10 :=
    length_leftpad_toDigits (by decide) (Nat.mod_lt _ (by decide))
  refine stripTrailingZeros_decimalText _ _ ?_ isDigit_of_mem_leftpad
  intro hnil
  rw [hnil] at hlength
  cases hlength

/-- The text of `toString` denotes the amount. -/
theorem literalValue_stripTrailingZeros (a : PreciseNumber) :
    literalValue (stripTrailingZeros (fixedText 10 a.smallestUnit)) = some a.toRat := by
  have hfixed := literalValue_fixedText (k := 10) (by decide) a.smallestUnit
  have hkept := List.rdropWhile_prefix (· = '0')
    ((Nat.toDigits 10 (a.smallestUnit.natAbs % 10 ^ 10)).leftpad 10 '0')
  rw [fixedText, literalValue_decimalText _ Nat.toDigits_ne_nil isDigit_of_mem_toDigits
    isDigit_of_mem_leftpad] at hfixed
  rw [stripTrailingZeros_fixedText, literalValue_decimalText _ Nat.toDigits_ne_nil
    isDigit_of_mem_toDigits fun c hc => isDigit_of_mem_leftpad c (hkept.mem hc),
    decimalValue_rdropWhile, hfixed, toRat, kPrecision_eq]

/-- An amount of at most 50 digits comes back from its text, which is canonical and denotes it, and
a literal of a multiple of `10 ^ -10` below `10 ^ 40` is read exactly. -/
theorem decimal_roundtrip (hboost : boost.Documented value) :
    (∀ x : PreciseNumber, |x.smallestUnit| < 10 ^ 50 →
      ∃ text, x.toString boost = some text ∧ CanonicalDecimal 10 text ∧
        literalValue text = some x.toRat ∧ ofString boost text = some x) ∧
    (∀ s q, literalValue s = some q → |q| < 10 ^ 40 → ∀ n : ℤ, q * 10 ^ 10 = n →
      ofString boost s = some ⟨n⟩) := by
  constructor
  · intro x hx
    refine ⟨_, toString_eq hboost hx, ?_, literalValue_stripTrailingZeros x, ?_⟩
    · rw [stripTrailingZeros_fixedText]
      exact canonicalDecimal_rdropWhile (by decide) x.smallestUnit
    · refine ofString_eq hboost (literalValue_stripTrailingZeros x) hx ?_
      rw [toRat, kPrecision_eq]
      exact div_mul_cancel₀ _ (by norm_num)
  · intro s q hliteral hq n hn
    refine ofString_eq hboost hliteral ?_ (by rw [kPrecision_eq, hn])
    have habs : ((|n| : ℤ) : ℚ) < 10 ^ 50 := by
      rw [Int.cast_abs, ← hn, abs_mul, abs_of_pos (by norm_num : (0 : ℚ) < 10 ^ 10)]
      calc |q| * 10 ^ 10 < 10 ^ 40 * 10 ^ 10 := by gcongr
        _ = 10 ^ 50 := by norm_num
    exact_mod_cast habs

/-! ### Exact numbers -/

/-- Rational numbers as decimal floats that round nothing. -/
def exactBoost : Multiprecision ℚ where
  decFloat := literalValue
  mul x k := x * k
  div x k := x / k
  str x := intText x.num
  fixed k x := fixedText k (x * 10 ^ k).num
  mpzInt text := (literalValue text).map Rat.num
  mpzStr := intText

/-- Exact numbers do what is documented of `boost`. -/
theorem documented_exactBoost : exactBoost.Documented id where
  decFloat text q hliteral n hn hunits := ⟨q, hliteral, rfl⟩
  mul x n hn h := h
  div x n hn h := by
    show x / kPrecision * kPrecision = n
    rw [kPrecision_eq, div_mul_cancel₀ _ (by norm_num)]
    exact h
  str x n hn h := by
    show intText x.num = intText n
    rw [show x = n from h, Rat.num_intCast]
  fixed x n hn h := by
    show fixedText 10 (x * 10 ^ 10).num = fixedText 10 n
    rw [← kPrecision_eq, show x * kPrecision = n from h, Rat.num_intCast]
  mpzInt n := by
    show (literalValue (intText n)).map Rat.num = some n
    rw [literalValue_intText, Option.map_some, Rat.num_intCast]
  mpzStr n := rfl

/-- `-0.125`, and a literal with an exponent. -/
theorem decimal_roundtrip_exactBoost :
    (∃ text, (⟨-1250000000⟩ : PreciseNumber).toString exactBoost = some text ∧
      CanonicalDecimal 10 text ∧
      literalValue text = some (⟨-1250000000⟩ : PreciseNumber).toRat ∧
      ofString exactBoost text = some ⟨-1250000000⟩) ∧
    ofString exactBoost "1.5e-3".toList = some ⟨15000000⟩ :=
  ⟨(decimal_roundtrip documented_exactBoost).1 _ (by decide),
    (decimal_roundtrip documented_exactBoost).2 _ (3 / 2000) (by decide +kernel) (by norm_num)
      15000000 (by norm_num)⟩

end Harjus.PreciseNumber
