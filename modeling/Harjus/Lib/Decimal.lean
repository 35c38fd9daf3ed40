import Mathlib.Data.List.DropRight
import Mathlib.Algebra.Order.Field.Rat
import Mathlib.Algebra.Order.Ring.Abs
import Mathlib.Tactic.FieldSimp
import Mathlib.Tactic.Ring

/-!
# `Harjus.Lib.Decimal`: decimal literals and what they denote

`literalValue` is the value of a decimal literal: an optional sign, digits with an optional
point, and an optional exponent. `decimalText` writes a sign, digits and the digits after the
point, and `decimalValue` is the value of such a text.

* `literalValue_decimalText`: a text denotes the value of its digits.
* `decimalValue_rdropWhile`: zeros at the end of the fraction do not count.
* `intText` and `fixedText` write an integer, and an integer divided by a power of ten.
* `CanonicalDecimal`: a text without an exponent, and without a zero or a point too many.
* `canonicalDecimal_rdropWhile`: a text with a fixed number of fraction digits, without the zeros at
  its end and without a point that they leave bare, is canonical.

The module names no program.
-/

set_option autoImplicit false

namespace Harjus.Lib

/-! ### Literals -/

/-- The sign of a literal, `true` for a minus, and the rest. -/
def literalSign : List Char → Bool × List Char
  | '-' :: s => (true, s)
  | '+' :: s => (false, s)
  | s => (false, s)

/-- The digits after a point, and the rest. -/
def literalFraction : List Char → List Char × List Char
  | '.' :: s => (s.takeWhile Char.isDigit, s.dropWhile Char.isDigit)
  | s => ([], s)

/-- The exponent at the end of a literal. -/
def literalExponent : List Char → Option ℤ
  | [] => some 0
  | c :: s =>
    let (negative, digits) := literalSign s
    if (c = 'e' ∨ c = 'E') ∧ digits ≠ [] ∧ digits.all Char.isDigit then
      some ((if negative then -1 else 1) * (Nat.ofDigitChars 10 digits 0 : ℤ))
    else none

/-- The value of a sign, digits, and digits after the point. -/
def decimalValue (negative : Bool) (whole fraction : List Char) : ℚ :=
  (if negative then -1 else 1) * (Nat.ofDigitChars 10 (whole ++ fraction) 0 : ℚ)
    / 10 ^ fraction.length

/-- The value of a decimal literal. -/
def literalValue (s : List Char) : Option ℚ :=
  let (negative, s) := literalSign s
  let whole := s.takeWhile Char.isDigit
  let (fraction, s) := literalFraction (s.dropWhile Char.isDigit)
  if whole ++ fraction = [] then none
  else (literalExponent s).map fun exponent => decimalValue negative whole fraction * 10 ^ exponent

example : literalValue "-12.50".toList = some (-25 / 2) := by decide +kernel

example : literalValue "1.5e-3".toList = some (3 / 2000) := by decide +kernel

example : literalValue "1e".toList = none := by decide +kernel

/-! ### Texts -/

/-- The digits after the point, with the point if there are any. -/
def fractionText (fraction : List Char) : List Char :=
  if fraction = [] then [] else '.' :: fraction

/-- A sign, digits, and digits after the point. -/
def decimalText (negative : Bool) (whole fraction : List Char) : List Char :=
  (if negative then ['-'] else []) ++ whole ++ fractionText fraction

/-- A minus is the only sign that is written. -/
theorem literalSign_decimalText (negative : Bool) {whole : List Char} (fraction : List Char)
    (hne : whole ≠ []) (hwhole : ∀ c ∈ whole, c.isDigit) :
    literalSign (decimalText negative whole fraction)
      = (negative, whole ++ fractionText fraction) := by
  cases negative with
  | true => rfl
  | false =>
    cases whole with
    | nil => exact absurd rfl hne
    | cons c whole =>
      have hdigit := hwhole c List.mem_cons_self
      show literalSign (c :: (whole ++ fractionText fraction)) = _
      unfold literalSign
      split
      · rename_i heq
        cases heq
        exact absurd hdigit (by decide)
      · rename_i heq
        cases heq
        exact absurd hdigit (by decide)
      · rfl

/-- A fraction that is written is read to its end. -/
theorem literalFraction_fractionText {fraction : List Char}
    (hfraction : ∀ c ∈ fraction, c.isDigit) :
    literalFraction (fractionText fraction) = (fraction, []) := by
  rw [fractionText]
  split
  · rename_i hnil
    rw [hnil]
    rfl
  · show (fraction.takeWhile Char.isDigit, fraction.dropWhile Char.isDigit) = _
    rw [List.takeWhile_eq_self_iff.mpr hfraction, List.dropWhile_eq_nil_iff.mpr hfraction]

/-- A text denotes the value of its digits. -/
theorem literalValue_decimalText (negative : Bool) {whole fraction : List Char}
    (hne : whole ≠ []) (hwhole : ∀ c ∈ whole, c.isDigit)
    (hfraction : ∀ c ∈ fraction, c.isDigit) :
    literalValue (decimalText negative whole fraction)
      = some (decimalValue negative whole fraction) := by
  have hrest : (fractionText fraction).takeWhile Char.isDigit = [] ∧
      (fractionText fraction).dropWhile Char.isDigit = fractionText fraction := by
    rw [fractionText]
    split
    · exact ⟨rfl, rfl⟩
    · exact ⟨rfl, rfl⟩
  rw [literalValue, literalSign_decimalText negative fraction hne hwhole]
  simp only [List.takeWhile_append_of_pos hwhole, List.dropWhile_append_of_pos hwhole, hrest.1,
    hrest.2, List.append_nil, literalFraction_fractionText hfraction]
  rw [if_neg (by simp [hne])]
  show some (decimalValue negative whole fraction * 10 ^ (0 : ℤ)) = _
  rw [zpow_zero, mul_one]

/-! ### Zeros at the end of the fraction -/

/-- Zeros at the end of the fraction do not count. -/
theorem decimalValue_rdropWhile (negative : Bool) (whole fraction : List Char) :
    decimalValue negative whole (fraction.rdropWhile (· = '0'))
      = decimalValue negative whole fraction := by
  obtain ⟨m, hzeros⟩ : ∃ m, fraction.rtakeWhile (· = '0') = List.replicate m '0' :=
    ⟨_, List.eq_replicate_of_mem fun c hc => by simpa using List.mem_rtakeWhile_imp hc⟩
  have hfraction : fraction.rdropWhile (· = '0') ++ List.replicate m '0' = fraction := by
    rw [← hzeros, List.rdropWhile_append_rtakeWhile]
  generalize fraction.rdropWhile (· = '0') = rest at hfraction
  have hdigits : Nat.ofDigitChars 10 (whole ++ fraction) 0
      = 10 ^ m * Nat.ofDigitChars 10 (whole ++ rest) 0 := by
    rw [← hfraction, ← List.append_assoc, Nat.ofDigitChars_append (l := whole ++ rest),
      Nat.ofDigitChars_replicate_zero]
  have hlength : fraction.length = rest.length + m := by
    rw [← hfraction, List.length_append, List.length_replicate]
  rw [decimalValue, decimalValue, hdigits, hlength]
  push_cast
  field_simp
  ring

/-- No zero is left at the end. -/
theorem getLast?_rdropWhile_ne (fraction : List Char) :
    (fraction.rdropWhile (· = '0')).getLast? ≠ some '0' := by
  intro h
  have hne : fraction.rdropWhile (· = '0') ≠ [] := by
    intro hnil
    rw [hnil] at h
    cases h
  rw [List.getLast?_eq_some_getLast hne, Option.some.injEq] at h
  have hlast := List.rdropWhile_last_not (· = '0') fraction hne
  rw [h] at hlast
  exact hlast (by decide)

/-- The zeros at the end of a text are those of the fraction, because of the point. -/
theorem rdropWhile_append_point (before fraction : List Char) :
    (before ++ '.' :: fraction).rdropWhile (· = '0')
      = before ++ '.' :: fraction.rdropWhile (· = '0') := by
  induction fraction using List.reverseRecOn with
  | nil =>
    rw [List.rdropWhile_concat_neg _ _ _ (by decide), List.rdropWhile_nil]
  | append_singleton fraction c ih =>
    rw [← List.cons_append, ← List.append_assoc]
    by_cases hc : c = '0'
    · rw [List.rdropWhile_concat_pos _ _ _ (by simpa using hc), ih,
        List.rdropWhile_concat_pos _ _ _ (by simpa using hc)]
    · rw [List.rdropWhile_concat_neg _ _ _ (by simpa using hc),
        List.rdropWhile_concat_neg _ _ _ (by simpa using hc)]
      simp

/-! ### Integers -/

/-- The digits of a natural number. -/
theorem isDigit_of_mem_toDigits {n : ℕ} : ∀ c ∈ Nat.toDigits 10 n, c.isDigit := fun _ h =>
  Nat.isDigit_of_mem_toDigits (by decide) (by decide) h

/-- Only zero starts with a zero. -/
theorem toDigits_eq_of_head {n : ℕ} (h : (Nat.toDigits 10 n).head? = some '0') :
    Nat.toDigits 10 n = ['0'] := by
  induction n using Nat.strongRecOn with
  | ind n ih =>
    rcases Nat.lt_or_ge n 10 with hn | hn
    · rw [Nat.toDigits_of_lt_base hn] at h ⊢
      rw [Option.some.inj h]
    · exfalso
      rw [Nat.toDigits_of_base_le (by decide) hn,
        List.head?_append_of_ne_nil _ Nat.toDigits_ne_nil] at h
      have hdigits := ih (n / 10) (by omega) h
      have hzero : n / 10 = 0 := by
        rw [← Nat.ofDigitChars_ten_toDigits (n := n / 10), hdigits]
        rfl
      omega

/-- An integer in its digits. -/
def intText (n : ℤ) : List Char := decimalText (n < 0) (Nat.toDigits 10 n.natAbs) []

/-- An integer divided by `10 ^ k`, with `k` digits after the point. -/
def fixedText (k : ℕ) (n : ℤ) : List Char :=
  decimalText (n < 0) (Nat.toDigits 10 (n.natAbs / 10 ^ k))
    ((Nat.toDigits 10 (n.natAbs % 10 ^ k)).leftpad k '0')

/-- The sign and the magnitude of an integer. -/
private theorem sign_mul_natAbs (n : ℤ) :
    (if decide (n < 0) then -1 else 1) * (n.natAbs : ℚ) = n := by
  rw [Nat.cast_natAbs]
  by_cases hn : n < 0
  · rw [if_pos (by simpa using hn), abs_of_neg hn]
    push_cast
    ring
  · rw [if_neg (by simpa using hn), abs_of_nonneg (not_lt.mp hn), one_mul]

/-- The text of an integer denotes it. -/
theorem literalValue_intText (n : ℤ) : literalValue (intText n) = some (n : ℚ) := by
  rw [intText, literalValue_decimalText _ Nat.toDigits_ne_nil isDigit_of_mem_toDigits
    (fun c h => absurd h List.not_mem_nil), decimalValue, List.append_nil,
    Nat.ofDigitChars_ten_toDigits, sign_mul_natAbs, List.length_nil, pow_zero, div_one]

/-- The padded digits of a number below `10 ^ k`. -/
theorem length_leftpad_toDigits {k r : ℕ} (hk : 0 < k) (hr : r < 10 ^ k) :
    ((Nat.toDigits 10 r).leftpad k '0').length = k := by
  have hlength : (Nat.toDigits 10 r).length ≤ k :=
    (Nat.length_toDigits_le_iff (by decide) hk).mpr hr
  rw [List.length_leftpad]
  omega

/-- Padded digits are digits. -/
theorem isDigit_of_mem_leftpad {k r : ℕ} :
    ∀ c ∈ (Nat.toDigits 10 r).leftpad k '0', c.isDigit := by
  intro c hc
  rcases List.mem_append.mp hc with hc | hc
  · rw [(List.mem_replicate.mp hc).2]
    rfl
  · exact isDigit_of_mem_toDigits c hc

/-- A number in two parts, `k` digits in the second one. -/
theorem ofDigitChars_fixed {k : ℕ} (hk : 0 < k) (m : ℕ) :
    Nat.ofDigitChars 10 (Nat.toDigits 10 (m / 10 ^ k)
      ++ (Nat.toDigits 10 (m % 10 ^ k)).leftpad k '0') 0 = m := by
  have hlength := length_leftpad_toDigits hk (Nat.mod_lt m (Nat.pow_pos (by decide)))
  rw [Nat.ofDigitChars_append, Nat.ofDigitChars_ten_toDigits,
    Nat.ofDigitChars_eq_ofDigitChars_zero, hlength]
  show _ + Nat.ofDigitChars 10 (List.replicate _ '0' ++ Nat.toDigits 10 (m % 10 ^ k)) 0 = m
  rw [Nat.ofDigitChars_append, Nat.ofDigitChars_replicate_zero, Nat.mul_zero,
    Nat.ofDigitChars_ten_toDigits]
  exact Nat.div_add_mod m (10 ^ k)

/-- The text of a fixed point number denotes it. -/
theorem literalValue_fixedText {k : ℕ} (hk : 0 < k) (n : ℤ) :
    literalValue (fixedText k n) = some ((n : ℚ) / 10 ^ k) := by
  have hlength := length_leftpad_toDigits hk (Nat.mod_lt n.natAbs (Nat.pow_pos (by decide)))
  rw [fixedText, literalValue_decimalText _ Nat.toDigits_ne_nil isDigit_of_mem_toDigits
    isDigit_of_mem_leftpad, decimalValue, ofDigitChars_fixed hk, sign_mul_natAbs, hlength]

/-! ### Canonical texts -/

/-- A text without an exponent, with no zero too many before the point and at most `k` digits
after it, no zero at the end of those, no bare point, and no minus before a zero. -/
def CanonicalDecimal (k : ℕ) (text : List Char) : Prop :=
  ∃ (negative : Bool) (whole fraction : List Char),
    text = decimalText negative whole fraction ∧
    whole ≠ [] ∧ (∀ c ∈ whole, c.isDigit) ∧ (whole.head? = some '0' → whole = ['0']) ∧
    (∀ c ∈ fraction, c.isDigit) ∧ fraction.length ≤ k ∧ fraction.getLast? ≠ some '0' ∧
    (negative = true → whole = ['0'] → fraction ≠ [])

/-- A text with a fixed number of digits after the point, without the zeros at its end. -/
theorem canonicalDecimal_rdropWhile {k : ℕ} (hk : 0 < k) (n : ℤ) :
    CanonicalDecimal k (decimalText (n < 0) (Nat.toDigits 10 (n.natAbs / 10 ^ k))
      (((Nat.toDigits 10 (n.natAbs % 10 ^ k)).leftpad k '0').rdropWhile (· = '0'))) := by
  have hlength := length_leftpad_toDigits hk (Nat.mod_lt n.natAbs (Nat.pow_pos (by decide)))
  have hkept := List.rdropWhile_prefix (· = '0')
    ((Nat.toDigits 10 (n.natAbs % 10 ^ k)).leftpad k '0')
  refine ⟨_, _, _, rfl, Nat.toDigits_ne_nil, isDigit_of_mem_toDigits, toDigits_eq_of_head,
    fun c hc => isDigit_of_mem_leftpad c (hkept.mem hc), hkept.length_le.trans_eq hlength,
    getLast?_rdropWhile_ne _, ?_⟩
  intro hneg hwhole hnil
  have hzeros : Nat.toDigits 10 (n.natAbs / 10 ^ k)
      ++ (Nat.toDigits 10 (n.natAbs % 10 ^ k)).leftpad k '0' = List.replicate (1 + k) '0' := by
    rw [hwhole, List.replicate_add]
    congr 1
    refine List.eq_replicate_iff.mpr ⟨hlength, fun c hc => ?_⟩
    simpa using List.rdropWhile_eq_nil_iff.mp hnil c hc
  have hvalue := ofDigitChars_fixed hk n.natAbs
  rw [hzeros, Nat.ofDigitChars_replicate_zero, Nat.mul_zero] at hvalue
  have hlt : n < 0 := of_decide_eq_true hneg
  omega

end Harjus.Lib
