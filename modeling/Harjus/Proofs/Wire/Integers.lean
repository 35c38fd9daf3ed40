import Harjus.FieldMap
import Harjus.Lib.Decimal

/-!
# `Harjus.Proofs.Wire.Integers`: the integers in a message

`integer_to_string` writes two digits at a time from a table, and `number_of_symbols_in` counts four
at a time.

* `integerToString_natCast`: what is written is the decimal digits of the number.
* `length_integerToString`: the count is their number, so `encodeTo` fills its buffer.
* `convert_integerToString`, `convert_checkSumText`: `IntConvertor` reads the number again.
-/

set_option autoImplicit false

namespace Harjus.Wire

open Harjus.FIX (SOH)
open Harjus.FIX.IntConvertor (convert convertDigits VALUE_MAX OVERFLOW_MAX)

/-! ### Writing -/

/-- The elements of a list of pairs. -/
theorem getD_pairs (f g : ℕ → Char) (count : ℕ) :
    ∀ start n : ℕ, n < count →
      ((List.range' start count).flatMap fun m => [f m, g m]).getD (2 * n) '0' = f (start + n) ∧
        ((List.range' start count).flatMap fun m => [f m, g m]).getD (2 * n + 1) '0'
          = g (start + n) := by
  induction count with
  | zero =>
    intro start n h
    omega
  | succ count ih =>
    intro start n h
    rw [List.range'_succ, List.flatMap_cons]
    cases n with
    | zero => exact ⟨rfl, rfl⟩
    | succ n =>
      have hnext := ih (start + 1) n (by omega)
      rw [show start + 1 + n = start + (n + 1) by omega] at hnext
      exact hnext

/-- The table has the two digits of every number below 100. -/
theorem digitPairs_eq : digitPairs =
    (List.range' 0 100).flatMap fun n => [(n / 10).digitChar, (n % 10).digitChar] := by
  decide +kernel

/-- `digit_pairs` has the two digits of every number below 100. -/
theorem digitPairs_getD {number : ℕ} (h : number < 100) :
    digitPairs.getD (2 * number) '0' = (number / 10).digitChar ∧
      digitPairs.getD (2 * number + 1) '0' = (number % 10).digitChar := by
  have hpairs := getD_pairs (fun n => (n / 10).digitChar) (fun n => (n % 10).digitChar) 100 0
    number h
  rw [Nat.zero_add] at hpairs
  rwa [digitPairs_eq]

/-- The last two digits of a number. -/
theorem toDigits_hundred {number : ℕ} (h : 9 < number) :
    Nat.toDigits 10 number = (if number < 100 then [] else Nat.toDigits 10 (number / 100)) ++
      [(number % 100 / 10).digitChar, (number % 10).digitChar] := by
  rw [Nat.toDigits_of_base_le (by omega) (by omega)]
  have hmod : number / 10 % 10 = number % 100 / 10 := by omega
  split
  · rw [Nat.toDigits_of_lt_base (show number / 10 < 10 by omega),
      show number % 100 / 10 = number / 10 by omega]
    rfl
  · rw [Nat.toDigits_of_base_le (by omega) (show 10 ≤ number / 10 by omega), hmod,
      Nat.div_div_eq_div_mul, List.append_assoc]
    rfl

/-- A pair from the table is the two digits of its number. -/
theorem writePair_eq {number : ℕ} (h : number < 100) (buffer : List Char) :
    writePair number buffer = [(number / 10).digitChar, (number % 10).digitChar] ++ buffer := by
  obtain ⟨hfirst, hsecond⟩ := digitPairs_getD h
  rw [writePair, hfirst, hsecond]
  rfl

/-- The loop writes the digits of the number. -/
theorem integerToStringLoop_eq (steps : ℕ) :
    ∀ (number : ℕ) (buffer : List Char), number < steps →
      integerToStringLoop steps number buffer = Nat.toDigits 10 number ++ buffer := by
  induction steps with
  | zero =>
    intro number buffer h
    omega
  | succ steps ih =>
    intro number buffer h
    rw [integerToStringLoop]
    split
    · rename_i hlarge
      rw [ih _ _ (by omega), writePair_eq (by omega), @toDigits_hundred number (by omega),
        if_neg (by omega), List.append_assoc, show number % 100 % 10 = number % 10 by omega]
    · split
      · rename_i htwo
        rw [writePair_eq (by omega), toDigits_hundred (by omega), if_pos (by omega),
          Nat.mod_eq_of_lt (show number < 100 by omega), List.nil_append]
      · have hdigit : ∀ n < 10, Char.ofNat ('0'.toNat + n) = n.digitChar := by decide
        rw [Nat.toDigits_of_lt_base (by omega), hdigit number (by omega)]
        rfl

/-- A natural number is written with its digits. -/
theorem integerToString_natCast (number : ℕ) :
    integerToString number = Nat.toDigits 10 number := by
  show (if (number : ℤ) < 0 then '-' :: integerToStringLoop (number + 1) number [] else
    integerToStringLoop (number + 1) number []) = _
  rw [if_neg (by omega), integerToStringLoop_eq _ _ _ (by omega), List.append_nil]

/-- A negative number is written with a sign and the digits of its size. -/
theorem integerToString_neg {value : ℤ} (h : value < 0) :
    integerToString value = '-' :: Nat.toDigits 10 value.natAbs := by
  rw [integerToString, integerToStringLoop_eq _ _ _ (by omega), List.append_nil]
  exact if_pos h

/-- A number is written as a sign and its digits. -/
theorem integerToString_cases (value : ℤ) :
    (value < 0 ∧ integerToString value = '-' :: Nat.toDigits 10 value.natAbs) ∨
      0 ≤ value ∧ integerToString value = Nat.toDigits 10 value.natAbs := by
  by_cases h : value < 0
  · exact Or.inl ⟨h, integerToString_neg h⟩
  · have hcast : (value.natAbs : ℤ) = value := by omega
    refine Or.inr ⟨by omega, ?_⟩
    conv_lhs => rw [← hcast]
    exact integerToString_natCast _

/-- The number of digits grows by one with a digit. -/
theorem length_toDigits {number : ℕ} (h : 9 < number) :
    (Nat.toDigits 10 number).length = (Nat.toDigits 10 (number / 10)).length + 1 := by
  rw [Nat.toDigits_of_base_le (by omega) (by omega), List.length_append]
  rfl

/-- The loop counts the digits of its number. Induction on the bound of its steps. -/
theorem numberOfSymbolsLoop_eq (steps : ℕ) :
    ∀ number symbols : ℕ, number < steps →
      numberOfSymbolsLoop steps number symbols = symbols + (Nat.toDigits 10 number).length := by
  have hone : ∀ n : ℕ, n ≤ 9 → (Nat.toDigits 10 n).length = 1 := fun n h => by
    rw [Nat.toDigits_of_lt_base (by omega)]
    rfl
  induction steps with
  | zero =>
    intro number symbols h
    omega
  | succ steps ih =>
    intro number symbols h
    rw [numberOfSymbolsLoop]
    split
    · rename_i hlarge
      rw [ih _ _ (by omega), length_toDigits (show 9 < number by omega),
        length_toDigits (show 9 < number / 10 by omega),
        length_toDigits (show 9 < number / 10 / 10 by omega),
        length_toDigits (show 9 < number / 10 / 10 / 10 by omega),
        show number / 10 / 10 / 10 / 10 = number / 10000 by omega]
      omega
    · split
      · split
        · rw [length_toDigits (by omega), length_toDigits (by omega), length_toDigits (by omega),
            hone _ (by omega)]
        · rw [length_toDigits (by omega), length_toDigits (by omega), hone _ (by omega)]
      · split
        · rw [length_toDigits (by omega), hone _ (by omega)]
        · rw [hone _ (by omega)]

/-- `number_of_symbols_in` is the length of what `integer_to_string` writes, so the tag of a field
fills its part of the buffer. -/
theorem length_integerToString (value : ℤ) :
    (integerToString value).length = numberOfSymbolsIn value := by
  show _ = if value < 0 then numberOfSymbolsLoop (value.natAbs + 1) value.natAbs 0 + 1 else
    numberOfSymbolsLoop (value.natAbs + 1) value.natAbs 0
  rw [numberOfSymbolsLoop_eq _ _ _ (by omega), Nat.zero_add]
  rcases integerToString_cases value with ⟨hneg, h⟩ | ⟨hpos, h⟩
  · rw [h, if_pos hneg, List.length_cons]
  · rw [h, if_neg (by omega)]

/-- What is written is a sign or a digit. -/
theorem mem_integerToString {value : ℤ} {c : Char} (h : c ∈ integerToString value) :
    c = '-' ∨ c.isDigit := by
  rcases integerToString_cases value with ⟨-, heq⟩ | ⟨-, heq⟩
  · rw [heq, List.mem_cons] at h
    exact h.imp_right fun hmem => Lib.isDigit_of_mem_toDigits c hmem
  · rw [heq] at h
    exact Or.inr (Lib.isDigit_of_mem_toDigits c h)

/-- The text of a number has no equal sign. -/
theorem equal_notMem_integerToString (value : ℤ) : '=' ∉ integerToString value := by
  intro h
  rcases mem_integerToString h with h | h
  · exact absurd h (by decide)
  · exact absurd h (by decide)

/-- The text of a number has no `SOH`. -/
theorem soh_notMem_integerToString (value : ℤ) : SOH ∉ integerToString value := by
  intro h
  rcases mem_integerToString h with h | h
  · exact absurd h (by decide)
  · exact absurd h (by decide)

/-! ### Reading -/

/-- Reading further digits makes no number smaller. -/
theorem le_ofDigitChars (digits : List Char) : ∀ x : ℕ, x ≤ Nat.ofDigitChars 10 digits x := by
  induction digits with
  | nil => exact fun x => Nat.le_refl x
  | cons c digits ih =>
    intro x
    rw [Nat.ofDigitChars_cons]
    have h := ih (10 * x + (c.toNat - '0'.toNat))
    omega

/-- The loop of `convert` reads a number that fits. -/
theorem convertDigits_eq (digits : List Char) :
    ∀ x : ℕ, (∀ c ∈ digits, c.isDigit) → Nat.ofDigitChars 10 digits x ≤ VALUE_MAX + 1 →
      convertDigits digits x = some (Nat.ofDigitChars 10 digits x) := by
  induction digits with
  | nil => exact fun x _ _ => rfl
  | cons c digits ih =>
    intro x hdigits hle
    rw [Nat.ofDigitChars_cons] at hle ⊢
    have hfits : 10 * x + (c.toNat - '0'.toNat) ≤ VALUE_MAX + 1 :=
      le_trans (le_ofDigitChars digits _) hle
    have hmax : VALUE_MAX = 2147483647 := rfl
    have hoverflow : OVERFLOW_MAX = 214748364 := rfl
    have hmod : (10 * x + (c.toNat - '0'.toNat)) % 2 ^ 32 = 10 * x + (c.toNat - '0'.toNat) :=
      Nat.mod_eq_of_lt (by omega)
    show (if OVERFLOW_MAX < x then none
      else if ¬ c.isDigit then none
      else if (10 * x + (c.toNat - '0'.toNat)) % 2 ^ 32 < x then none
      else convertDigits digits ((10 * x + (c.toNat - '0'.toNat)) % 2 ^ 32)) = _
    rw [if_neg (by omega), if_neg (not_not_intro (hdigits c List.mem_cons_self)), hmod,
      if_neg (by omega)]
    exact ih _ (fun d hd => hdigits d (List.mem_cons_of_mem _ hd)) hle

/-- The digits of a number that fits are read as the number. -/
theorem convertDigits_toDigits {number : ℕ} (h : number ≤ VALUE_MAX + 1) :
    convertDigits (Nat.toDigits 10 number) 0 = some number := by
  have heq : Nat.ofDigitChars 10 (Nat.toDigits 10 number) 0 = number :=
    Nat.ofDigitChars_ten_toDigits
  rw [convertDigits_eq _ 0 Lib.isDigit_of_mem_toDigits (by rw [heq]; exact h), heq]

/-- Digits are read as their value, if it fits. -/
theorem convert_digits {digits : List Char} (hne : digits ≠ []) (hdigits : ∀ c ∈ digits, c.isDigit)
    (hle : Nat.ofDigitChars 10 digits 0 ≤ VALUE_MAX) :
    convert digits = some (Nat.ofDigitChars 10 digits 0 : ℤ) := by
  have hconvert := convertDigits_eq digits 0 hdigits (by omega)
  cases digits with
  | nil => exact absurd rfl hne
  | cons c cs =>
    rw [convert]
    · rw [hconvert]
      exact if_neg (by omega)
    · exact fun heq => List.cons_ne_nil _ _ heq
    · intro digits heq
      cases heq
      exact absurd (hdigits '-' List.mem_cons_self) (by decide)

/-- A number is read again. -/
theorem convert_integerToString {value : ℤ} (hlow : -(VALUE_MAX + 1) ≤ value)
    (hhigh : value ≤ VALUE_MAX) : convert (integerToString value) = some value := by
  rcases integerToString_cases value with ⟨hneg, h⟩ | ⟨hpos, h⟩
  · rw [h, convert, if_neg Nat.toDigits_ne_nil, convertDigits_toDigits (by omega)]
    show (if VALUE_MAX + 1 < value.natAbs then none else some (-(value.natAbs : ℤ))) = some value
    rw [if_neg (by omega), show -(value.natAbs : ℤ) = value by omega]
  · have heq : Nat.ofDigitChars 10 (Nat.toDigits 10 value.natAbs) 0 = value.natAbs :=
      Nat.ofDigitChars_ten_toDigits
    rw [h, convert_digits Nat.toDigits_ne_nil Lib.isDigit_of_mem_toDigits (by rw [heq]; omega), heq,
      show (value.natAbs : ℤ) = value by omega]

/-- So is a checksum, with the zeros in front. -/
theorem convert_checkSumText {value : ℕ} (h : value ≤ VALUE_MAX) :
    convert (checkSumText value) = some (value : ℤ) := by
  have htext : checkSumText value
      = List.replicate (3 - (Nat.toDigits 10 value).length) '0' ++ Nat.toDigits 10 value := by
    rw [checkSumText, integerToString_natCast]
    rfl
  have heq : Nat.ofDigitChars 10 (checkSumText value) 0 = value := by
    rw [htext, Nat.ofDigitChars_append, Nat.ofDigitChars_replicate_zero, Nat.mul_zero,
      Nat.ofDigitChars_ten_toDigits]
  have hdigits : ∀ c ∈ checkSumText value, c.isDigit := by
    intro c hc
    rw [htext] at hc
    rcases List.mem_append.mp hc with hc | hc
    · rw [List.eq_of_mem_replicate hc]
      rfl
    · exact Lib.isDigit_of_mem_toDigits c hc
  rw [convert_digits (by rw [htext]; simp) hdigits (by rw [heq]; exact h), heq]

end Harjus.Wire
