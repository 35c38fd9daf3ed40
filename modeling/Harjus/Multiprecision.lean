import Harjus.PreciseNumber
import Harjus.Lib.Decimal

/-!
# `Harjus.Multiprecision`: amounts and their texts

The constructor of `PreciseNumber` from a string and `toString` (`src/PreciseNumber.cpp`) go
through `cpp_dec_float_50` and `mpz_int` of `boost::multiprecision`, which are a parameter.
`Multiprecision.Documented` says what the two functions rely on: numbers of at most 50 digits are
read, scaled by `kPrecision` and written without an error, and integers are written without
leading zeros, which the constructor of `mpz_int` would take for octal.

A `std::string` is the list of its characters.
-/

set_option autoImplicit false

namespace Harjus

open Harjus.Lib
open PreciseNumber (kPrecision)

/-- `boost::multiprecision`: `F` is `cpp_dec_float_50`. A constructor from a string throws where
it is `none` here. -/
structure Multiprecision (F : Type) where
  /-- `cpp_dec_float_50{text}`. -/
  decFloat : List Char → Option F
  /-- `*=` by an integer. -/
  mul : F → ℤ → F
  /-- `/=` by an integer. -/
  div : F → ℤ → F
  /-- `cpp_dec_float_50::str`. -/
  str : F → List Char
  /-- `<<` under `std::fixed` with a precision. -/
  fixed : ℕ → F → List Char
  /-- `mpz_int{text}`. -/
  mpzInt : List Char → Option ℤ
  /-- `mpz_int::str`. -/
  mpzStr : ℤ → List Char

/-- Up to 50 digits nothing is rounded: `value` is the exact value of a `cpp_dec_float_50`. -/
structure Multiprecision.Documented {F : Type} (boost : Multiprecision F) (value : F → ℚ) :
    Prop where
  decFloat : ∀ text q, literalValue text = some q → ∀ n : ℤ, |n| < 10 ^ 50 →
    q = n ∨ q * kPrecision = n → ∃ x, boost.decFloat text = some x ∧ value x = q
  mul : ∀ x (n : ℤ), |n| < 10 ^ 50 → value x * kPrecision = n →
    value (boost.mul x kPrecision) = n
  div : ∀ x (n : ℤ), |n| < 10 ^ 50 → value x = n → value (boost.div x kPrecision) * kPrecision = n
  str : ∀ x (n : ℤ), |n| < 10 ^ 50 → value x = n → boost.str x = intText n
  fixed : ∀ x (n : ℤ), |n| < 10 ^ 50 → value x * kPrecision = n → boost.fixed 10 x = fixedText 10 n
  mpzInt : ∀ n, boost.mpzInt (intText n) = some n
  mpzStr : ∀ n, boost.mpzStr n = intText n

namespace PreciseNumber

variable {F : Type} (boost : Multiprecision F)

/-- `PreciseNumber::PreciseNumber(const std::string &)`. -/
def ofString (amount : List Char) : Option PreciseNumber := do
  let decimal ← boost.decFloat amount
  let smallestUnit ← boost.mpzInt (boost.str (boost.mul decimal kPrecision))
  return ⟨smallestUnit⟩

/-- The end of `toString`: `find_last_not_of('0')` is the last character that stays, and a point
at the end goes too. -/
def stripTrailingZeros (str : List Char) : List Char :=
  let str := str.rdropWhile (· = '0')
  if str ≠ [] ∧ str.getLast? = some '.' then str.dropLast else str

/-- `PreciseNumber::toString`. -/
def toString (a : PreciseNumber) : Option (List Char) := do
  let value ← boost.decFloat (boost.mpzStr a.smallestUnit)
  return stripTrailingZeros (boost.fixed 10 (boost.div value kPrecision))

example : stripTrailingZeros "100.2500000000".toList = "100.25".toList := by decide

example : stripTrailingZeros "100.0000000000".toList = "100".toList := by decide

end PreciseNumber

end Harjus
