import Mathlib.Order.Monotone.Basic
import Mathlib.Algebra.Order.Ring.Int
import Mathlib.Algebra.BigOperators.Group.List.Basic
import Mathlib.Data.List.Chain
import Mathlib.Tactic.Abel
import Mathlib.Tactic.Positivity
import Mathlib.Tactic.Linarith

/-!
# `Harjus.Lib.FixedPoint`: truncating fixed-point arithmetic

A fixed-point number with `k` units to the one is an integer count of units. The product
and the quotient of two such numbers are rescaled by `k` and truncated toward zero
(`Int.tdiv`). A quotient by zero is zero.

* `mul_le_mul_right`, `div_le_div_right`: both operations are monotone in the amount for a
  non-negative price.
* `mul_div_le`, `div_mul_le`: a conversion at a price and back never gives more than the
  amount it started from. The two truncations go the same way.
* `lt_mul_div_add`, `lt_div_mul_add_add`: what such a conversion loses.
* `foldr_foldl_le`: the same for a chain of conversions. When each step back undoes at most
  its own step forth, the backward pass over the forward pass stays below the start.

The module names no program.
-/

set_option autoImplicit false

namespace Harjus.Lib.FixedPoint

/-- The product of two amounts with `k` units to the one, truncated toward zero. -/
def mul (k a b : ℤ) : ℤ := (a * b).tdiv k

/-- The quotient of two amounts with `k` units to the one, truncated toward zero. A zero
divisor gives zero. -/
def div (k a b : ℤ) : ℤ := if b = 0 then 0 else (a * k).tdiv b

section
variable {k : ℤ}

/-- Zero times anything is zero. -/
@[simp] theorem zero_mul (b : ℤ) : mul k 0 b = 0 := by simp [mul]

/-- Anything times zero is zero. -/
@[simp] theorem mul_zero (a : ℤ) : mul k a 0 = 0 := by simp [mul]

/-- Zero over anything is zero. -/
@[simp] theorem zero_div (b : ℤ) : div k 0 b = 0 := by simp [div]

/-- Anything over zero is zero. -/
@[simp] theorem div_zero (a : ℤ) : div k a 0 = 0 := by simp [div]

/-- A product with a whole number `n` is exact. -/
theorem mul_whole (hk : k ≠ 0) (a n : ℤ) : mul k a (n * k) = a * n := by
  rw [mul, ← mul_assoc, Int.mul_tdiv_cancel _ hk]

/-- A product of non-negative numbers is non-negative. -/
theorem mul_nonneg (hk : 0 ≤ k) {a b : ℤ} (ha : 0 ≤ a) (hb : 0 ≤ b) : 0 ≤ mul k a b :=
  Int.tdiv_nonneg (Int.mul_nonneg ha hb) hk

/-- A quotient of non-negative numbers is non-negative. -/
theorem div_nonneg (hk : 0 ≤ k) {a b : ℤ} (ha : 0 ≤ a) (hb : 0 ≤ b) : 0 ≤ div k a b := by
  unfold div
  split
  · exact le_rfl
  · exact Int.tdiv_nonneg (Int.mul_nonneg ha hk) hb

/-- Multiplication by a non-negative number is monotone, cut digits and all. -/
theorem mul_le_mul_right (hk : 0 < k) {a a' p : ℤ} (hp : 0 ≤ p) (h : a ≤ a') :
    mul k a p ≤ mul k a' p :=
  Int.tdiv_le_tdiv hk (Int.mul_le_mul_of_nonneg_right h hp)

/-- Division by a non-negative number is monotone, cut digits and all. -/
theorem div_le_div_right (hk : 0 < k) {a a' p : ℤ} (hp : 0 ≤ p) (h : a ≤ a') :
    div k a p ≤ div k a' p := by
  unfold div
  split
  · exact le_rfl
  · rename_i hne
    exact Int.tdiv_le_tdiv (by omega) (Int.mul_le_mul_of_nonneg_right h hk.le)

/-- A truncated quotient times its divisor stays below a non-negative dividend. -/
private theorem tdiv_mul_le_self {a b : ℤ} (ha : 0 ≤ a) (hb : b ≠ 0) : a.tdiv b * b ≤ a := by
  have h := Int.tdiv_mul_le a hb
  rw [if_pos ha] at h
  simpa using h

/-- A product of the right sign rounds down. -/
theorem mul_mul_le (hk : 0 < k) {a b : ℤ} (h : 0 ≤ a * b) : mul k a b * k ≤ a * b :=
  tdiv_mul_le_self h hk.ne'

/-- A product loses less than one unit. -/
theorem lt_mul_mul_add (hk : 0 < k) (a b : ℤ) : a * b < mul k a b * k + k := by
  have h := Int.lt_tdiv_add_one_mul_self (a * b) hk
  rwa [Int.add_mul, Int.one_mul] at h

/-- A quotient loses less than one unit. -/
theorem lt_div_mul_add (k a : ℤ) {p : ℤ} (hp : 0 < p) : a * k < div k a p * p + p := by
  have h := Int.lt_tdiv_add_one_mul_self (a * k) hp
  rw [Int.add_mul, Int.one_mul] at h
  rwa [div, if_neg hp.ne']

/-- What dividing by a price and multiplying back loses. -/
theorem lt_mul_div_add (hk : 0 < k) (a : ℤ) {p : ℤ} (hp : 0 < p) :
    a * k < mul k (div k a p) p * k + p + k := by
  have hdiv := lt_div_mul_add k a hp
  have hmul := lt_mul_mul_add hk (div k a p) p
  omega

/-- What multiplying by a price and dividing back loses. -/
theorem lt_div_mul_add_add (hk : 0 < k) (a : ℤ) {p : ℤ} (hp : 0 < p) :
    a * p < div k (mul k a p) p * p + p + k := by
  have hmul := lt_mul_mul_add hk a p
  have hdiv := lt_div_mul_add k (mul k a p) hp
  omega

/-- What an amount buys at a price: `c` costs at most `a` exactly when it is at most the
truncated quotient. -/
theorem le_div_iff {a p c : ℤ} (hk : 0 < k) (ha : 0 ≤ a) (hp : 0 < p) :
    c ≤ div k a p ↔ c * p ≤ a * k := by
  rw [div, if_neg hp.ne', Int.tdiv_eq_ediv_of_nonneg (Int.mul_nonneg ha hk.le)]
  exact Int.le_ediv_iff_mul_le hp

/-- Dividing by a price and multiplying back gives at most the start. -/
theorem mul_div_le (hk : 0 < k) {a : ℤ} (ha : 0 ≤ a) (p : ℤ) :
    mul k (div k a p) p ≤ a := by
  unfold mul div
  split
  · simpa using ha
  · rename_i hne
    calc ((a * k).tdiv p * p).tdiv k
        ≤ (a * k).tdiv k :=
          Int.tdiv_le_tdiv hk (tdiv_mul_le_self (Int.mul_nonneg ha hk.le) hne)
      _ = a := Int.mul_tdiv_cancel a hk.ne'

/-- Multiplying by a price and dividing back gives at most the start. -/
theorem div_mul_le (hk : 0 < k) {a p : ℤ} (ha : 0 ≤ a) (hp : 0 ≤ p) :
    div k (mul k a p) p ≤ a := by
  unfold mul div
  split
  · exact ha
  · rename_i hne
    have hpos : 0 < p := by omega
    calc ((a * p).tdiv k * k).tdiv p
        ≤ (a * p).tdiv p :=
          Int.tdiv_le_tdiv hpos (tdiv_mul_le_self (Int.mul_nonneg ha hp) hk.ne')
      _ = a := Int.mul_tdiv_cancel a hne

/-- A factor of at most one does not enlarge a non-negative amount. The factor may be
negative: truncation toward zero then stays at or below zero. -/
theorem mul_le_self (hk : 0 < k) {a c : ℤ} (ha : 0 ≤ a) (hc : c ≤ k) : mul k a c ≤ a := by
  calc (a * c).tdiv k ≤ (a * k).tdiv k :=
        Int.tdiv_le_tdiv hk (Int.mul_le_mul_of_nonneg_left hc ha)
    _ = a := Int.mul_tdiv_cancel a hk.ne'

/-- A positive product with a non-negative factor has a positive other factor. -/
theorem pos_of_mul_pos (hk : 0 < k) {a v : ℤ} (hv : 0 ≤ v) (h : 0 < mul k a v) : 0 < a := by
  by_contra ha
  have hle : mul k a v ≤ mul k 0 v := mul_le_mul_right hk hv (by omega)
  rw [zero_mul] at hle
  omega

/-- A positive product with a non-negative left factor has a positive left factor. -/
theorem pos_of_mul_pos_left {a c : ℤ} (ha : 0 ≤ a) (h : 0 < mul k a c) : 0 < a := by
  rcases ha.lt_or_eq with ha | rfl
  · exact ha
  · simp at h

/-- A positive product with a non-negative left factor has a positive right factor. -/
theorem pos_of_mul_pos_right (hk : 0 < k) {a c : ℤ} (ha : 0 ≤ a) (h : 0 < mul k a c) :
    0 < c := by
  refine pos_of_mul_pos hk ha ?_
  rwa [mul, Int.mul_comm c a]

/-- An amount less its remainder is the greatest multiple of the divisor up to it. -/
theorem isGreatest_sub_tmod {a d : ℤ} (ha : 0 ≤ a) (hd : 0 < d) :
    IsGreatest {q | d ∣ q ∧ q ≤ a} (a - a.tmod d) := by
  have hfloor : a - a.tmod d = d * (a / d) := by
    rw [Int.tmod_eq_emod_of_nonneg ha]
    have hsum := Int.mul_ediv_add_emod a d
    omega
  rw [hfloor]
  constructor
  · exact ⟨Int.dvd_mul_right _ _, Int.mul_ediv_self_le hd.ne'⟩
  · intro q hq
    obtain ⟨⟨m, rfl⟩, hle⟩ := hq
    have hm : m ≤ a / d := (Int.le_ediv_iff_mul_le hd).mpr (by rwa [Int.mul_comm])
    exact Int.mul_le_mul_of_nonneg_left hm hd.le

end

/-- The backward pass over the forward pass of a chain stays below the start. `P` holds
along the forward pass, each step back is monotone, and each step back undoes at most its
own step forth. -/
theorem foldr_foldl_le {α ι : Type*} [Preorder α] {P : α → Prop} (forth back : ι → α → α)
    (l : List ι) (hP : ∀ i ∈ l, ∀ x, P x → P (forth i x))
    (hmono : ∀ i ∈ l, Monotone (back i))
    (hback : ∀ i ∈ l, ∀ x, P x → back i (forth i x) ≤ x) :
    ∀ x, P x → l.foldr back (l.foldl (fun x i => forth i x) x) ≤ x := by
  induction l with
  | nil => exact fun x _ => le_rfl
  | cons i l ih =>
    intro x hx
    -- The passes over `l` start at `forth i x`; the last step back undoes the first one.
    have hrest := ih (fun j hj => hP j (List.mem_cons_of_mem _ hj))
      (fun j hj => hmono j (List.mem_cons_of_mem _ hj))
      (fun j hj => hback j (List.mem_cons_of_mem _ hj))
      (forth i x) (hP i List.mem_cons_self x hx)
    exact (hmono i List.mem_cons_self hrest).trans (hback i List.mem_cons_self x hx)

/-- Along a chain where each element takes at most what the one before it gives, the gains
add up to at least what the last one gives less what the first one takes. -/
theorem sub_le_sum_of_isChain {α M : Type*} [AddCommGroup M] [PartialOrder M]
    [IsOrderedAddMonoid M] (gives takes : α → M) (l : List α) (hne : l ≠ [])
    (hchain : l.IsChain fun a b => takes b ≤ gives a) :
    gives (l.getLast hne) - takes (l.head hne) ≤ (l.map fun a => gives a - takes a).sum := by
  -- The sum telescopes up to the slack `gives a - takes b` of each link.
  induction l with
  | nil => exact absurd rfl hne
  | cons a l ih =>
    cases l with
    | nil => simp
    | cons b l =>
      obtain ⟨hlink, hrest⟩ := List.isChain_cons_cons.mp hchain
      have hsum := ih (List.cons_ne_nil b l) hrest
      rw [List.getLast_cons (List.cons_ne_nil b l), List.map_cons, List.sum_cons]
      simp only [List.head_cons] at hsum ⊢
      calc gives ((b :: l).getLast _) - takes a
          ≤ gives ((b :: l).getLast _) - takes a + (gives a - takes b) :=
            le_add_of_nonneg_right (sub_nonneg.mpr hlink)
        _ = gives a - takes a + (gives ((b :: l).getLast _) - takes b) := by abel
        _ ≤ _ := add_le_add_right hsum _

end Harjus.Lib.FixedPoint
