import Mathlib.Data.List.SplitLengths
import Mathlib.Tactic.Ring

/-!
# `Harjus.Lib.EvenSplit`: a list cut into parts of nearly the same length

`n` elements go into `s` parts: the first `n % s` parts get one element more than the others.
`evenLengths` are the lengths of the parts, and `splitEvenly` cuts a list accordingly.

* `flatten_splitEvenly`: no element is lost, and the parts keep the order.
* `length_le_of_mem_splitEvenly`: the lengths of two parts differ by one at most.
* `evenLengths_eq_map_range`: the lengths as a loop over the parts computes them.

The module names no program.
-/

set_option autoImplicit false

namespace Harjus.Lib

/-- The lengths of `s` parts of `n` elements. -/
def evenLengths (n s : ℕ) : List ℕ :=
  List.replicate (n % s) (n / s + 1) ++ List.replicate (s - n % s) (n / s)

/-- A list in `s` parts. -/
def splitEvenly {α : Type*} (l : List α) (s : ℕ) : List (List α) :=
  (evenLengths l.length s).splitLengths l

/-- A last part is taken from what the other parts leave. -/
theorem splitLengths_concat {α : Type*} (lengths : List ℕ) (n : ℕ) (l : List α) :
    (lengths ++ [n]).splitLengths l
      = lengths.splitLengths l ++ [(l.drop lengths.sum).take n] := by
  induction lengths generalizing l with
  | nil => simp
  | cons k lengths ih =>
    rw [List.cons_append, List.splitLengths_cons, ih, List.splitLengths_cons, List.cons_append,
      List.drop_drop, List.sum_cons]

section
variable {n s : ℕ}

/-- There are as many lengths as parts. -/
theorem length_evenLengths (hs : 0 < s) : (evenLengths n s).length = s := by
  have hmod : n % s < s := Nat.mod_lt n hs
  rw [evenLengths, List.length_append, List.length_replicate, List.length_replicate]
  omega

/-- The lengths add up. -/
theorem sum_evenLengths (hs : 0 < s) : (evenLengths n s).sum = n := by
  have hmod : n % s < s := Nat.mod_lt n hs
  have hcount : n % s + (s - n % s) = s := by omega
  rw [evenLengths, List.sum_append, List.sum_replicate_nat, List.sum_replicate_nat]
  calc n % s * (n / s + 1) + (s - n % s) * (n / s)
      = (n % s + (s - n % s)) * (n / s) + n % s := by ring
    _ = s * (n / s) + n % s := by rw [hcount]
    _ = n := Nat.div_add_mod n s

/-- A part has the rounded down share or one more. -/
theorem eq_or_eq_of_mem_evenLengths {k : ℕ} (h : k ∈ evenLengths n s) :
    k = n / s ∨ k = n / s + 1 := by
  rcases List.mem_append.mp h with h | h
  · exact Or.inr (List.eq_of_mem_replicate h)
  · exact Or.inl (List.eq_of_mem_replicate h)

/-- The lengths of the parts, one after the other. -/
theorem evenLengths_eq_map_range (hs : 0 < s) :
    evenLengths n s = (List.range s).map fun i => n / s + if i < n % s then 1 else 0 := by
  refine List.ext_getElem ?_ fun i hi hi' => ?_
  · rw [length_evenLengths hs, List.length_map, List.length_range]
  · rw [List.getElem_map, List.getElem_range]
    by_cases h : i < n % s
    · rw [if_pos h]
      simp only [evenLengths]
      rw [List.getElem_append_left (by rwa [List.length_replicate]), List.getElem_replicate]
    · rw [if_neg h]
      simp only [evenLengths]
      rw [List.getElem_append_right (by rw [List.length_replicate]; omega), List.getElem_replicate]
      rfl

end

section
variable {α : Type*} {l : List α} {s : ℕ}

/-- There are as many parts as asked for. -/
theorem length_splitEvenly (hs : 0 < s) : (splitEvenly l s).length = s := by
  rw [splitEvenly, List.length_splitLengths, length_evenLengths hs]

/-- The parts together are the list. -/
theorem flatten_splitEvenly (hs : 0 < s) : (splitEvenly l s).flatten = l :=
  List.flatten_splitLengths _ _ (sum_evenLengths hs).ge

/-- The parts have the even lengths. -/
theorem map_length_splitEvenly (hs : 0 < s) :
    (splitEvenly l s).map List.length = evenLengths l.length s :=
  List.map_splitLengths_length _ _ (sum_evenLengths hs).le

/-- The lengths of two parts differ by one at most. -/
theorem length_le_of_mem_splitEvenly (hs : 0 < s) {part part' : List α}
    (h : part ∈ splitEvenly l s) (h' : part' ∈ splitEvenly l s) :
    part.length ≤ part'.length + 1 := by
  have hlength (part : List α) (h : part ∈ splitEvenly l s) :
      part.length ∈ evenLengths l.length s :=
    map_length_splitEvenly (l := l) hs ▸ List.mem_map_of_mem h
  rcases eq_or_eq_of_mem_evenLengths (hlength part h) with hp | hp <;>
    rcases eq_or_eq_of_mem_evenLengths (hlength part' h') with hp' | hp' <;> omega

end

end Harjus.Lib
