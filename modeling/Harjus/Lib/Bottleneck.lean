import Mathlib.Data.List.Infix
import Mathlib.Order.Bounds.Basic
import Mathlib.Order.MinMax

/-!
# `Harjus.Lib.Bottleneck`: an amount through a chain of limited conversions

A chain converts an amount leg by leg. Each leg has a cap on what it takes and a monotone
conversion of it. `flow` is what comes out at the end when each leg caps the amount before it
converts it.

The yield of a limit is what it comes to at the end with no further limit. The limits of a
chain are the amount it starts with and the cap of each leg.

* `isLeast_flow`: what comes out is the least yield of the limits.
* `flow_eq_flow_iff`: two sets of caps let the same amount through exactly when each limit of
  one yields at least as much as some limit of the other.

The module names no program.
-/

set_option autoImplicit false

namespace Harjus.Lib.Bottleneck

variable {α ι : Type*}

/-- What an amount comes to along the chain without any cap. -/
def carry (conv : ι → α → α) (l : List ι) (x : α) : α := l.foldl (fun x i => conv i x) x

/-- What an amount comes to along the chain when each leg caps it first. -/
def flow [LinearOrder α] (cap : ι → α) (conv : ι → α → α) (l : List ι) (x : α) : α :=
  l.foldl (fun x i => conv i (min x (cap i))) x

/-- The yields of the limits: the start carried along the chain, and the cap of each leg
carried along that leg and the rest. -/
def yields (cap : ι → α) (conv : ι → α → α) (l : List ι) (x : α) : Set α :=
  {z | z = carry conv l x ∨ ∃ i rest, i :: rest <:+ l ∧ z = carry conv (i :: rest) (cap i)}

section
variable {cap cap' : ι → α} {conv : ι → α → α} {l : List ι}

/-- What monotone conversions make of an amount is monotone in it. -/
theorem carry_monotone [Preorder α] (hmono : ∀ i ∈ l, Monotone (conv i)) :
    Monotone (carry conv l) := by
  induction l with
  | nil => exact monotone_id
  | cons i l ih =>
    intro x y hxy
    exact ih (fun j hj => hmono j (List.mem_cons_of_mem _ hj))
      (hmono i List.mem_cons_self hxy)

/-- The first leg adds the yield of its own cap. -/
theorem mem_yields_cons {i : ι} {x z : α} :
    z ∈ yields cap conv (i :: l) x ↔
      z = carry conv l (conv i x) ∨ z = carry conv l (conv i (cap i)) ∨
        ∃ j rest, j :: rest <:+ l ∧ z = carry conv (j :: rest) (cap j) := by
  constructor
  · rintro (rfl | ⟨j, rest, hsuffix, rfl⟩)
    · exact Or.inl rfl
    · rcases List.suffix_cons_iff.mp hsuffix with heq | hsuffix
      · cases heq
        exact Or.inr (Or.inl rfl)
      · exact Or.inr (Or.inr ⟨j, rest, hsuffix, rfl⟩)
  · rintro (rfl | rfl | ⟨j, rest, hsuffix, rfl⟩)
    · exact Or.inl rfl
    · exact Or.inr ⟨i, l, List.suffix_rfl, rfl⟩
    · exact Or.inr ⟨j, rest, hsuffix.trans (List.suffix_cons i l), rfl⟩

variable [LinearOrder α]

/-- What comes out of the chain is the least yield of its limits. -/
theorem isLeast_flow (hmono : ∀ i ∈ l, Monotone (conv i)) (x : α) :
    IsLeast (yields cap conv l x) (flow cap conv l x) := by
  induction l generalizing x with
  | nil =>
    refine ⟨Or.inl rfl, ?_⟩
    rintro z (rfl | ⟨i, rest, hsuffix, -⟩)
    · exact le_rfl
    · exact absurd (List.suffix_nil.mp hsuffix) (List.cons_ne_nil _ _)
  | cons i l ih =>
    have hrest := ih (fun j hj => hmono j (List.mem_cons_of_mem _ hj))
      (conv i (min x (cap i)))
    have hmonoi := hmono i List.mem_cons_self
    have hmonol := carry_monotone fun j hj => hmono j (List.mem_cons_of_mem i hj)
    constructor
    · -- The amount after the first leg is the start or the cap, converted.
      have hstep : flow cap conv (i :: l) x = flow cap conv l (conv i (min x (cap i))) := rfl
      rw [mem_yields_cons, hstep]
      rcases hrest.1 with hstart | hlater
      · rcases min_choice x (cap i) with h | h <;> rw [h] at hstart ⊢
        · exact Or.inl hstart
        · exact Or.inr (Or.inl hstart)
      · exact Or.inr (Or.inr hlater)
    · intro z hz
      have hfirst := hrest.2 (Or.inl rfl)
      rcases mem_yields_cons.mp hz with rfl | rfl | hlater
      · exact hfirst.trans (hmonol (hmonoi (min_le_left _ _)))
      · exact hfirst.trans (hmonol (hmonoi (min_le_right _ _)))
      · exact hrest.2 (Or.inr hlater)

/-- Two least elements are equal exactly when each set reaches below every element of the
other. -/
theorem isLeast_eq_iff {s t : Set α} {a b : α} (ha : IsLeast s a) (hb : IsLeast t b) :
    a = b ↔ (∀ z ∈ t, ∃ y ∈ s, y ≤ z) ∧ ∀ z ∈ s, ∃ y ∈ t, y ≤ z := by
  constructor
  · rintro rfl
    exact ⟨fun z hz => ⟨a, ha.1, hb.2 hz⟩, fun z hz => ⟨a, hb.1, ha.2 hz⟩⟩
  · rintro ⟨hs, ht⟩
    obtain ⟨y, hy, hyb⟩ := hs b hb.1
    obtain ⟨z, hz, hza⟩ := ht a ha.1
    exact le_antisymm ((ha.2 hy).trans hyb) ((hb.2 hz).trans hza)

/-- Two sets of caps that agree outside the legs `S` let the same amount through exactly when
no cap of a leg in `S` is the bottleneck in one of them only. -/
theorem flow_eq_flow_iff (hmono : ∀ i ∈ l, Monotone (conv i)) {S : ι → Prop}
    (hagree : ∀ i, ¬ S i → cap i = cap' i) (x : α) :
    flow cap conv l x = flow cap' conv l x ↔
      ∀ i rest, i :: rest <:+ l → S i →
        (∃ y ∈ yields cap conv l x, y ≤ carry conv (i :: rest) (cap' i)) ∧
          ∃ y ∈ yields cap' conv l x, y ≤ carry conv (i :: rest) (cap i) := by
  rw [isLeast_eq_iff (isLeast_flow hmono x) (isLeast_flow hmono x)]
  constructor
  · rintro ⟨h, h'⟩ i rest hsuffix -
    exact ⟨h _ (Or.inr ⟨i, rest, hsuffix, rfl⟩), h' _ (Or.inr ⟨i, rest, hsuffix, rfl⟩)⟩
  · intro h
    constructor
    · rintro z (rfl | ⟨i, rest, hsuffix, rfl⟩)
      · exact ⟨_, Or.inl rfl, le_rfl⟩
      · by_cases hi : S i
        · exact (h i rest hsuffix hi).1
        · exact ⟨_, Or.inr ⟨i, rest, hsuffix, rfl⟩, by rw [hagree i hi]⟩
    · rintro z (rfl | ⟨i, rest, hsuffix, rfl⟩)
      · exact ⟨_, Or.inl rfl, le_rfl⟩
      · by_cases hi : S i
        · exact (h i rest hsuffix hi).2
        · exact ⟨_, Or.inr ⟨i, rest, hsuffix, rfl⟩, by rw [hagree i hi]⟩

end

end Harjus.Lib.Bottleneck
