import Mathlib.Algebra.BigOperators.Group.List.Basic
import Mathlib.Tactic.Abel

/-!
# `Harjus.Lib.Machine`: runs of a deterministic machine

A machine takes an input in a state and either stops with an error or gives the next state
with a list of outputs. `Machine.run` feeds it a list of inputs.

* `run_append`: a run over two lists is the run over the second from where the first ends.
* `run_preserves`: what every step preserves, every run preserves.
* `run_tracks`: what every step preserves of a state and the outputs so far, every run does.
* `run_total`: when no step from the invariant stops with an error, no run does.
* `exists_of_run`: the result of a run that is evaluated.
* `run_accounting`: a quantity that each step moves by the sum of its ghost records moves by
  the sum of all records along a run (`Machine.history` collects the records).
* `run_records`: what every step preserves of a state and the records so far, every run does.
* `foldlM_reorder`: inputs with different keys that commute can be reordered, as long as the
  inputs of each single key keep their order.

The module names no program.
-/

set_option autoImplicit false

namespace Harjus.Lib

/-- A deterministic machine that emits outputs and can stop with an error. -/
structure Machine (σ ι ο ε : Type*) where
  step : σ → ι → Except ε (σ × List ο)

namespace Machine

section Run
variable {σ ι ο ε : Type*} (M : Machine σ ι ο ε)

/-- The machine fed with a list of inputs: the last state and all outputs in order, or the
first error. -/
def run : σ → List ι → Except ε (σ × List ο)
  | s, [] => .ok (s, [])
  | s, i :: is =>
    match M.step s i with
    | .error e => .error e
    | .ok (s', os) =>
      match run s' is with
      | .error e => .error e
      | .ok (s'', os') => .ok (s'', os ++ os')

/-- A run without inputs stays where it is. -/
@[simp] theorem run_nil (s : σ) : M.run s [] = .ok (s, []) := rfl

/-- A run over a non-empty list succeeds when its first step and the rest do. -/
theorem run_cons {s s'' : σ} {i : ι} {is : List ι} {out : List ο} :
    M.run s (i :: is) = .ok (s'', out) ↔
      ∃ s' os os', M.step s i = .ok (s', os) ∧ M.run s' is = .ok (s'', os') ∧
        out = os ++ os' := by
  rw [run]
  constructor
  · intro h
    split at h
    · cases h
    · rename_i s' os hstep
      split at h
      · cases h
      · rename_i t os' hrun
        cases h
        exact ⟨s', os, os', hstep, hrun, rfl⟩
  · rintro ⟨s', os, os', hstep, hrun, rfl⟩
    rw [hstep]
    simp only [hrun]

/-- A run over two lists is the run over the second from where the first ends. -/
theorem run_append {is is' : List ι} {s s'' : σ} {out : List ο} :
    M.run s (is ++ is') = .ok (s'', out) ↔
      ∃ s' os os', M.run s is = .ok (s', os) ∧ M.run s' is' = .ok (s'', os') ∧
        out = os ++ os' := by
  induction is generalizing s out with
  | nil =>
    constructor
    · intro h
      exact ⟨s, [], out, rfl, h, rfl⟩
    · rintro ⟨s', os, os', h, hrun, rfl⟩
      cases h
      exact hrun
  | cons i is ih =>
    simp only [List.cons_append, run_cons, ih]
    constructor
    · rintro ⟨s₁, os, _, hstep, ⟨s₂, os₁, os₂, hrun, hrun', rfl⟩, rfl⟩
      exact ⟨s₂, os ++ os₁, os₂, ⟨s₁, os, os₁, hstep, hrun, rfl⟩, hrun', by simp⟩
    · rintro ⟨s₂, _, os₂, ⟨s₁, os, os₁, hstep, hrun, rfl⟩, hrun', rfl⟩
      exact ⟨s₁, os, os₁ ++ os₂, hstep, ⟨s₂, os₁, os₂, hrun, hrun', rfl⟩, by simp⟩

/-- A run that is evaluated and passes a test ends in a result that passes it. -/
theorem exists_of_run (s : σ) (is : List ι) (test : σ → List ο → Bool)
    (h : ((M.run s is).toOption.any fun r => test r.1 r.2) = true) :
    ∃ s' out, M.run s is = .ok (s', out) ∧ test s' out = true := by
  cases hrun : M.run s is with
  | error e =>
    rw [hrun] at h
    cases h
  | ok r =>
    rw [hrun] at h
    exact ⟨r.1, r.2, rfl, h⟩

variable {M} {I : σ → Prop} {A : ι → Prop}

/-- What every step with an admissible input preserves, every run preserves. -/
theorem run_preserves
    (hstep : ∀ s i s' os, I s → A i → M.step s i = .ok (s', os) → I s') :
    ∀ {is : List ι} {s s' : σ} {out : List ο}, (∀ i ∈ is, A i) → I s →
      M.run s is = .ok (s', out) → I s' := by
  intro is
  induction is with
  | nil =>
    intro s s' out _ hs h
    cases h
    exact hs
  | cons i is ih =>
    intro s s' out hA hs h
    obtain ⟨t, os, os', hone, hrun, -⟩ := (run_cons M).mp h
    exact ih (fun j hj => hA j (List.mem_cons_of_mem _ hj))
      (hstep s i t os hs (hA i List.mem_cons_self) hone) hrun

/-- The same for what relates a state to the outputs so far. -/
theorem run_tracks {T : σ → List ο → Prop}
    (hstep : ∀ s out i s' os, T s out → M.step s i = .ok (s', os) → T s' (out ++ os)) :
    ∀ {is : List ι} {s s' : σ} {out out' : List ο}, T s out → M.run s is = .ok (s', out') →
      T s' (out ++ out') := by
  intro is
  induction is with
  | nil =>
    intro s s' out out' hs h
    cases h
    rwa [List.append_nil]
  | cons i is ih =>
    intro s s' out out' hs h
    obtain ⟨t, os, os', hone, hrun, rfl⟩ := (run_cons M).mp h
    rw [← List.append_assoc]
    exact ih (hstep s out i t os hs hone) hrun

/-- When every step from the invariant succeeds and preserves it, every run succeeds. -/
theorem run_total
    (hstep : ∀ s i, I s → A i → ∃ s' os, M.step s i = .ok (s', os) ∧ I s') :
    ∀ {is : List ι} {s : σ}, (∀ i ∈ is, A i) → I s →
      ∃ s' out, M.run s is = .ok (s', out) ∧ I s' := by
  intro is
  induction is with
  | nil => exact fun {s} _ hs => ⟨s, [], rfl, hs⟩
  | cons i is ih =>
    intro s hA hs
    obtain ⟨t, os, hone, ht⟩ := hstep s i hs (hA i List.mem_cons_self)
    obtain ⟨s', out, hrun, hs'⟩ := ih (fun j hj => hA j (List.mem_cons_of_mem _ hj)) ht
    exact ⟨s', os ++ out, (run_cons M).mpr ⟨t, os, out, hone, hrun, rfl⟩, hs'⟩

section History
variable {γ : Type*} (M) (g : σ → ι → List γ)

/-- The ghost records `g` of every step along a run, in order. -/
def history : σ → List ι → List γ
  | _, [] => []
  | s, i :: is =>
    g s i ++ match M.step s i with
      | .error _ => []
      | .ok (s', _) => history s' is

/-- A run without inputs notes nothing. -/
@[simp] theorem history_nil (s : σ) : M.history g s [] = [] := rfl

/-- A run notes what its first step does and what the rest does. -/
theorem history_cons {s s' : σ} {i : ι} {is : List ι} {os : List ο}
    (h : M.step s i = .ok (s', os)) :
    M.history g s (i :: is) = g s i ++ M.history g s' is := by
  rw [history, h]

variable {M g} {Q : Type*} [AddCommMonoid Q]

/-- A quantity that each step moves by the sum of its records moves by the sum of all
records along a run. -/
theorem run_accounting (φ : σ → Q) (val : γ → Q)
    (hpres : ∀ s i s' os, I s → A i → M.step s i = .ok (s', os) → I s')
    (hstep : ∀ s i s' os, I s → A i → M.step s i = .ok (s', os) →
      φ s' = φ s + ((g s i).map val).sum) :
    ∀ {is : List ι} {s s' : σ} {out : List ο}, (∀ i ∈ is, A i) → I s →
      M.run s is = .ok (s', out) → φ s' = φ s + ((M.history g s is).map val).sum := by
  intro is
  induction is with
  | nil =>
    intro s s' out _ _ h
    cases h
    simp
  | cons i is ih =>
    intro s s' out hA hs h
    obtain ⟨t, os, os', hone, hrun, -⟩ := (run_cons M).mp h
    have hA' : ∀ j ∈ is, A j := fun j hj => hA j (List.mem_cons_of_mem _ hj)
    have hi := hA i List.mem_cons_self
    rw [ih hA' (hpres s i t os hs hi hone) hrun, hstep s i t os hs hi hone,
      history_cons M g hone, List.map_append, List.sum_append]
    abel

/-- What every step preserves of a state and the records so far, every run preserves. -/
theorem run_records {T : σ → List γ → Prop}
    (hstep : ∀ s records i s' os, T s records → M.step s i = .ok (s', os) →
      T s' (records ++ g s i)) :
    ∀ {is : List ι} {s s' : σ} {out : List ο} {records : List γ}, T s records →
      M.run s is = .ok (s', out) → T s' (records ++ M.history g s is) := by
  intro is
  induction is with
  | nil =>
    intro s s' out records hs h
    cases h
    rwa [history_nil, List.append_nil]
  | cons i is ih =>
    intro s s' out records hs h
    obtain ⟨t, os, os', hone, hrun, -⟩ := (run_cons M).mp h
    rw [history_cons M g hone, ← List.append_assoc]
    exact ih (hstep s records i t os hs hone) hrun

end History

end Run

end Machine

section Reorder
variable {σ ι κ ε : Type*} [DecidableEq κ] {f : σ → ι → Except ε σ}
variable {I : σ → Prop} {A : ι → Prop}

omit [DecidableEq κ] in
/-- An input moves to the front of a fold past inputs with other keys. -/
private theorem foldlM_move_front {key : ι → κ}
    (hpres : ∀ s i s', I s → A i → f s i = .ok s' → I s')
    (hcomm : ∀ s i j, I s → A i → A j → key i ≠ key j →
      (f s i >>= fun s' => f s' j) = (f s j >>= fun s' => f s' i))
    (a : ι) (ha : A a) (q : List ι) :
    ∀ (p : List ι) (s : σ), I s → (∀ i ∈ p, A i) → (∀ i ∈ p, key i ≠ key a) →
      (p ++ a :: q).foldlM f s = (a :: (p ++ q)).foldlM f s := by
  intro p
  induction p with
  | nil => intro s _ _ _; rfl
  | cons b p ih =>
    intro s hs hA hkey
    have hb : A b := hA b List.mem_cons_self
    -- Past the rest of `p` first, and then past `b` itself.
    have hrest : (f s b >>= fun s' => (p ++ a :: q).foldlM f s')
        = f s b >>= fun s' => (a :: (p ++ q)).foldlM f s' := by
      cases h : f s b with
      | error e => rfl
      | ok s' =>
        exact ih s' (hpres s b s' hs hb h) (fun i hi => hA i (List.mem_cons_of_mem _ hi))
          (fun i hi => hkey i (List.mem_cons_of_mem _ hi))
    rw [List.cons_append, List.foldlM_cons, hrest]
    simp only [List.cons_append, List.foldlM_cons]
    rw [← bind_assoc, ← bind_assoc, hcomm s b a hs hb ha (hkey b List.mem_cons_self)]

/-- Inputs with different keys can be reordered. Two lists whose inputs of each key are the
same, in the same order, fold to the same result. The induction takes the head of the first
list and moves its occurrence in the second list to the front. -/
theorem foldlM_reorder (key : ι → κ)
    (hpres : ∀ s i s', I s → A i → f s i = .ok s' → I s')
    (hcomm : ∀ s i j, I s → A i → A j → key i ≠ key j →
      (f s i >>= fun s' => f s' j) = (f s j >>= fun s' => f s' i)) :
    ∀ (l l' : List ι) (s : σ), I s → (∀ i ∈ l, A i) →
      (∀ k, l.filter (key · = k) = l'.filter (key · = k)) →
      l.foldlM f s = l'.foldlM f s := by
  intro l
  induction l with
  | nil =>
    intro l' s _ _ hproj
    cases l' with
    | nil => rfl
    | cons b l' =>
      have := hproj (key b)
      simp at this
  | cons a l ih =>
    intro l' s hs hA hproj
    -- The first input of `l'` with the key of `a` is `a`; `p` is what stands before it.
    have hhead : l'.filter (key · = key a) = a :: l.filter (key · = key a) := by
      rw [← hproj (key a), List.filter_cons_of_pos (by simp)]
    obtain ⟨p, q, rfl, hp, -, hq⟩ := List.filter_eq_cons_iff.mp hhead
    have hp' : ∀ i ∈ p, key i ≠ key a := fun i hi => by simpa using hp i hi
    have hAp : ∀ i ∈ p ++ a :: q, A i := by
      intro i hi
      have hmem : i ∈ (p ++ a :: q).filter (key · = key i) := List.mem_filter.mpr ⟨hi, by simp⟩
      rw [← hproj (key i)] at hmem
      exact hA i (List.mem_filter.mp hmem).1
    have ha : A a := hA a List.mem_cons_self
    rw [foldlM_move_front hpres hcomm a ha q p s hs
      (fun i hi => hAp i (List.mem_append_left _ hi)) hp', List.foldlM_cons, List.foldlM_cons]
    cases h : f s a with
    | error e => rfl
    | ok s' =>
      refine ih (p ++ q) s' (hpres s a s' hs ha h)
        (fun i hi => hA i (List.mem_cons_of_mem _ hi)) (fun k => ?_)
      -- Without the two occurrences of `a` the inputs of each key still agree.
      have hk := hproj k
      by_cases hka : key a = k
      · subst hka
        have hnone : p.filter (key · = key a) = [] :=
          List.filter_eq_nil_iff.mpr fun i hi => by simpa using hp' i hi
        rw [List.filter_append, hnone, hq, List.nil_append]
      · simpa [List.filter_cons, hka] using hk

end Reorder

end Harjus.Lib
