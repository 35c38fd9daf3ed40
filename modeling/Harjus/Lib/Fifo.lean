import Harjus.Lib.Machine

/-!
# `Harjus.Lib.Fifo`: bounded queues, and machines that pass elements on in order

`Fifo α capacity` is a queue of at most `capacity` elements. `push` stores an element and
says `true` when there is room, and stores nothing and says `false` when there is none. `pop`
takes the oldest element.

The second part is about machines whose outputs show what goes in (`accepted`) and what comes
out (`delivered`):

* `Machine.Along`: a predicate holds of every state and input along a run. `along_append` puts
  two runs together.
* `run_tracks_along`: what every such step preserves of a state and the outputs so far, every
  run along the predicate does.
* `run_conserves`: when no step loses, doubles or overtakes an element, no run does.
* `delivered_prefix`: in such a run from an empty state the delivered elements are a prefix
  of the accepted ones.

The module names no program.
-/

set_option autoImplicit false

namespace Harjus.Lib

/-- A queue of at most `capacity` elements, oldest first. -/
@[ext]
structure Fifo (α : Type*) (capacity : ℕ) where
  items : List α
  bounded : items.length ≤ capacity

namespace Fifo

variable {α : Type*} {capacity : ℕ}

/-- The queue without elements. -/
def empty : Fifo α capacity := ⟨[], Nat.zero_le _⟩

/-- Append an element if there is room, and say whether there was. -/
def push (q : Fifo α capacity) (a : α) : Bool × Fifo α capacity :=
  if h : q.items.length < capacity then
    (true, ⟨q.items ++ [a], by rw [List.length_append]; exact h⟩)
  else (false, q)

/-- Take the oldest element. -/
def pop (q : Fifo α capacity) : Option (α × Fifo α capacity) :=
  match h : q.items with
  | [] => none
  | a :: items =>
    some (a, ⟨items, Nat.le_of_succ_le (by simpa only [h, List.length_cons] using q.bounded)⟩)

/-- A push that finds room appends. -/
theorem items_push {q : Fifo α capacity} (h : q.items.length < capacity) (a : α) :
    (q.push a).2.items = q.items ++ [a] := by
  rw [push, dif_pos h]

/-- A push that finds no room changes nothing. -/
theorem push_of_full {q : Fifo α capacity} (h : ¬ q.items.length < capacity) (a : α) :
    q.push a = (false, q) := by
  rw [push, dif_neg h]

/-- A pop finds nothing, or the head of the queue. -/
theorem pop_cases (q : Fifo α capacity) :
    q.items = [] ∧ q.pop = none ∨ ∃ a q', q.pop = some (a, q') ∧ q.items = a :: q'.items := by
  obtain ⟨items, hitems⟩ := q
  cases items with
  | nil => exact .inl ⟨rfl, rfl⟩
  | cons a items => exact .inr ⟨a, _, rfl, rfl⟩

/-- A popped element was the head of the queue. -/
theorem items_of_pop {q q' : Fifo α capacity} {a : α} (h : q.pop = some (a, q')) :
    q.items = a :: q'.items := by
  rcases q.pop_cases with ⟨-, hnone⟩ | ⟨b, rest, hsome, hitems⟩
  · rw [hnone] at h
    cases h
  · rw [hsome] at h
    cases h
    exact hitems

/-- Nothing comes out of an empty queue. -/
theorem pop_of_items_nil {q : Fifo α capacity} (h : q.items = []) : q.pop = none := by
  rcases q.pop_cases with ⟨-, hnone⟩ | ⟨b, rest, -, hitems⟩
  · exact hnone
  · rw [h] at hitems
    cases hitems

/-- The oldest item comes out first. -/
theorem pop_of_items_cons {q : Fifo α capacity} {a : α} {items : List α}
    (h : q.items = a :: items) : ∃ q', q.pop = some (a, q') ∧ q'.items = items := by
  rcases q.pop_cases with ⟨hnil, -⟩ | ⟨b, rest, hsome, hitems⟩
  · rw [h] at hnil
    cases hnil
  · rw [h] at hitems
    cases hitems
    exact ⟨rest, hsome, rfl⟩

end Fifo

namespace Machine

variable {σ ι ο ε α : Type*} (M : Machine σ ι ο ε)

/-- The predicate holds of every state and the input taken there, along a run. -/
def Along (P : σ → ι → Prop) : σ → List ι → Prop
  | _, [] => True
  | s, i :: is => P s i ∧ ∀ s' os, M.step s i = .ok (s', os) → Along P s' is

variable {M} {P : σ → ι → Prop}

/-- Along two lists is along the first, and along the second from where it ends. -/
theorem along_append {is is' : List ι} {s s' : σ} {out : List ο} (h : M.Along P s is)
    (hrun : M.run s is = .ok (s', out)) (h' : M.Along P s' is') :
    M.Along P s (is ++ is') := by
  induction is generalizing s out with
  | nil =>
    cases hrun
    exact h'
  | cons i is ih =>
    obtain ⟨t, os, os', hone, hrest, -⟩ := (run_cons M).mp hrun
    refine ⟨h.1, fun u os hstep => ?_⟩
    rw [hone] at hstep
    cases hstep
    exact ih (h.2 _ _ hone) hrest

/-- What every step along the predicate preserves of a state and the outputs so far, every
run does. -/
theorem run_tracks_along {T : σ → List ο → Prop}
    (hstep : ∀ s out i s' os, T s out → P s i → M.step s i = .ok (s', os) → T s' (out ++ os)) :
    ∀ {is : List ι} {s s' : σ} {out out' : List ο}, T s out → M.Along P s is →
      M.run s is = .ok (s', out') → T s' (out ++ out') := by
  intro is
  induction is with
  | nil =>
    intro s s' out out' hs _ h
    cases h
    rwa [List.append_nil]
  | cons i is ih =>
    intro s s' out out' hs halong h
    obtain ⟨t, os, os', hone, hrun, rfl⟩ := (run_cons M).mp h
    rw [← List.append_assoc]
    exact ih (hstep s out i t os hs halong.1 hone) (halong.2 t os hone) hrun

variable {content : σ → List α} {accepted delivered : ο → Option α}

/-- What is held and comes in is what goes out and is held, in this order: if each step keeps
it so, a run does. -/
theorem run_conserves
    (hstep : ∀ s i s' os, P s i → M.step s i = .ok (s', os) →
      content s ++ os.filterMap accepted = os.filterMap delivered ++ content s') :
    ∀ {is : List ι} {s s' : σ} {out : List ο}, M.Along P s is → M.run s is = .ok (s', out) →
      content s ++ out.filterMap accepted = out.filterMap delivered ++ content s' := by
  intro is
  induction is with
  | nil =>
    intro s s' out _ h
    cases h
    exact List.append_nil _
  | cons i is ih =>
    intro s s' out halong h
    obtain ⟨t, os, os', hone, hrun, rfl⟩ := (run_cons M).mp h
    calc content s ++ (os ++ os').filterMap accepted
        = (content s ++ os.filterMap accepted) ++ os'.filterMap accepted := by
          rw [List.filterMap_append, List.append_assoc]
      _ = os.filterMap delivered ++ (content t ++ os'.filterMap accepted) := by
          rw [hstep s i t os halong.1 hone, List.append_assoc]
      _ = (os ++ os').filterMap delivered ++ content s' := by
          rw [ih (halong.2 t os hone) hrun, List.filterMap_append, List.append_assoc]

/-- From an empty state, what was delivered is a prefix of what was accepted. -/
theorem delivered_prefix
    (hstep : ∀ s i s' os, P s i → M.step s i = .ok (s', os) →
      content s ++ os.filterMap accepted = os.filterMap delivered ++ content s')
    {is : List ι} {s s' : σ} {out : List ο} (hempty : content s = [])
    (halong : M.Along P s is) (h : M.run s is = .ok (s', out)) :
    out.filterMap delivered <+: out.filterMap accepted := by
  have hrun := run_conserves hstep halong h
  rw [hempty, List.nil_append] at hrun
  exact ⟨content s', hrun.symm⟩

end Machine

end Harjus.Lib
