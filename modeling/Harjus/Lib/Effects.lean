import Mathlib.Logic.Relation

/-!
# `Harjus.Lib.Effects`: what a computation does to its state

A computation of `EStateM` starts in a state and ends in another, with a result or with an
exception. Where it throws, the state keeps what it has done so far.

* `after x s`: the state in which `x` ends.
* `Reaches R x s`: `x` leads from `s` to its last state by steps of `R`. `Reaches.bind` puts two
  computations together, where the second may use what the first has established.
* `Steps R x`: the same from every state, with a rule for each way to build a computation:
  `bind`, `ite`, `tryCatch`, `foldlM`.

The module names no program.
-/

set_option autoImplicit false

namespace Harjus.Lib

variable {ε σ α β : Type}

/-- The state in which a computation ends, with a result or with an exception. -/
def after (x : EStateM ε σ α) (s : σ) : σ :=
  match x s with
  | .ok _ s' => s'
  | .error _ s' => s'

/-- After a computation that returns, the state is the one it returns with. -/
theorem after_of_ok {x : EStateM ε σ α} {s s' : σ} {a : α} (h : x s = .ok a s') :
    after x s = s' := by
  rw [after, h]

/-- After a computation that throws, the state is the one it throws with. -/
theorem after_of_error {x : EStateM ε σ α} {s s' : σ} {e : ε} (h : x s = .error e s') :
    after x s = s' := by
  rw [after, h]

/-- Returning a value keeps the state. -/
@[simp] theorem after_pure (a : α) (s : σ) : after (pure a : EStateM ε σ α) s = s := rfl

/-- Throwing keeps the state. -/
@[simp] theorem after_throw (e : ε) (s : σ) : after (throw e : EStateM ε σ α) s = s := rfl

/-- Reading the state keeps it. -/
@[simp] theorem after_get (s : σ) : after (get : EStateM ε σ σ) s = s := rfl

/-- Changing the state leaves the changed one. -/
@[simp] theorem after_modify (f : σ → σ) (s : σ) :
    after (modify f : EStateM ε σ PUnit) s = f s := rfl

/-! ### Two computations in a row -/

/-- A computation that returns goes on from its state with its value. -/
theorem bind_of_ok {x : EStateM ε σ α} {f : α → EStateM ε σ β} {s s' : σ} {a : α}
    (h : x s = .ok a s') : (x >>= f) s = f a s' := by
  show EStateM.bind x f s = f a s'
  rw [EStateM.bind, h]

/-- A computation that throws skips what follows. -/
theorem bind_of_error {x : EStateM ε σ α} {f : α → EStateM ε σ β} {s s' : σ} {e : ε}
    (h : x s = .error e s') : (x >>= f) s = .error e s' := by
  show EStateM.bind x f s = .error e s'
  rw [EStateM.bind, h]

/-- Two computations in a row return when both do. -/
theorem bind_eq_ok {x : EStateM ε σ α} {f : α → EStateM ε σ β} {s s'' : σ} {b : β} :
    (x >>= f) s = .ok b s'' ↔ ∃ a s', x s = .ok a s' ∧ f a s' = .ok b s'' := by
  cases h : x s with
  | ok a s' =>
    rw [bind_of_ok h]
    constructor
    · intro hf
      exact ⟨a, s', rfl, hf⟩
    · rintro ⟨a', s₁, heq, hf⟩
      cases heq
      exact hf
  | error e s' =>
    rw [bind_of_error h]
    constructor
    · intro hf
      cases hf
    · rintro ⟨a', s₁, heq, -⟩
      cases heq

/-- Returning a value, run from a state. -/
@[simp] theorem pure_run (a : α) (s : σ) : (pure a : EStateM ε σ α) s = .ok a s := rfl

/-- Throwing, run from a state. -/
@[simp] theorem throw_run (e : ε) (s : σ) : (throw e : EStateM ε σ α) s = .error e s := rfl

/-- What follows a read of the state is given the state. -/
@[simp] theorem get_bind (f : σ → EStateM ε σ β) (s : σ) : (get >>= f) s = f s s := rfl

/-- Changing the state, run from a state. -/
@[simp] theorem modify_run (g : σ → σ) (s : σ) :
    (modify g : EStateM ε σ PUnit) s = .ok ⟨⟩ (g s) := rfl

/-- What follows a change runs from the changed state. -/
@[simp] theorem modify_bind (g : σ → σ) (f : PUnit → EStateM ε σ β) (s : σ) :
    (modify g >>= f) s = f ⟨⟩ (g s) := rfl

/-- What follows a value is given the value. -/
@[simp] theorem pure_bind_run (a : α) (f : α → EStateM ε σ β) (s : σ) :
    (pure a >>= f) s = f a s := rfl

/-- Nothing follows a throw. -/
@[simp] theorem throw_bind (e : ε) (f : α → EStateM ε σ β) (s : σ) :
    (throw e >>= f) s = .error e s := rfl

/-- A choice of computations, run from a state, is the choice of the runs. -/
theorem ite_run {p : Prop} [Decidable p] (x y : EStateM ε σ α) (s : σ) :
    (if p then x else y) s = if p then x s else y s := by
  split <;> rfl

/-- A handler is not asked where the computation returns. -/
theorem tryCatch_of_ok {x : EStateM ε σ α} {handler : ε → EStateM ε σ α} {s s' : σ} {a : α}
    (h : x s = .ok a s') : tryCatch x handler s = .ok a s' := by
  show EStateM.tryCatch x handler s = .ok a s'
  delta EStateM.tryCatch
  rw [h]

/-- A handler goes on from the state of the throw. -/
theorem tryCatch_of_error {x : EStateM ε σ α} {handler : ε → EStateM ε σ α} {s s' : σ} {e : ε}
    (h : x s = .error e s') : tryCatch x handler s = handler e s' := by
  show EStateM.tryCatch x handler s = handler e s'
  delta EStateM.tryCatch
  rw [h]
  rfl

/-- The state after a read and what follows. -/
theorem after_get_bind (f : σ → EStateM ε σ β) (s : σ) : after (get >>= f) s = after (f s) s := rfl

/-- The state after two computations, of which the first returns. -/
theorem after_bind_of_ok {x : EStateM ε σ α} {f : α → EStateM ε σ β} {s s' : σ} {a : α}
    (h : x s = .ok a s') : after (x >>= f) s = after (f a) s' := by
  rw [after, bind_of_ok h]
  rfl

/-- The state after a choice of computations. -/
theorem after_ite {p : Prop} [Decidable p] (x y : EStateM ε σ α) (s : σ) :
    after (if p then x else y) s = if p then after x s else after y s := by
  split <;> rfl

/-- A result that is not looked at. -/
theorem after_bind_pure (x : EStateM ε σ α) (b : β) (s : σ) :
    after (x >>= fun _ => pure b) s = after x s := by
  cases h : x s with
  | ok a s' =>
    rw [after_bind_of_ok h, after_of_ok h]
    rfl
  | error e s' => rw [after_of_error (bind_of_error h), after_of_error h]

/-! ### Steps of a relation -/

variable {R : σ → σ → Prop}

/-- From `s`, the computation leads to its last state by steps of `R`. -/
def Reaches (R : σ → σ → Prop) (x : EStateM ε σ α) (s : σ) : Prop :=
  Relation.ReflTransGen R s (after x s)

/-- The computation does nothing but steps of `R`. -/
def Steps (R : σ → σ → Prop) (x : EStateM ε σ α) : Prop := ∀ s, Reaches R x s

/-- A computation that reaches a state by steps reaches the one it returns with. -/
theorem Reaches.ok {x : EStateM ε σ α} {s s' : σ} {a : α} (hx : Reaches R x s)
    (h : x s = .ok a s') : Relation.ReflTransGen R s s' := by
  rwa [Reaches, after_of_ok h] at hx

/-- Two computations, of which the second goes on where the first has returned. -/
theorem Reaches.bind {x : EStateM ε σ α} {f : α → EStateM ε σ β} {s : σ} (hx : Reaches R x s)
    (hf : ∀ a s', x s = .ok a s' → Reaches R (f a) s') : Reaches R (x >>= f) s := by
  cases h : x s with
  | ok a s' =>
    show Relation.ReflTransGen R s (after (x >>= f) s)
    rw [after, bind_of_ok h]
    exact (hx.ok h).trans (hf a s' h)
  | error e s' =>
    rw [Reaches, after_of_error h] at hx
    show Relation.ReflTransGen R s (after (x >>= f) s)
    rw [after_of_error (bind_of_error h)]
    exact hx

/-- A computation reaches a state that it is known to end in. -/
theorem Reaches.of_eq {x : EStateM ε σ α} {s s' : σ} (h : after x s = s')
    (hs : Relation.ReflTransGen R s s') : Reaches R x s := by
  show Relation.ReflTransGen R s (after x s)
  rwa [h]

/-- A read in front does no step. -/
theorem Reaches.get_bind {f : σ → EStateM ε σ β} {s : σ} (h : Reaches R (f s) s) :
    Reaches R (get >>= f) s := h

/-- Both sides of a choice may use its condition. -/
theorem Reaches.ite {p : Prop} [Decidable p] {x y : EStateM ε σ α} {s : σ}
    (hx : p → Reaches R x s) (hy : ¬ p → Reaches R y s) : Reaches R (if p then x else y) s := by
  split
  · rename_i h
    exact hx h
  · rename_i h
    exact hy h

/-- The handler goes on where the computation has thrown. -/
theorem Reaches.tryCatch {x : EStateM ε σ α} {handler : ε → EStateM ε σ α} {s : σ}
    (hx : Reaches R x s) (hhandler : ∀ e s', x s = .error e s' → Reaches R (handler e) s') :
    Reaches R (tryCatch x handler) s := by
  cases h : x s with
  | ok a s' => exact Reaches.of_eq (after_of_ok (tryCatch_of_ok h)) (hx.ok h)
  | error e s' =>
    rw [Reaches, after_of_error h] at hx
    refine Reaches.of_eq ?_ (hx.trans (hhandler e s' h))
    rw [after, tryCatch_of_error h]
    rfl

namespace Steps

/-- Returning a value does no step. -/
theorem pure (a : α) : Steps R (Pure.pure a : EStateM ε σ α) := fun _ => .refl

/-- Throwing does no step. -/
theorem throw (e : ε) : Steps R (MonadExcept.throw e : EStateM ε σ α) := fun _ => .refl

/-- Reading the state does no step. -/
theorem get : Steps R (MonadState.get : EStateM ε σ σ) := fun _ => .refl

/-- A change is one step. -/
theorem modify {f : σ → σ} (h : ∀ s, R s (f s)) : Steps R (modify f : EStateM ε σ PUnit) :=
  fun s => .single (h s)

/-- The steps of two computations, one after the other. -/
theorem bind {x : EStateM ε σ α} {f : α → EStateM ε σ β} (hx : Steps R x)
    (hf : ∀ a, Steps R (f a)) : Steps R (x >>= f) :=
  fun s => (hx s).bind fun a s' _ => hf a s'

/-- The steps of the computation that is chosen. -/
theorem ite {p : Prop} [Decidable p] {x y : EStateM ε σ α} (hx : Steps R x) (hy : Steps R y) :
    Steps R (if p then x else y) :=
  fun s => Reaches.ite (fun _ => hx s) fun _ => hy s

/-- Where the branches use what the condition says. -/
theorem ite' {p : Prop} [Decidable p] {x y : EStateM ε σ α} (hx : p → Steps R x)
    (hy : ¬ p → Steps R y) : Steps R (if p then x else y) :=
  fun s => Reaches.ite (fun h => hx h s) fun h => hy h s

/-- The steps of the computation, and of the handler where it throws. -/
theorem tryCatch {x : EStateM ε σ α} {handler : ε → EStateM ε σ α} (hx : Steps R x)
    (hhandler : ∀ e, Steps R (handler e)) : Steps R (tryCatch x handler) :=
  fun s => (hx s).tryCatch fun e s' _ => hhandler e s'

/-- A computation that does steps of one relation does steps of a wider one. -/
theorem mono {R' : σ → σ → Prop} {x : EStateM ε σ α} (hx : Steps R x)
    (h : ∀ s s', R s s' → R' s s') : Steps R' x :=
  fun s => Relation.ReflTransGen.mono h _ _ (hx s)

end Steps

end Harjus.Lib
