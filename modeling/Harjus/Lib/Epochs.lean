import Mathlib.Data.List.DropRight

/-!
# `Harjus.Lib.Epochs`: logs that start again

A log grows at its end, and some of its entries start a new epoch.

* `Since restart log x`: `x` is an entry of the last epoch of the log.
* `InEpochs restart R log`: of any two entries in one epoch, the earlier is in `R` to the later.

Both have a lemma for a log that has grown by an entry (`since_concat`, `inEpochs_concat`), from
which an invariant of a machine that writes the log is proved step by step. On `lastEpoch`, the
entries of the last epoch, `InEpochs` is `List.Pairwise` (`InEpochs.pairwise_lastEpoch`).

The module names no program.
-/

set_option autoImplicit false

namespace Harjus.Lib

variable {α : Type*} {restart : α → Bool} {R : α → α → Prop} {log : List α} {x y : α}

/-- The entry `x` stands in the log, and no later entry is a restart. -/
def Since (restart : α → Bool) (log : List α) (x : α) : Prop :=
  ∃ before later, log = before ++ x :: later ∧ ∀ y ∈ later, restart y = false

/-- Of two entries without a restart between them, the earlier is in `R` to the later. -/
def InEpochs (restart : α → Bool) (R : α → α → Prop) (log : List α) : Prop :=
  ∀ before x between y later, log = before ++ x :: (between ++ y :: later) →
    (∀ z ∈ between, restart z = false) → R x y

/-- Nothing stands in an empty log. -/
theorem not_since_nil : ¬ Since restart [] x := by
  rintro ⟨before, later, h, -⟩
  simp at h

/-- The last epoch of a log that has grown by `y`. -/
theorem since_concat :
    Since restart (log ++ [y]) x ↔ x = y ∨ (Since restart log x ∧ restart y = false) := by
  constructor
  · rintro ⟨before, later, h, hlater⟩
    cases List.eq_nil_or_concat later with
    | inl hnil =>
      subst hnil
      left
      simpa using (List.append_inj' h rfl).2.symm
    | inr hconcat =>
      obtain ⟨later', z, rfl⟩ := hconcat
      have h' : log ++ [y] = (before ++ x :: later') ++ [z] := by simpa using h
      obtain ⟨hlog, hz⟩ := List.append_inj' h' rfl
      cases hz
      right
      refine ⟨⟨before, later', hlog, fun w hw => hlater w ?_⟩, hlater y (by simp)⟩
      simp [hw]
  · intro h
    cases h with
    | inl h =>
      subst h
      exact ⟨log, [], rfl, by simp⟩
    | inr h =>
      obtain ⟨⟨before, later, rfl, hlater⟩, hy⟩ := h
      refine ⟨before, later ++ [y], by simp, fun z hz => ?_⟩
      cases List.mem_append.mp hz with
      | inl hz => exact hlater z hz
      | inr hz =>
        rw [List.mem_singleton.mp hz]
        exact hy

/-- An empty log has no two entries. -/
theorem inEpochs_nil : InEpochs restart R [] := by
  intro before x between y later h
  simp at h

/-- A log that has grown by `y`. -/
theorem inEpochs_concat :
    InEpochs restart R (log ++ [y]) ↔
      InEpochs restart R log ∧ ∀ x, Since restart log x → R x y := by
  constructor
  · intro h
    refine ⟨fun before x between z later hlog hbetween => ?_, fun x hx => ?_⟩
    · exact h before x between z (later ++ [y]) (by simp [hlog]) hbetween
    · obtain ⟨before, later, rfl, hlater⟩ := hx
      exact h before x later y [] (by simp) hlater
  · rintro ⟨hlog, hlast⟩ before x between z later h hbetween
    cases List.eq_nil_or_concat later with
    | inl hnil =>
      subst hnil
      have h' : log ++ [y] = (before ++ x :: between) ++ [z] := by simpa using h
      obtain ⟨hlog', hz⟩ := List.append_inj' h' rfl
      cases hz
      exact hlast x ⟨before, between, hlog', hbetween⟩
    | inr hconcat =>
      obtain ⟨later', w, rfl⟩ := hconcat
      have h' : log ++ [y] = (before ++ x :: (between ++ z :: later')) ++ [w] := by simpa using h
      exact hlog before x between z later' (List.append_inj' h' rfl).1 hbetween

/-- In a log without restarts any two entries are related. -/
theorem InEpochs.pairwise (h : InEpochs restart R log) (hlog : ∀ y ∈ log, restart y = false) :
    log.Pairwise R := by
  induction log with
  | nil => exact .nil
  | cons x log ih =>
    refine List.pairwise_cons.mpr ⟨fun y hy => ?_, ih ?_ fun y hy => hlog y (by simp [hy])⟩
    · obtain ⟨between, later, rfl⟩ := List.append_of_mem hy
      exact h [] x between y later rfl fun z hz => hlog z (by simp [hz])
    · intro before x' between y later heq hbetween
      exact h (x :: before) x' between y later (by simp [heq]) hbetween

/-! ### The last epoch -/

/-- The entries of the last epoch, in order. -/
def lastEpoch (restart : α → Bool) (log : List α) : List α :=
  log.rtakeWhile fun y => !restart y

/-- The last epoch has no restart in it. -/
theorem restart_of_mem_lastEpoch (h : x ∈ lastEpoch restart log) : restart x = false := by
  simpa using List.mem_rtakeWhile_imp h

/-- The last epoch of an empty log is empty. -/
@[simp] theorem lastEpoch_nil : lastEpoch restart [] = [] := rfl

/-- The last epoch of a log that has grown by `y`. -/
theorem lastEpoch_concat :
    lastEpoch restart (log ++ [y]) = if restart y then [] else lastEpoch restart log ++ [y] := by
  cases h : restart y with
  | false => exact List.rtakeWhile_concat_pos _ _ _ (by simp [h])
  | true => exact List.rtakeWhile_concat_neg _ _ _ (by simp [h])

/-- The last epoch has the entries after the last restart. -/
theorem mem_lastEpoch :
    x ∈ lastEpoch restart log ↔ Since restart log x ∧ restart x = false := by
  induction log using List.reverseRecOn with
  | nil => simp [not_since_nil]
  | append_singleton log y ih =>
    rw [lastEpoch_concat, since_concat]
    split
    · rename_i hy
      constructor
      · intro h
        cases h
      · rintro ⟨rfl | h, hx⟩
        · simp [hx] at hy
        · simp [h.2] at hy
    · rename_i hy
      rw [List.mem_append, List.mem_singleton, ih]
      constructor
      · rintro (h | rfl)
        · exact ⟨Or.inr ⟨h.1, by simpa using hy⟩, h.2⟩
        · exact ⟨Or.inl rfl, by simpa using hy⟩
      · rintro ⟨rfl | h, hx⟩
        · exact Or.inr rfl
        · exact Or.inl ⟨h.1, hx⟩

/-- The last epoch is the end of the log. -/
theorem lastEpoch_suffix (restart : α → Bool) (log : List α) :
    ∃ before, log = before ++ lastEpoch restart log := by
  obtain ⟨before, h⟩ := List.rtakeWhile_suffix (fun y => !restart y) log
  exact ⟨before, h.symm⟩

/-- Any two entries of the last epoch are related. -/
theorem InEpochs.pairwise_lastEpoch (h : InEpochs restart R log) :
    (lastEpoch restart log).Pairwise R := by
  obtain ⟨before, hlog⟩ := lastEpoch_suffix restart log
  have hlast : InEpochs restart R (lastEpoch restart log) := by
    intro front x between y later heq hbetween
    refine h (before ++ front) x between y later ?_ hbetween
    rw [List.append_assoc, ← heq]
    exact hlog
  exact hlast.pairwise fun y hy => restart_of_mem_lastEpoch hy

end Harjus.Lib
