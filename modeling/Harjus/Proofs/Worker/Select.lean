import Harjus.Proofs.Sizing
import Harjus.Worker

/-!
# `Harjus.Proofs.Worker.Select`: the choice of an opportunity

`selectBest` updates the affected opportunities one by one and keeps the best candidate.

* `evaluated w i` is what the loop makes of opportunity `i`, whether it visits it once or
  several times: `update` reads no quantity that an earlier update left.
* `Eligible w i`: the starting asset has a positive balance, the evaluated profit is
  positive and no symbol of the path is reserved.
* `selectBest_spec`: the loop evaluates exactly the affected opportunities, and its choice is
  an affected eligible one of maximal profit, or none when no affected one is eligible.
-/

set_option autoImplicit false

namespace Harjus.Worker

variable {n : ℕ}

/-- Opportunity `i` after its visit in the loop of `processPriceUpdate`. -/
def evaluated (w : Worker n) (i : Fin n) : Opportunity :=
  match w.balance.lookup (w.opportunityList i).startingAsset with
  | none => w.opportunityList i
  | some budget =>
    if budget ≤ 0 then w.opportunityList i
    else (w.opportunityList i).update w.book budget

/-- Opportunity `i` may be started: it has a budget and a profit, and its symbols are
free. -/
def Eligible (w : Worker n) (i : Fin n) : Prop :=
  (∃ budget, w.balance.lookup (w.opportunityList i).startingAsset = some budget ∧ 0 < budget) ∧
    0 < (w.evaluated i).totalProfit ∧ ∀ s ∈ (w.evaluated i).symbols, s ∉ w.reservedTrades

/-- The state of the loop after the opportunities `visited`. -/
structure Selected (w : Worker n) (visited : List (Fin n))
    (state : (Fin n → Opportunity) × Option (Fin n)) : Prop where
  list : ∀ i, state.1 i = if i ∈ visited then w.evaluated i else w.opportunityList i
  none : state.2 = none → ∀ i ∈ visited, ¬ w.Eligible i
  some : ∀ b, state.2 = some b → b ∈ visited ∧ w.Eligible b ∧
    ∀ i ∈ visited, w.Eligible i → (w.evaluated i).totalProfit ≤ (w.evaluated b).totalProfit

/-- With a budget a path is updated with it. -/
theorem evaluated_of_budget {w : Worker n} {i : Fin n} {budget : PreciseNumber}
    (h : w.balance.lookup (w.opportunityList i).startingAsset = some budget)
    (hpos : 0 < budget) : w.evaluated i = (w.opportunityList i).update w.book budget := by
  unfold evaluated
  rw [h]
  exact if_neg (PreciseNumber.not_le.mpr hpos)

/-- Without a budget a path stays as it was. -/
theorem evaluated_of_no_budget {w : Worker n} {i : Fin n}
    (h : ¬ ∃ budget, w.balance.lookup (w.opportunityList i).startingAsset = some budget ∧
      0 < budget) : w.evaluated i = w.opportunityList i := by
  unfold evaluated
  split
  · rfl
  · rename_i budget hlookup
    exact if_pos (PreciseNumber.not_lt.mp fun hpos => h ⟨budget, hlookup, hpos⟩)

/-- Evaluating keeps the path. -/
theorem samePath_evaluated (w : Worker n) (i : Fin n) :
    (w.evaluated i).SamePath (w.opportunityList i) := by
  unfold evaluated
  split
  · exact Opportunity.SamePath.refl _
  · split
    · exact Opportunity.SamePath.refl _
    · exact Opportunity.samePath_update _ _ _

/-- Inside the loop, opportunity `i` is still the path it was, so its update gives
`evaluated`. -/
theorem Selected.samePath {w : Worker n} {visited : List (Fin n)}
    {state : (Fin n → Opportunity) × Option (Fin n)} (h : w.Selected visited state)
    (i : Fin n) : (state.1 i).SamePath (w.opportunityList i) := by
  rw [h.list i]
  split
  · exact w.samePath_evaluated i
  · exact Opportunity.SamePath.refl _

/-- Before any candidate there is no best one. -/
theorem selected_nil (w : Worker n) : w.Selected [] (w.opportunityList, none) where
  list i := by simp
  none := by simp
  some := by simp

/-- The list after a visit that writes `evaluated`. -/
private theorem Selected.list_visit {w : Worker n} {visited : List (Fin n)}
    {state : (Fin n → Opportunity) × Option (Fin n)} (h : w.Selected visited state)
    {i : Fin n} {list : Fin n → Opportunity}
    (hlist : ∀ j, list j = if j = i then w.evaluated i else state.1 j) (j : Fin n) :
    list j = if j ∈ visited ++ [i] then w.evaluated j else w.opportunityList j := by
  rw [hlist j, h.list j]
  by_cases hj : j = i
  · subst hj
    simp
  · simp [hj]

/-- A visit that writes `evaluated` and leaves the choice as it is. -/
private theorem Selected.keep {w : Worker n} {visited : List (Fin n)}
    {state : (Fin n → Opportunity) × Option (Fin n)} (h : w.Selected visited state)
    {i : Fin n} {list : Fin n → Opportunity}
    (hlist : ∀ j, list j = if j = i then w.evaluated i else state.1 j)
    (hi : w.Eligible i → ∃ b, state.2 = Option.some b ∧
      (w.evaluated i).totalProfit ≤ (w.evaluated b).totalProfit) :
    w.Selected (visited ++ [i]) (list, state.2) where
  list := h.list_visit hlist
  none hnone j hj := by
    rcases List.mem_append.mp hj with hj | hj
    · exact h.none hnone j hj
    · rw [List.mem_singleton.mp hj]
      intro helig
      obtain ⟨b, hb, -⟩ := hi helig
      rw [hnone] at hb
      cases hb
  some b hb := by
    obtain ⟨hmem, helig, hmax⟩ := h.some b hb
    refine ⟨List.mem_append_left _ hmem, helig, fun j hj hjelig => ?_⟩
    rcases List.mem_append.mp hj with hj | hj
    · exact hmax j hj hjelig
    · rw [List.mem_singleton.mp hj] at hjelig ⊢
      obtain ⟨b', hb', hle⟩ := hi hjelig
      rw [hb, Option.some.injEq] at hb'
      rwa [hb']

/-- A visit that writes `evaluated` and chooses it. -/
private theorem Selected.choose {w : Worker n} {visited : List (Fin n)}
    {state : (Fin n → Opportunity) × Option (Fin n)} (h : w.Selected visited state)
    {i : Fin n} {list : Fin n → Opportunity}
    (hlist : ∀ j, list j = if j = i then w.evaluated i else state.1 j)
    (hi : w.Eligible i)
    (hbest : ∀ b, state.2 = Option.some b →
      (w.evaluated b).totalProfit ≤ (w.evaluated i).totalProfit) :
    w.Selected (visited ++ [i]) (list, Option.some i) where
  list := h.list_visit hlist
  none hnone := by cases hnone
  some b hb := by
    cases hb
    refine ⟨by simp, hi, fun j hj hjelig => ?_⟩
    rcases List.mem_append.mp hj with hj | hj
    · cases hstate : state.2 with
      | none => exact absurd hjelig (h.none hstate j hj)
      | some b => exact ((h.some b hstate).2.2 j hj hjelig).trans (hbest b hstate)
    · rw [List.mem_singleton.mp hj]

/-- A visit of an opportunity with a budget writes it as evaluated. -/
private theorem Selected.visit_budget {w : Worker n} {visited : List (Fin n)}
    {state : (Fin n → Opportunity) × Option (Fin n)} (h : w.Selected visited state)
    {i : Fin n} {budget : PreciseNumber}
    (hlookup : w.balance.lookup (w.opportunityList i).startingAsset = Option.some budget)
    (hpos : 0 < budget) :
    w.Selected (visited ++ [i])
      (considerOpportunity w.book w.balance w.reservedTrades state i) := by
  have hpath := h.samePath i
  have heval : (state.1 i).update w.book budget = w.evaluated i := by
    rw [evaluated_of_budget hlookup hpos, Opportunity.update_eq_of_samePath hpath]
  have hlist : ∀ j, Function.update state.1 i (w.evaluated i) j
      = if j = i then w.evaluated i else state.1 j := fun j => Function.update_apply _ _ _ _
  unfold considerOpportunity
  rw [hpath.startingAsset, hlookup]
  simp only [if_neg (PreciseNumber.not_le.mpr hpos), heval]
  split
  · -- The loop passes over an opportunity without profit or with a reserved symbol.
    rename_i hskip
    refine h.keep hlist fun helig => ?_
    rcases hskip with hprofit | ⟨s, hs, hreserved⟩
    · exact absurd helig.2.1 (PreciseNumber.not_lt.mpr hprofit)
    · exact absurd hreserved (helig.2.2 s hs)
  · rename_i hgood
    push Not at hgood
    have helig : w.Eligible i :=
      ⟨⟨budget, hlookup, hpos⟩, hgood.1, hgood.2⟩
    split
    · -- The first eligible opportunity is the best so far.
      rename_i hnone
      exact h.choose hlist helig fun b hb => by rw [hnone] at hb; cases hb
    · -- The profit of the best so far is read from the list, where it was evaluated. A
      -- second visit of `b` itself has just written the same opportunity again.
      rename_i b hb
      have hbeval : Function.update state.1 i (w.evaluated i) b = w.evaluated b := by
        rw [hlist b, h.list b, if_pos (h.some b hb).1]
        split
        · rename_i hbi
          rw [hbi]
        · rfl
      rw [hbeval]
      split
      · rename_i hlt
        refine h.choose hlist helig fun b' hb' => ?_
        rw [hb, Option.some.injEq] at hb'
        rw [← hb']
        exact hlt.le
      · rename_i hge
        rw [← hb]
        exact h.keep hlist fun _ => ⟨b, hb, PreciseNumber.not_lt.mp hge⟩

/-- A visit of an opportunity without a budget writes nothing, and the old opportunity is the
evaluated one. -/
private theorem Selected.visit_no_budget {w : Worker n} {visited : List (Fin n)}
    {state : (Fin n → Opportunity) × Option (Fin n)} (h : w.Selected visited state)
    {i : Fin n} (hbudget : ¬ ∃ budget,
      w.balance.lookup (w.opportunityList i).startingAsset = Option.some budget ∧ 0 < budget) :
    w.Selected (visited ++ [i])
      (considerOpportunity w.book w.balance w.reservedTrades state i) := by
  have heval := evaluated_of_no_budget hbudget
  have hlist : ∀ j, state.1 j = if j = i then w.evaluated i else state.1 j := by
    intro j
    split
    · rename_i hj
      rw [hj, h.list i, heval]
      split <;> rfl
    · rfl
  have hkeep : w.Selected (visited ++ [i]) state :=
    h.keep hlist fun helig => absurd helig.1 hbudget
  unfold considerOpportunity
  rw [(h.samePath i).startingAsset]
  split
  · exact hkeep
  · rename_i budget hlookup
    rw [if_pos (PreciseNumber.not_lt.mp fun hpos => hbudget ⟨budget, hlookup, hpos⟩)]
    exact hkeep

/-- One visit of the loop. -/
theorem Selected.visit {w : Worker n} {visited : List (Fin n)}
    {state : (Fin n → Opportunity) × Option (Fin n)} (h : w.Selected visited state)
    (i : Fin n) :
    w.Selected (visited ++ [i])
      (considerOpportunity w.book w.balance w.reservedTrades state i) := by
  by_cases hbudget : ∃ budget,
      w.balance.lookup (w.opportunityList i).startingAsset = Option.some budget ∧ 0 < budget
  · obtain ⟨budget, hlookup, hpos⟩ := hbudget
    exact h.visit_budget hlookup hpos
  · exact h.visit_no_budget hbudget

/-- The loop of `processPriceUpdate` evaluates the affected opportunities and chooses the
best eligible one. -/
theorem selectBest_spec (w : Worker n) (symbol : String) :
    w.Selected (w.equalRange symbol) (w.selectBest symbol) := by
  -- The induction is on the opportunities still to visit; `visited` grows with the state.
  have hloop : ∀ (rest visited : List (Fin n))
      (state : (Fin n → Opportunity) × Option (Fin n)), w.Selected visited state →
      w.Selected (visited ++ rest)
        (rest.foldl (considerOpportunity w.book w.balance w.reservedTrades) state) := by
    intro rest
    induction rest with
    | nil => intro visited state h; rwa [List.append_nil]
    | cons i rest ih =>
      intro visited state h
      rw [List.foldl_cons, List.append_cons]
      exact ih _ _ (h.visit i)
  exact hloop (w.equalRange symbol) [] _ w.selected_nil

end Harjus.Worker
