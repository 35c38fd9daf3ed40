import Harjus.Proofs.Worker.Bookkeeping

/-!
# `Harjus.Proofs.Worker.Choice`: the path a price update starts

`EligiblePath` says in terms of the configuration which paths a price update may start. The
Worker goes another way: it looks up the symbol in an index, evaluates opportunities that
earlier updates have sized already, and compares as it goes.

* `Indexed`: in a run the index stays the configured one and each opportunity stays the path
  it was. `indexed_run` is the run lemma.
* `eligiblePath_iff`: a path is eligible exactly when the index leads to it and the loop finds
  it eligible, with the same profit.
* `processPriceUpdate_argmax`: a price update starts one execution on an eligible path of
  maximal profit, or changes neither accounts nor tables when no path is eligible.
-/

set_option autoImplicit false

namespace Harjus.Worker

open Harjus.Lib

variable {n : ℕ}

/-! ### Eligible paths -/

/-- The configured path `i` after `update()` on the book of the price update, with the
current balance of its starting asset. -/
def sized (config : WorkerConfig n) (w : Worker n) (update : PriceUpdate) (i : Fin n) :
    Opportunity :=
  let opp := (new config).opportunityList i
  opp.update (w.book.apply update) (w.balance.amount opp.startingAsset)

/-- The configured path `i` may be started by the price update. -/
structure EligiblePath (config : WorkerConfig n) (w : Worker n) (update : PriceUpdate)
    (i : Fin n) : Prop where
  contains : ∃ trade ∈ (config.tradingPaths i).trades, trade.symbol.symbol = update.symbol
  balance : 0 < w.balance.amount ((new config).opportunityList i).startingAsset
  free : ∀ trade ∈ (config.tradingPaths i).trades, trade.symbol.symbol ∉ w.reservedTrades
  profit : 0 < (sized config w update i).totalProfit

/-- The call started one execution: `opp` with its trades frozen, under the new id `e`, with
one order for each trade. -/
structure Starts (w w' : Worker n) (book : Book) (opp : Opportunity) (e : String)
    (orders : List SubmitOrder) : Prop where
  new : e ∉ w.executionsMap
  execution : w'.executionsMap = w.executionsMap.insert e
    (Execution.ofOpportunity book opp,
      Finmap.singleton opp.startingAsset (opp.getCapacity book))
  pending : w'.pendingOrdersCount = w.pendingOrdersCount.insert e opp.trades.length
  orders : List.Forall₂
    (fun order t => SubmitOrder.For order t ∧ w'.executionIdMap.lookup order.id = some (t, e))
    orders (opp.trades.map (StaticTrade.ofTrade book))

/-- The call submitted no order and left the accounts and the tables as they were. -/
structure Idles (w w' : Worker n) (orders : List SubmitOrder) : Prop where
  orders : orders = []
  balance : w'.balance = w.balance
  reservedTrades : w'.reservedTrades = w.reservedTrades
  executionsMap : w'.executionsMap = w.executionsMap
  executionIdMap : w'.executionIdMap = w.executionIdMap
  pendingOrdersCount : w'.pendingOrdersCount = w.pendingOrdersCount
  failedExecutions : w'.failedExecutions = w.failedExecutions

/-! ### What a run keeps of the configuration -/

/-- The index is the configured one, and each opportunity is still the configured path. -/
structure Indexed (config : WorkerConfig n) (w : Worker n) : Prop where
  index : w.opportunities = (new config).opportunities
  path : ∀ i, (w.opportunityList i).SamePath ((new config).opportunityList i)

/-- The constructor indexes every path under each of its symbols. -/
theorem indexed_new (config : WorkerConfig n) : Indexed config (new config) :=
  ⟨rfl, fun _ => Opportunity.SamePath.refl _⟩

/-- No call changes the index, or the path of an opportunity. -/
theorem indexed_call {config : WorkerConfig n} {w w' : Worker n} {event : Event}
    {orders : List SubmitOrder} (hw : Indexed config w) (h : Call w event w' orders) :
    Indexed config w' := by
  cases h with
  | update h =>
    cases h with
    | idle list hpath => exact ⟨hw.index, fun i => (hpath i).trans (hw.path i)⟩
    | started list i opp budget result hpath =>
      exact ⟨hw.index, fun i => (hpath i).trans (hw.path i)⟩
  | report h => cases h <;> exact ⟨hw.index, hw.path⟩

/-- Every reachable Worker has the index of its configuration. -/
theorem Reachable.indexed {config : WorkerConfig n} {w : Worker n} (h : Reachable config w) :
    Indexed config w := by
  obtain ⟨events, out, hrun⟩ := h
  exact call_run (P := Indexed config) (A := fun _ => True)
    (fun _ hw _ hcall => indexed_call hw hcall) (fun _ _ => trivial) (invariant_new config)
    (indexed_new config) hrun

/-- A further price update leads from a reachable state to a reachable state. -/
theorem Reachable.priceUpdate {config : WorkerConfig n} {w : Worker n}
    (h : Reachable config w) (update : PriceUpdate) :
    Reachable config (w.processPriceUpdate update).1 := by
  obtain ⟨events, out, hrun⟩ := h
  have hstep : (machine n).run w [.priceUpdate update] = .ok (w.processPriceUpdate update) := by
    refine (Machine.run_cons _).mpr ⟨_, _, [], rfl, rfl, ?_⟩
    exact (List.append_nil _).symm
  exact ⟨events ++ [.priceUpdate update], _,
    (Machine.run_append _).mpr ⟨w, out, _, hrun, hstep, rfl⟩⟩

/-- The book after a price update has the new quote. -/
theorem book_processPriceUpdate (w : Worker n) (update : PriceUpdate) :
    (w.processPriceUpdate update).1.book = w.book.apply update := by
  unfold processPriceUpdate
  dsimp only
  split <;> rfl

/-- The index leads from a symbol to the paths with a trade on it. -/
theorem mem_equalRange {config : WorkerConfig n} {w : Worker n} (hw : Indexed config w)
    {symbol : String} {i : Fin n} :
    i ∈ w.equalRange symbol ↔
      ∃ trade ∈ (config.tradingPaths i).trades, trade.symbol.symbol = symbol := by
  have hentries : ∀ entry, entry ∈ w.opportunities ↔
      ∃ trade ∈ (config.tradingPaths entry.2).trades, trade.symbol.symbol = entry.1 := by
    intro entry
    rw [hw.index, new, (config.hashOrder.perm _).mem_iff]
    simp only [List.mem_flatMap, List.mem_finRange, List.mem_map, true_and]
    constructor
    · rintro ⟨i, trade, htrade, rfl⟩
      exact ⟨trade, htrade, rfl⟩
    · rintro ⟨trade, htrade, hsymbol⟩
      exact ⟨entry.2, trade, htrade, by rw [hsymbol]⟩
  unfold equalRange
  simp only [List.mem_map, List.mem_filter, decide_eq_true_eq, hentries]
  constructor
  · rintro ⟨⟨s, i⟩, ⟨htrade, rfl⟩, rfl⟩
    exact htrade
  · intro htrade
    exact ⟨(symbol, i), ⟨htrade, rfl⟩, rfl⟩

/-! ### Eligible in the loop -/

/-- The symbols of an opportunity are a function of its path. -/
theorem symbols_eq_of_samePath {opp opp' : Opportunity} (h : opp.SamePath opp') :
    opp.symbols = opp'.symbols := by
  have hsymbols := congrArg (List.map fun leg : Symbol × Position => leg.1.symbol) h.legs
  rwa [List.map_map, List.map_map] at hsymbols

section
variable {config : WorkerConfig n} {w : Worker n} {update : PriceUpdate} {i : Fin n}

/-- A positive balance is what the loop finds for the path. -/
private theorem lookup_quoted (hw : Indexed config w)
    (hbalance : 0 < w.balance.amount ((new config).opportunityList i).startingAsset) :
    (w.quoted update).balance.lookup ((w.quoted update).opportunityList i).startingAsset
      = some (w.balance.amount ((new config).opportunityList i).startingAsset) := by
  show w.balance.lookup (w.opportunityList i).startingAsset = _
  rw [(hw.path i).startingAsset]
  exact Finmap.lookup_of_amount_ne_zero hbalance.ne'

/-- The loop sizes a path with a positive balance like the configured path. -/
theorem evaluated_quoted_eq (hw : Indexed config w)
    (hbalance : 0 < w.balance.amount ((new config).opportunityList i).startingAsset) :
    (w.quoted update).evaluated i = sized config w update i := by
  rw [evaluated_of_budget (lookup_quoted hw hbalance) hbalance]
  exact Opportunity.update_eq_of_samePath (hw.path i) _

/-- A path is eligible exactly when the index leads to it and the loop finds it eligible. -/
theorem eligiblePath_iff (hw : Indexed config w) :
    EligiblePath config w update i ↔
      i ∈ (w.quoted update).equalRange update.symbol ∧ (w.quoted update).Eligible i := by
  have hquoted : Indexed config (w.quoted update) := ⟨hw.index, hw.path⟩
  have hsymbols := symbols_eq_of_samePath
    (((w.quoted update).samePath_evaluated i).trans (hw.path i))
  have hfree : (∀ s ∈ ((w.quoted update).evaluated i).symbols, s ∉ w.reservedTrades) ↔
      ∀ trade ∈ (config.tradingPaths i).trades,
        trade.symbol.symbol ∉ w.reservedTrades := by
    rw [hsymbols]
    exact List.forall_mem_map
  rw [mem_equalRange hquoted]
  constructor
  · intro h
    have hprofit := h.profit
    rw [← evaluated_quoted_eq hw h.balance] at hprofit
    exact ⟨h.contains, ⟨_, lookup_quoted hw h.balance, h.balance⟩, hprofit,
      hfree.mpr h.free⟩
  · rintro ⟨hcontains, ⟨budget, hlookup, hpos⟩, hprofit, hsyms⟩
    have hbalance : 0 < w.balance.amount ((new config).opportunityList i).startingAsset := by
      rw [← (hw.path i).startingAsset, Finmap.amount]
      show 0 < ((w.quoted update).balance.lookup
        ((w.quoted update).opportunityList i).startingAsset).getD 0
      rw [hlookup]
      exact hpos
    rw [evaluated_quoted_eq hw hbalance] at hprofit
    exact ⟨hcontains, hbalance, hfree.mp hsyms, hprofit⟩

end

/-! ### The choice -/

/-- Starting an execution under fresh ids. -/
theorem starts_startExecution {w : Worker n} (opp : Opportunity)
    (hexecutions : Fresh w.ids w.executionsMap) (horders : Fresh w.ids w.executionIdMap) :
    Starts w (w.startExecution opp).1 w.book opp (w.ids.id w.ids.drawn)
      (w.startExecution opp).2 := by
  have hfresh : Fresh w.ids.generateId.2 w.executionIdMap :=
    fun k hk => horders k (Nat.le_of_succ_le hk)
  have hnew := hexecutions _ le_rfl
  rw [startExecution_eq w opp hnew]
  exact ⟨hnew, rfl, rfl, (submits_submitOrders _ _ hfresh).orders⟩

section
variable {config : WorkerConfig n} {w : Worker n} {update : PriceUpdate}

/-- With an eligible path, the update starts one of maximal profit. -/
theorem starts_of_eligible (hreach : Reachable config w)
    (h : ∃ i, EligiblePath config w update i) :
    ∃ b e, EligiblePath config w update b ∧
      (∀ i, EligiblePath config w update i →
        (sized config w update i).totalProfit ≤ (sized config w update b).totalProfit) ∧
      Starts w (w.processPriceUpdate update).1 (w.book.apply update)
        (sized config w update b) e (w.processPriceUpdate update).2 := by
  have hw := hreach.indexed
  have htables := hreach.invariant.tables
  have hsel := selectBest_spec (w.quoted update) update.symbol
  unfold processPriceUpdate
  dsimp only
  generalize (w.quoted update).selectBest update.symbol = selected at hsel
  split
  · -- The loop found no candidate, so no path is eligible.
    rename_i hnone
    obtain ⟨i, hi⟩ := h
    obtain ⟨hmem, helig⟩ := (eligiblePath_iff hw).mp hi
    exact absurd helig (hsel.none hnone i hmem)
  · rename_i b hb
    obtain ⟨hmem, helig, hmax⟩ := hsel.some b hb
    have hpath : EligiblePath config w update b := (eligiblePath_iff hw).mpr ⟨hmem, helig⟩
    have hchosen : selected.1 b = sized config w update b := by
      rw [hsel.list b, if_pos hmem, evaluated_quoted_eq hw hpath.balance]
    refine ⟨b, w.ids.id w.ids.drawn, hpath, fun i hi => ?_, ?_⟩
    · obtain ⟨hmem', helig'⟩ := (eligiblePath_iff hw).mp hi
      have hle := hmax i hmem' helig'
      rwa [evaluated_quoted_eq hw hi.balance, evaluated_quoted_eq hw hpath.balance] at hle
    · have hstarts := starts_startExecution
        (w := { w.quoted update with opportunityList := selected.1 }) (selected.1 b)
        htables.freshExecutions htables.freshOrders
      rw [hchosen] at hstarts ⊢
      exact ⟨hstarts.new, hstarts.execution, hstarts.pending, hstarts.orders⟩

/-- Without an eligible path, the update does nothing but evaluate. -/
theorem idles_of_not_eligible (hreach : Reachable config w)
    (h : ¬ ∃ i, EligiblePath config w update i) :
    Idles w (w.processPriceUpdate update).1 (w.processPriceUpdate update).2 := by
  have hsel := selectBest_spec (w.quoted update) update.symbol
  unfold processPriceUpdate
  dsimp only
  generalize (w.quoted update).selectBest update.symbol = selected at hsel
  split
  · exact ⟨rfl, rfl, rfl, rfl, rfl, rfl, rfl⟩
  · rename_i b hb
    obtain ⟨hmem, helig, -⟩ := hsel.some b hb
    exact absurd ⟨b, (eligiblePath_iff hreach.indexed).mpr ⟨hmem, helig⟩⟩ h

end

/-- A path with a leg that has no price is not eligible. -/
theorem not_eligible_of_unpriced {config : WorkerConfig n} {w : Worker n}
    {update : PriceUpdate} {i : Fin n} (hb : (w.book.apply update).NonNeg)
    (hv : ∀ asset, 0 ≤ config.relativeValues.amount asset)
    {trade : Trade} (hmem : trade ∈ (config.tradingPaths i).trades)
    (hprice : trade.orderPrice (w.book.apply update) = 0) :
    ¬ EligiblePath config w update i := by
  intro h
  have hplaceable := Opportunity.placeable_of_profit hb (hv _) h.balance.le h.profit
  -- The sized path has the leg of `trade`, at the same price.
  have hlegs : ((sized config w update i).trades).map Trade.leg
      = (config.tradingPaths i).trades.map Trade.leg :=
    legs_sizeTrades _ _ _
  have hleg : trade.leg ∈ ((sized config w update i).trades).map Trade.leg :=
    hlegs ▸ List.mem_map_of_mem hmem
  obtain ⟨trade', hmem', hleg'⟩ := List.mem_map.mp hleg
  have hpos := (hplaceable trade' hmem').orderPrice
  rw [Trade.orderPrice_eq_of_leg hleg', hprice] at hpos
  exact lt_irrefl _ hpos

/-- A price update starts exactly one execution, on an eligible path whose profit is at least
that of every other eligible path. When no path is eligible it does nothing but evaluate. -/
theorem processPriceUpdate_argmax (config : WorkerConfig n) {w : Worker n}
    (hreach : Reachable config w) (update : PriceUpdate) :
    ((∃ i, EligiblePath config w update i) →
      ∃ b e, EligiblePath config w update b ∧
        (∀ i, EligiblePath config w update i →
          (sized config w update i).totalProfit ≤ (sized config w update b).totalProfit) ∧
        Starts w (w.processPriceUpdate update).1 (w.book.apply update)
          (sized config w update b) e (w.processPriceUpdate update).2) ∧
    ((¬ ∃ i, EligiblePath config w update i) →
      Idles w (w.processPriceUpdate update).1 (w.processPriceUpdate update).2) :=
  ⟨starts_of_eligible hreach, idles_of_not_eligible hreach⟩

/-- The sample update leads to the triangle and the detour, and both are eligible. It starts
the detour, which has the greater profit. -/
theorem processPriceUpdate_argmax_triangle :
    EligiblePath threeConfig (new threeConfig) sampleUpdate 0 ∧
      EligiblePath threeConfig (new threeConfig) sampleUpdate 1 ∧
      (sized threeConfig (new threeConfig) sampleUpdate 0).totalProfit
        < (sized threeConfig (new threeConfig) sampleUpdate 1).totalProfit ∧
      ∃ e, Starts (new threeConfig) ((new threeConfig).processPriceUpdate sampleUpdate).1
        ((new threeConfig).book.apply sampleUpdate)
        (sized threeConfig (new threeConfig) sampleUpdate 1) e
        ((new threeConfig).processPriceUpdate sampleUpdate).2 := by
  have htriangle : EligiblePath threeConfig (new threeConfig) sampleUpdate 0 :=
    ⟨by decide +kernel, by decide +kernel, by decide +kernel, by decide +kernel⟩
  have hdetour : EligiblePath threeConfig (new threeConfig) sampleUpdate 1 :=
    ⟨by decide +kernel, by decide +kernel, by decide +kernel, by decide +kernel⟩
  have hless : (sized threeConfig (new threeConfig) sampleUpdate 0).totalProfit
      < (sized threeConfig (new threeConfig) sampleUpdate 1).totalProfit := by
    decide +kernel
  obtain ⟨b, e, hb, hmax, hstarts⟩ :=
    (processPriceUpdate_argmax threeConfig ⟨[], [], rfl⟩ sampleUpdate).1 ⟨0, htriangle⟩
  -- The triangle has less profit, and `aside` is not on the updated symbol.
  have hchosen : b = 1 := by
    have hpaths : ∀ b : Fin 3, b = 0 ∨ b = 1 ∨ b = 2 := by decide
    rcases hpaths b with h | h | h
    · rw [h] at hmax
      exact absurd (hmax 1 hdetour) (PreciseNumber.not_le.mpr hless)
    · exact h
    · rw [h] at hb
      exact absurd hb.contains (by decide +kernel)
  exact ⟨htriangle, hdetour, hless, e, hchosen ▸ hstarts⟩

end Harjus.Worker
