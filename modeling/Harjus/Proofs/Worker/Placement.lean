import Harjus.Proofs.Worker.Bookkeeping

/-!
# `Harjus.Proofs.Worker.Placement`: what a price update spends and submits

The results of `Harjus.Proofs.Sizing` at the updates of a Worker over books without negative
entries.

* `Setting`: the opportunities of a running Worker are the configured paths, and its book is
  not negative. `setting_call` is the step lemma, `setting_run` the run lemma.
* `no_overspending`: a price update takes at most one capacity from at most one balance, and
  leaves that balance non-negative. The capacity is what the first order takes.
* `orders_placeable`: a price update submits no order, or one placeable order for every trade
  of one path, in path order.
-/

set_option autoImplicit false

namespace Harjus.Worker

open Harjus.Lib

variable {n : ℕ}

/-- A price update without negative entries, or a report. -/
def Event.NonNeg : Event → Prop
  | .priceUpdate update => update.NonNeg
  | .report _ => True

/-- What a run over books without negative entries keeps. -/
structure Setting (config : WorkerConfig n) (w : Worker n) : Prop where
  path : ∀ i, (w.opportunityList i).SamePath ((new config).opportunityList i)
  book : w.book.NonNeg

/-- The constructed Worker is on the configured paths. -/
theorem setting_new {config : WorkerConfig n} (h : config.book.NonNeg) :
    Setting config (new config) := ⟨fun _ => Opportunity.SamePath.refl _, h⟩

/-- A call keeps the paths, and a price update without negative entries keeps the book
non-negative. -/
theorem setting_call {config : WorkerConfig n} {w w' : Worker n} {event : Event}
    {orders : List SubmitOrder} (hs : Setting config w) (hevent : event.NonNeg)
    (h : Call w event w' orders) : Setting config w' := by
  cases h with
  | update h =>
    cases h with
    | idle list hpath =>
      exact ⟨fun i => (hpath i).trans (hs.path i), hs.book.apply hevent⟩
    | started list i opp budget result hpath =>
      exact ⟨fun i => (hpath i).trans (hs.path i), hs.book.apply hevent⟩
  | report h => cases h <;> exact ⟨hs.path, hs.book⟩

/-- What every call keeps of the configuration, every run keeps. -/
theorem setting_run {config : WorkerConfig n} {w w' : Worker n} {events : List Event}
    {out : List SubmitOrder} (hw : w.Invariant) (hs : Setting config w)
    (hevents : ∀ event ∈ events, event.NonNeg)
    (h : (machine n).run w events = .ok (w', out)) : Setting config w' :=
  call_run (P := Setting config) (A := Event.NonNeg)
    (fun _ hs hevent hcall => setting_call hs hevent hcall) hevents hw hs h

/-- The states of the Worker after the runs over books without negative entries. -/
def ReachableNonNeg (config : WorkerConfig n) (w : Worker n) : Prop :=
  config.book.NonNeg ∧ ∃ events out, (∀ event ∈ events, event.NonNeg) ∧
    (machine n).run (new config) events = .ok (w, out)

/-- A reachable Worker keeps its tables in agreement. -/
theorem ReachableNonNeg.invariant {config : WorkerConfig n} {w : Worker n}
    (h : ReachableNonNeg config w) : w.Invariant := by
  obtain ⟨-, events, out, -, hrun⟩ := h
  exact invariant_run (invariant_new config) hrun

/-- A reachable Worker is on the configured paths, over a non-negative book. -/
theorem ReachableNonNeg.setting {config : WorkerConfig n} {w : Worker n}
    (h : ReachableNonNeg config w) : Setting config w := by
  obtain ⟨hbook, events, out, hevents, hrun⟩ := h
  exact setting_run (invariant_new config) (setting_new hbook) hevents hrun

/-- The configured relative value of an opportunity. -/
theorem Setting.relativeValue_nonneg {config : WorkerConfig n} {w : Worker n}
    (hs : Setting config w) (hvalues : ∀ asset, 0 ≤ config.relativeValues.amount asset)
    (i : Fin n) : 0 ≤ (w.opportunityList i).relativeValue := by
  rw [(hs.path i).relativeValue]
  exact hvalues _

/-! ### The balance -/

/-- The capacity of a recorded execution is what its first order takes. -/
theorem capacity_ofOpportunity (book : Book) (opp : Opportunity) :
    ∃ t rest, (Execution.ofOpportunity book opp).trades = t :: rest ∧
      (Execution.ofOpportunity book opp).capacity = t.usedQty := by
  refine ⟨StaticTrade.ofTrade book (opp.trades.head opp.nonempty),
    opp.trades.tail.map (StaticTrade.ofTrade book), ?_, ?_⟩
  · show opp.trades.map (StaticTrade.ofTrade book) = _
    rw [← List.map_cons, List.cons_head_tail]
  · exact (StaticTrade.usedQty_ofTrade _ _).symm

/-- The first trade of an updated path uses at most the budget, which is the capacity, and
each later one at most what the trade before it gives. So a price update of a Worker over
books without negative entries changes no balance, or it records one execution of an affected
path. Then it takes the capacity, which is what the first order of the execution takes, from
the balance of the starting asset, which stays non-negative. -/
theorem no_overspending (config : WorkerConfig n) :
    (∀ (book : Book) (opp : Opportunity) (budget : PreciseNumber), book.NonNeg → 0 ≤ budget →
      (∃ t rest, (opp.update book budget).trades = t :: rest ∧ t.usedQty book ≤ budget ∧
        (opp.update book budget).getCapacity book = t.usedQty book) ∧
      (opp.update book budget).getCapacity book ≤ budget ∧
      (opp.update book budget).trades.IsChain fun t t' => t'.usedQty book ≤ t.recvQty book) ∧
    ∀ (w w' : Worker n) (update : PriceUpdate), ReachableNonNeg config w → update.NonNeg →
      w' = (w.processPriceUpdate update).1 →
      (w'.balance = w.balance ∧ w'.executionsMap = w.executionsMap) ∨
      ∃ i e x delta, i ∈ w.equalRange update.symbol ∧ e ∉ w.executionsMap ∧
        w'.executionsMap = w.executionsMap.insert e (x, delta) ∧
        x.startingAsset = (w.opportunityList i).startingAsset ∧
        (∃ t rest, x.trades = t :: rest ∧ x.capacity = t.usedQty) ∧
        w'.balance.amount x.startingAsset
          = w.balance.amount x.startingAsset - x.capacity ∧
        0 ≤ w'.balance.amount x.startingAsset ∧
        ∀ asset, asset ≠ x.startingAsset →
          w'.balance.lookup asset = w.balance.lookup asset := by
  constructor
  · intro book opp budget hb hbudget
    have hcapacity := opp.getCapacity_update_le hb hbudget
    refine ⟨⟨_, _, (List.cons_head_tail (opp.update book budget).nonempty).symm, hcapacity, rfl⟩,
      hcapacity, isChain_sizeTrades hb opp.trades hbudget⟩
  · intro w w' update hreach hupdate hw'
    have hstep := hreach.invariant.tables.updateStep update
    rw [← hw'] at hstep
    generalize (w.processPriceUpdate update).2 = orders at hstep
    cases hstep with
    | idle list hpath => exact Or.inl ⟨rfl, rfl⟩
    | started list i opp budget result hpath haffected hopp hbudget hpos hprofit hfree
        hsubmits =>
      -- The path was sized for the budget that the balance has of its starting asset.
      have hbook := hreach.setting.book.apply hupdate
      have hamount : w.balance.amount opp.startingAsset = budget := by
        rw [Finmap.amount, hbudget]
        rfl
      have hcapacity : opp.getCapacity (w.book.apply update) ≤ budget := by
        rw [hopp]
        exact Opportunity.getCapacity_update_le hbook hpos.le
      refine Or.inr ⟨i, _, _, _, haffected,
        hreach.invariant.tables.freshExecutions _ le_rfl, rfl, ?_,
        capacity_ofOpportunity _ _, ?_, ?_, ?_⟩
      · exact (congrArg Opportunity.startingAsset hopp).trans rfl
      · simp only [started, Execution.ofOpportunity]
        rw [Finmap.amount_post, if_pos rfl, sub_eq_add_neg]
      · simp only [started, Execution.ofOpportunity]
        rw [Finmap.amount_post, if_pos rfl, hamount, ← sub_eq_add_neg]
        exact sub_nonneg.mpr hcapacity
      · intro asset hasset
        simp only [started, Execution.ofOpportunity] at hasset ⊢
        rw [Finmap.post, Finmap.lookup_insert_of_ne _ hasset]

/-- The sample book has no negative entry. -/
private theorem nonNeg_sampleBook : sampleBook.NonNeg := by
  constructor <;> intro s <;> unfold sampleBook <;> split_ifs <;> decide

/-- The sample update has no negative entry. -/
theorem nonNeg_sampleUpdate : sampleUpdate.NonNeg := by
  constructor <;> decide

/-- The run without any call. -/
theorem reachableNonNeg_new : ReachableNonNeg sampleConfig (new sampleConfig) :=
  ⟨nonNeg_sampleBook, [], [], by simp, rfl⟩

/-- The triangle takes all 100 USDT, which is what its first order takes. -/
theorem no_overspending_triangle :
    ∃ x delta t rest, sampleWorker.executionsMap.lookup "" = some (x, delta) ∧
      x.trades = t :: rest ∧ x.capacity = t.usedQty ∧
      sampleWorker.balance.amount x.startingAsset
        = (new sampleConfig).balance.amount x.startingAsset - x.capacity ∧
      0 ≤ sampleWorker.balance.amount x.startingAsset ∧ x.capacity = .ofCount 100 := by
  have hmem : "" ∈ sampleWorker.executionsMap := by decide +kernel
  have hcapacity : (sampleWorker.executionsMap.lookup "").any
      (fun x => x.1.capacity = .ofCount 100) = true := by decide +kernel
  rcases (no_overspending sampleConfig).2 (new sampleConfig) sampleWorker sampleUpdate
    reachableNonNeg_new nonNeg_sampleUpdate (by unfold sampleWorker; rfl) with
    ⟨-, hsame⟩ | ⟨i, e, x, delta, -, -, hinsert, -, ⟨t, rest, htrades, hfirst⟩, htaken,
      hnonneg, -⟩
  · rw [hsame] at hmem
    exact absurd hmem Finmap.notMem_empty
  · have he : e = "" := by
      rw [hinsert] at hmem
      exact ((Finmap.mem_insert.mp hmem).resolve_right Finmap.notMem_empty).symm
    have hlookup : sampleWorker.executionsMap.lookup "" = some (x, delta) := by
      rw [hinsert, he, Finmap.lookup_insert]
    rw [hlookup] at hcapacity
    exact ⟨x, delta, t, rest, hlookup, htrades, hfirst, htaken, hnonneg,
      of_decide_eq_true hcapacity⟩

/-! ### The orders -/

/-- The order of one leg of a path, as an exchange accepts it against the book: the leg's
symbol and side, the quoted price, a positive price and quantity, within the offer, and at
least the minimum notional. -/
structure SubmitOrder.Placeable (book : Book) (leg : Symbol × Position)
    (order : SubmitOrder) : Prop where
  symbol : order.symbol = leg.1.symbol
  position : order.position = leg.2
  quoted : order.price = match leg.2 with
    | .LONG => (book leg.1.symbol).askPrice
    | .SHORT => (book leg.1.symbol).bidPrice
  price : 0 < order.price
  qty : 0 < order.qty
  offer : order.qty ≤ match leg.2 with
    | .LONG => (book leg.1.symbol).askQty
    | .SHORT => (book leg.1.symbol).bidQty
  notional : leg.1.minNotional ≤ order.qty * order.price

/-- The order for a placeable trade is placeable. -/
private theorem placeable_order {book : Book} {t : Trade} {order : SubmitOrder}
    (h : t.Placeable book) (hfor : SubmitOrder.For order (StaticTrade.ofTrade book t)) :
    SubmitOrder.Placeable book t.leg order where
  symbol := hfor.symbol
  position := hfor.position
  quoted := hfor.price
  price := hfor.price ▸ h.orderPrice
  qty := hfor.qty ▸ h.orderQty
  offer := hfor.qty ▸ h.offer
  notional := by
    rw [hfor.qty, hfor.price]
    exact h.notional

/-- The orders for placeable trades are placeable, leg by leg. -/
private theorem placeable_orders {book : Book} {trades : List Trade}
    {orders : List SubmitOrder} (h : ∀ t ∈ trades, t.Placeable book)
    (hfor : List.Forall₂ SubmitOrder.For orders (trades.map (StaticTrade.ofTrade book))) :
    List.Forall₂ (SubmitOrder.Placeable book) (trades.map Trade.leg) orders := by
  induction trades generalizing orders with
  | nil =>
    cases hfor
    exact List.Forall₂.nil
  | cons t trades ih =>
    cases hfor with
    | cons hhead hrest =>
      exact List.Forall₂.cons (placeable_order (h t List.mem_cons_self) hhead)
        (ih (fun t' ht' => h t' (List.mem_cons_of_mem _ ht')) hrest)

/-- A price update submits nothing and starts nothing, or it starts one execution of an
affected path. Then it submits one placeable order for every leg of the path, in path order,
each as frozen in the execution and under an id that the order table maps to it. -/
theorem orders_placeable {config : WorkerConfig n}
    (hvalues : ∀ asset, 0 ≤ config.relativeValues.amount asset) {w w' : Worker n}
    (h : ReachableNonNeg config w) {update : PriceUpdate} (hupdate : update.NonNeg)
    {orders : List SubmitOrder} (hstep : w.processPriceUpdate update = (w', orders)) :
    (orders = [] ∧ w'.executionsMap = w.executionsMap ∧
      w'.executionIdMap = w.executionIdMap) ∨
    ∃ i e x delta, i ∈ w.equalRange update.symbol ∧ e ∉ w.executionsMap ∧
      w'.executionsMap = w.executionsMap.insert e (x, delta) ∧
      List.Forall₂ (SubmitOrder.Placeable w'.book)
        ((config.tradingPaths i).trades.map Trade.leg) orders ∧
      List.Forall₂
        (fun order t => SubmitOrder.For order t ∧
          w'.executionIdMap.lookup order.id = some (t, e))
        orders x.tradesVector := by
  have hupdated := h.invariant.tables.updateStep update
  rw [hstep] at hupdated
  cases hupdated with
  | idle list hpath => exact Or.inl ⟨rfl, rfl, rfl⟩
  | started list i opp budget result hpath haffected hopp hbudget hpos hprofit hfree hsubmits =>
    have hbook := h.setting.book.apply hupdate
    have hvalue := h.setting.relativeValue_nonneg hvalues i
    have hplaceable : ∀ t ∈ opp.trades, t.Placeable (w.book.apply update) := by
      rw [hopp] at hprofit ⊢
      exact Opportunity.placeable_of_profit hbook hvalue hpos.le hprofit
    -- Updates change quantities only, so the orders follow the configured path.
    have hlegs : opp.trades.map Trade.leg = (config.tradingPaths i).trades.map Trade.leg := by
      have hsame := Opportunity.samePath_update (w.book.apply update) (w.opportunityList i)
        budget
      rw [← hopp] at hsame
      exact (hsame.trans (h.setting.path i)).legs
    refine Or.inr ⟨i, _, _, _, haffected, h.invariant.tables.freshExecutions _ le_rfl, rfl,
      ?_, hsubmits.orders⟩
    rw [← hlegs]
    exact placeable_orders hplaceable (hsubmits.orders.imp fun _ _ h => h.1)

/-- Every asset of the sample has a non-negative relative value. -/
theorem nonNeg_sampleValues (asset : String) :
    0 ≤ sampleConfig.relativeValues.amount asset := by
  rw [sampleConfig, Finmap.amount_singleton]
  split <;> decide

/-- The sample update submits one placeable order for each leg of the triangle. -/
theorem orders_placeable_triangle :
    List.Forall₂ (SubmitOrder.Placeable (sampleBook.apply sampleUpdate))
      (triangle.trades.map Trade.leg)
      ((new sampleConfig).processPriceUpdate sampleUpdate).2 := by
  have hsome : ((new sampleConfig).processPriceUpdate sampleUpdate).2 ≠ [] := by
    decide +kernel
  rcases orders_placeable nonNeg_sampleValues reachableNonNeg_new nonNeg_sampleUpdate rfl with
    ⟨hnone, -, -⟩ | ⟨i, e, x, delta, -, -, -, horders, -⟩
  · exact absurd hnone hsome
  · exact horders

end Harjus.Worker
