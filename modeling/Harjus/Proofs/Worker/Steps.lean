import Harjus.Proofs.Worker.Select

/-!
# `Harjus.Proofs.Worker.Steps`: what one call of the Worker can do

The two calls of the Worker, each as a relation with one constructor for each of its
results. Every invariant of the Worker is a case analysis on these.

* `UpdateStep`: a price update changes the quotes and the evaluated opportunities only
  (`idle`), or it also starts one execution (`started`). `updateStep_processPriceUpdate`
  holds when the ids still to be drawn are in no table (`Fresh`).
* `Submits`: what the submission loop does to the ids, the order table and the exchange.
* `ReportStep`: a report is `ignored`, or it ends an order of an execution that still has
  others (`settled`), or it ends the last one (`closed`). `processReport_ok` and
  `reportStep_of_ok` hold when the tables agree on the order at hand.
-/

set_option autoImplicit false

namespace Harjus.Worker

variable {n : ℕ}

/-- No id still to be drawn is a key of the table. -/
def Fresh {β : Type} (ids : IdSource) (m : Finmap fun _ : String => β) : Prop :=
  ∀ k, ids.drawn ≤ k → ids.id k ∉ m

/-! ### Submitting the orders -/

/-- The order as submitted for the frozen trade `t`. -/
structure SubmitOrder.For (order : SubmitOrder) (t : StaticTrade) : Prop where
  symbol : order.symbol = t.symbol
  qty : order.qty = t.orderQty
  price : order.price = t.orderPrice
  position : order.position = t.position

/-- Submitting `trades` for the execution `e` draws one id a trade, adds one entry a trade
to the order table and submits one order a trade, in order. -/
structure Submits (e : String) (trades : List StaticTrade) (ids : IdSource)
    (m : Finmap fun _ : String => StaticTrade × String)
    (result : IdSource × (Finmap fun _ : String => StaticTrade × String) × List SubmitOrder) :
    Prop where
  drawn : result.1 = { ids with drawn := ids.drawn + trades.length }
  fresh : Fresh result.1 result.2.1
  old : ∀ o x, m.lookup o = some x → result.2.1.lookup o = some x
  entries : ∀ o x, result.2.1.lookup o = some x → m.lookup o = some x ∨
    x.1 ∈ trades ∧ x.2 = e ∧ ∃ k, ids.drawn ≤ k ∧ o = ids.id k
  submitted : ∀ o x, result.2.1.lookup o = some x →
    m.lookup o = some x ∨ ∃ order ∈ result.2.2, order.id = o
  orders : List.Forall₂
    (fun order t => SubmitOrder.For order t ∧ result.2.1.lookup order.id = some (t, e))
    result.2.2 trades
  total : ∀ {M : Type} [AddCommMonoid M] (f : StaticTrade × String → M),
    Finmap.total (fun _ x => f x) result.2.1
      = (trades.map fun t => f (t, e)).sum + Finmap.total (fun _ x => f x) m

/-- `emplace` inserts under a new key. -/
theorem emplace_of_notMem {β : Type} {m : Finmap fun _ : String => β} {key : String}
    {value : β} (h : key ∉ m) : emplace m key value = m.insert key value := if_neg h

/-- Drawing an id and using it as a key keeps the later ids fresh. -/
theorem Fresh.insert_drawn {β : Type} {ids : IdSource} {m : Finmap fun _ : String => β}
    (h : Fresh ids m) (value : β) :
    Fresh ids.generateId.2 (m.insert ids.generateId.1 value) := by
  intro k hk hmem
  rcases Finmap.mem_insert.mp hmem with hid | hmem
  · have hdrawn : k = ids.drawn := ids.distinct hid
    simp only [IdSource.generateId] at hk
    omega
  · exact h k (Nat.le_of_succ_le hk) hmem

/-- Overwriting an entry keeps the later ids fresh. -/
theorem Fresh.overwrite {β : Type} {ids : IdSource} {m : Finmap fun _ : String => β}
    (h : Fresh ids m) {key : String} {old : β} (hold : m.lookup key = some old) (value : β) :
    Fresh ids (m.insert key value) := by
  intro k hk hmem
  rcases Finmap.mem_insert.mp hmem with hkey | hmem
  · refine h k hk ?_
    rw [hkey]
    exact Finmap.mem_of_lookup_eq_some hold
  · exact h k hk hmem

/-- The orders of an execution get new ids, one for each trade. -/
theorem submits_submitOrders (e : String) (trades : List StaticTrade) {ids : IdSource}
    {m : Finmap fun _ : String => StaticTrade × String} (h : Fresh ids m) :
    Submits e trades ids m (submitOrders e trades ids m) := by
  induction trades generalizing ids m with
  | nil =>
    exact ⟨rfl, h, fun _ _ hx => hx, fun _ _ hx => Or.inl hx, fun _ _ hx => Or.inl hx,
      List.Forall₂.nil, fun f => by simp [submitOrders]⟩
  | cons t trades ih =>
    have hnew : ids.generateId.1 ∉ m := h ids.drawn le_rfl
    have hrest := ih (h.insert_drawn (t, e))
    -- The drawn id is fresh, so `emplace` inserts, and the rest of the loop keeps the entry.
    rw [submitOrders, emplace_of_notMem hnew]
    constructor
    case fresh => exact hrest.fresh
    case drawn =>
      rw [hrest.drawn, List.length_cons]
      simp only [IdSource.generateId]
      rw [Nat.add_assoc, Nat.add_comm 1]
    case old =>
      intro o x hx
      refine hrest.old o x ?_
      have hne : o ≠ ids.generateId.1 := fun ho =>
        hnew (ho ▸ Finmap.mem_of_lookup_eq_some hx)
      rwa [Finmap.lookup_insert_of_ne _ hne]
    case entries =>
      intro o x hx
      rcases hrest.entries o x hx with hx | ⟨ht, he, k, hk, ho⟩
      · by_cases ho : o = ids.generateId.1
        · rw [ho, Finmap.lookup_insert, Option.some.injEq] at hx
          subst hx
          exact Or.inr ⟨List.mem_cons_self, rfl, ids.drawn, le_rfl, ho⟩
        · rw [Finmap.lookup_insert_of_ne _ ho] at hx
          exact Or.inl hx
      · exact Or.inr ⟨List.mem_cons_of_mem _ ht, he, k, Nat.le_of_succ_le hk, ho⟩
    case submitted =>
      intro o x hx
      rcases hrest.submitted o x hx with hx | ⟨order, horder, ho⟩
      · by_cases ho : o = ids.generateId.1
        · exact Or.inr ⟨_, List.mem_cons_self, ho.symm⟩
        · rw [Finmap.lookup_insert_of_ne _ ho] at hx
          exact Or.inl hx
      · exact Or.inr ⟨order, List.mem_cons_of_mem _ horder, ho⟩
    case orders =>
      exact List.Forall₂.cons ⟨⟨rfl, rfl, rfl, rfl⟩, hrest.old _ _ (Finmap.lookup_insert _)⟩
        hrest.orders
    case total =>
      intro M _ f
      rw [hrest.total f, Finmap.total_insert _ _ hnew, List.map_cons, List.sum_cons]
      abel

section Submits
variable {e : String} {trades : List StaticTrade} {ids : IdSource}
variable {m : Finmap fun _ : String => StaticTrade × String}
variable {result : IdSource × (Finmap fun _ : String => StaticTrade × String) × List SubmitOrder}

/-- Submitting orders draws from one stream of ids. -/
theorem Submits.id_eq (h : Submits e trades ids m result) : result.1.id = ids.id := by
  rw [h.drawn]

/-- After the orders of an execution, its own id and the ids before it are drawn. -/
theorem Submits.lt_drawn (h : Submits e trades ids.generateId.2 m result) :
    ids.drawn < result.1.drawn := by
  rw [h.drawn]
  simp only [IdSource.generateId]
  omega

/-- Every submitted order is the order of a trade, and the order table has it. -/
theorem Submits.of_mem (h : Submits e trades ids m result) {order : SubmitOrder}
    (hmem : order ∈ result.2.2) :
    ∃ t ∈ trades, SubmitOrder.For order t ∧ result.2.1.lookup order.id = some (t, e) := by
  obtain ⟨j, hj, rfl⟩ := List.mem_iff_getElem.mp hmem
  have hj' : j < trades.length := h.orders.length_eq ▸ hj
  exact ⟨trades[j], List.getElem_mem hj', (List.forall₂_iff_get.mp h.orders).2 j hj hj'⟩

end Submits

/-! ### Price updates -/

/-- The Worker after it started an execution on `opp` under the id `e`. -/
def started (w : Worker n) (book : Book) (list : Fin n → Opportunity) (opp : Opportunity)
    (e : String) (ids : IdSource)
    (executionIdMap : Finmap fun _ : String => StaticTrade × String) : Worker n where
  book := book
  opportunities := w.opportunities
  opportunityList := list
  balance := Finmap.post w.balance opp.startingAsset (-opp.getCapacity book)
  reservedTrades := ReservedTrades.reserveAll w.reservedTrades opp.trades
  executionsMap := w.executionsMap.insert e
    (Execution.ofOpportunity book opp,
      Finmap.singleton opp.startingAsset (opp.getCapacity book))
  executionIdMap := executionIdMap
  pendingOrdersCount := w.pendingOrdersCount.insert e opp.trades.length
  failedExecutions := w.failedExecutions
  ids := ids

/-- `startExecution` under a fresh execution id. -/
theorem startExecution_eq (w : Worker n) (opp : Opportunity)
    (hnew : w.ids.id w.ids.drawn ∉ w.executionsMap) :
    w.startExecution opp =
      (let result := submitOrders (w.ids.id w.ids.drawn)
        (opp.trades.map (StaticTrade.ofTrade w.book)) w.ids.generateId.2 w.executionIdMap
      (w.started w.book w.opportunityList opp (w.ids.id w.ids.drawn) result.1 result.2.1,
        result.2.2)) := by
  simp only [startExecution, reserveBudgetAndSymbols, started, Execution.ofOpportunity,
    Balance.updateBalance, PreciseNumber.mul_minusOne, List.length_map]
  rw [IdSource.generateId, emplace_of_notMem hnew]

/-- The results of `processPriceUpdate`. -/
inductive UpdateStep (w : Worker n) (update : PriceUpdate) :
    Worker n → List SubmitOrder → Prop where
  /-- No affected opportunity is eligible. -/
  | idle (list : Fin n → Opportunity)
      (hpath : ∀ i, (list i).SamePath (w.opportunityList i)) :
      UpdateStep w update
        { w with book := w.book.apply update, opportunityList := list } []
  /-- The opportunity `i`, sized with `budget`, starts. -/
  | started (list : Fin n → Opportunity) (i : Fin n) (opp : Opportunity)
      (budget : PreciseNumber)
      (result : IdSource × (Finmap fun _ : String => StaticTrade × String) ×
        List SubmitOrder)
      (hpath : ∀ i, (list i).SamePath (w.opportunityList i))
      (haffected : i ∈ w.equalRange update.symbol)
      (hopp : opp = (w.opportunityList i).update (w.book.apply update) budget)
      (hbudget : w.balance.lookup opp.startingAsset = some budget)
      (hpos : 0 < budget)
      (hprofit : 0 < opp.totalProfit)
      (hfree : ∀ s ∈ opp.symbols, s ∉ w.reservedTrades)
      (hsubmits : Submits (w.ids.id w.ids.drawn)
        (opp.trades.map (StaticTrade.ofTrade (w.book.apply update)))
        w.ids.generateId.2 w.executionIdMap result) :
      UpdateStep w update
        (w.started (w.book.apply update) list opp (w.ids.id w.ids.drawn) result.1 result.2.1)
        result.2.2

/-- A price update has one of the two results. -/
theorem updateStep_processPriceUpdate {w : Worker n} (update : PriceUpdate)
    (hexecutions : Fresh w.ids w.executionsMap) (horders : Fresh w.ids w.executionIdMap) :
    UpdateStep w update (w.processPriceUpdate update).1 (w.processPriceUpdate update).2 := by
  have hsel := selectBest_spec (w.quoted update) update.symbol
  unfold processPriceUpdate
  dsimp only
  generalize (w.quoted update).selectBest update.symbol = selected at hsel
  split
  · exact UpdateStep.idle selected.1 hsel.samePath
  · rename_i i hi
    obtain ⟨hmem, ⟨⟨budget, hlookup, hpos⟩, hprofit, hfree⟩, -⟩ := hsel.some i hi
    have heval := evaluated_of_budget hlookup hpos
    rw [heval] at hprofit hfree
    -- The chosen entry of the list is the evaluated opportunity, sized for this budget.
    have hlist : selected.1 i
        = (w.opportunityList i).update (w.book.apply update) budget := by
      rw [hsel.list i, if_pos hmem, heval]
      rfl
    have hfresh : Fresh w.ids.generateId.2 w.executionIdMap :=
      fun k hk => horders k (Nat.le_of_succ_le hk)
    have hstart := startExecution_eq { w.quoted update with opportunityList := selected.1 }
      (selected.1 i) (hexecutions _ le_rfl)
    rw [hstart, hlist]
    exact UpdateStep.started selected.1 i _ budget _ hsel.samePath hmem rfl hlookup hpos hprofit
      hfree (submits_submitOrders _ _ hfresh)

/-! ### Reports -/

/-- The report ends the order of `trade`: the order failed, or it filled completely. -/
def Ends (trade : StaticTrade) (report : ExecutionReport) : Prop :=
  report.status = .REJECTED ∨ report.status = .EXPIRED ∨
    report.status = .FILLED ∧ trade.orderQty ≤ compareQty trade report

instance (trade : StaticTrade) (report : ExecutionReport) : Decidable (Ends trade report) := by
  unfold Ends
  infer_instance

/-- The delta of the execution after a report that ends the order of `trade`. -/
def settledDelta (trade : StaticTrade) (report : ExecutionReport) (delta : AssetDelta) :
    AssetDelta :=
  if report.status = .FILLED then fillDelta trade report delta else delta

/-- The failed executions after a report that ends an order of `e`. -/
def settledFailed (report : ExecutionReport) (e : String) (failed : Finset String) :
    Finset String :=
  if report.status = .FILLED then failed else insert e failed

/-- Whether the execution was marked or not, its mark is gone after the erasure. -/
theorem erase_settledFailed (report : ExecutionReport) (e : String)
    (failed : Finset String) : (settledFailed report e failed).erase e = failed.erase e := by
  unfold settledFailed
  split
  · rfl
  · exact Finset.erase_insert_eq_erase _ _

/-- The results of `processReport`. -/
inductive ReportStep (w : Worker n) (report : ExecutionReport) : Worker n → Prop where
  /-- The order is unknown, or the report does not end it. -/
  | ignored
      (h : ∀ t e, w.executionIdMap.lookup report.id = some (t, e) → ¬ Ends t report) :
      ReportStep w report w
  /-- The order ends, and its execution has other orders. -/
  | settled (t : StaticTrade) (e : String) (x : Execution) (delta : AssetDelta) (count : ℤ)
      (horder : w.executionIdMap.lookup report.id = some (t, e))
      (hexecution : w.executionsMap.lookup e = some (x, delta))
      (hcount : w.pendingOrdersCount.lookup e = some count)
      (hends : Ends t report) (hmore : count ≠ 1) :
      ReportStep w report
        { w with
          executionIdMap := w.executionIdMap.erase report.id
          pendingOrdersCount := w.pendingOrdersCount.insert e (count - 1)
          executionsMap := w.executionsMap.insert e (x, settledDelta t report delta)
          failedExecutions := settledFailed report e w.failedExecutions }
  /-- The order ends, and it was the last one of its execution. -/
  | closed (t : StaticTrade) (e : String) (x : Execution) (delta : AssetDelta)
      (horder : w.executionIdMap.lookup report.id = some (t, e))
      (hexecution : w.executionsMap.lookup e = some (x, delta))
      (hcount : w.pendingOrdersCount.lookup e = some 1)
      (hends : Ends t report) :
      ReportStep w report
        { w with
          executionIdMap := w.executionIdMap.erase report.id
          pendingOrdersCount := w.pendingOrdersCount.erase e
          executionsMap := w.executionsMap.erase e
          failedExecutions := w.failedExecutions.erase e
          balance := Finmap.postAll w.balance (settledDelta t report delta)
          reservedTrades := ReservedTrades.releaseAll w.reservedTrades x.tradesVector }

/-- A report leaves the other orders in the order table. -/
theorem lookup_of_report {w w' : Worker n} {report : ExecutionReport} {o : String}
    (h : ReportStep w report w') (ho : o ≠ report.id) :
    w'.executionIdMap.lookup o = w.executionIdMap.lookup o := by
  cases h with
  | ignored => rfl
  | settled => exact Finmap.lookup_erase_ne ho
  | closed => exact Finmap.lookup_erase_ne ho

/-- A report with a known status that ends no order changes nothing. -/
theorem processReport_of_not_ends {w : Worker n} {report : ExecutionReport}
    (hknown : report.status ≠ .UNKNOWN)
    (htables : ∀ t e, w.executionIdMap.lookup report.id = some (t, e) → e ∈ w.executionsMap)
    (h : ∀ t e, w.executionIdMap.lookup report.id = some (t, e) → ¬ Ends t report) :
    w.processReport report = .ok w := by
  unfold processReport
  cases horder : w.executionIdMap.lookup report.id with
  | none => rfl
  | some entry =>
    obtain ⟨t, e⟩ := entry
    obtain ⟨⟨x, delta⟩, hexecution⟩ := Finmap.mem_iff.mp (htables t e horder)
    have hnot := h t e horder
    dsimp only
    rw [hexecution]
    dsimp only
    cases hstatus : report.status with
    | NEW => rfl
    | UNKNOWN => exact absurd hstatus hknown
    | REJECTED => exact absurd (Or.inl hstatus) hnot
    | EXPIRED => exact absurd (Or.inr (Or.inl hstatus)) hnot
    | FILLED =>
      dsimp only
      refine if_pos (PreciseNumber.not_le.mp fun hfull => hnot ?_)
      exact Or.inr (Or.inr ⟨hstatus, hfull⟩)

/-- A report that ends an order settles its delta and finishes the order. -/
theorem processReport_of_ends {w : Worker n} {report : ExecutionReport} {t : StaticTrade}
    {e : String} {x : Execution} {delta : AssetDelta}
    (horder : w.executionIdMap.lookup report.id = some (t, e))
    (hexecution : w.executionsMap.lookup e = some (x, delta)) (hends : Ends t report) :
    w.processReport report =
      .ok ({ w with
          executionsMap := w.executionsMap.insert e (x, settledDelta t report delta)
          failedExecutions := settledFailed report e w.failedExecutions }.finishOrder
        report.id e x (settledDelta t report delta)) := by
  unfold processReport
  rw [horder]
  dsimp only
  rw [hexecution]
  dsimp only
  rcases hends with hstatus | hstatus | ⟨hstatus, hfull⟩
  -- A failed order leaves the entry of its execution, which is the entry put back.
  · have hne : report.status ≠ .FILLED := by simp [hstatus]
    rw [settledDelta, settledFailed, if_neg hne, if_neg hne,
      Finmap.insert_of_lookup hexecution, hstatus]
    rfl
  · have hne : report.status ≠ .FILLED := by simp [hstatus]
    rw [settledDelta, settledFailed, if_neg hne, if_neg hne,
      Finmap.insert_of_lookup hexecution, hstatus]
    rfl
  · rw [settledDelta, settledFailed, if_pos hstatus, if_pos hstatus, hstatus]
    exact if_neg (PreciseNumber.not_lt.mpr hfull)

/-- The end of an order is `settled` or `closed`, by the pending count. -/
private theorem reportStep_finishOrder {w : Worker n} {report : ExecutionReport}
    {t : StaticTrade} {e : String} {x : Execution} {delta : AssetDelta} {count : ℤ}
    (horder : w.executionIdMap.lookup report.id = some (t, e))
    (hexecution : w.executionsMap.lookup e = some (x, delta))
    (hcount : w.pendingOrdersCount.lookup e = some count) (hends : Ends t report) :
    ReportStep w report
      ({ w with
          executionsMap := w.executionsMap.insert e (x, settledDelta t report delta)
          failedExecutions := settledFailed report e w.failedExecutions }.finishOrder
        report.id e x (settledDelta t report delta)) := by
  have hpending : w.pendingOrdersCount.amount e = count := by rw [Finmap.amount, hcount]; rfl
  unfold finishOrder
  dsimp only
  rw [hpending]
  by_cases hone : count = 1
  · -- What was written for the execution a moment ago is erased with it.
    subst hone
    rw [if_pos (by omega), Finmap.erase_insert, Finmap.erase_insert,
      erase_settledFailed report e w.failedExecutions]
    exact ReportStep.closed t e x delta horder hexecution hcount hends
  · rw [if_neg (by omega)]
    exact ReportStep.settled t e x delta count horder hexecution hcount hends hone

/-- A report with a known status has one of the three results, when the tables agree on its
order. -/
theorem processReport_ok {w : Worker n} {report : ExecutionReport}
    (hknown : report.status ≠ .UNKNOWN)
    (htables : ∀ t e, w.executionIdMap.lookup report.id = some (t, e) →
      e ∈ w.executionsMap ∧ e ∈ w.pendingOrdersCount) :
    ∃ w', w.processReport report = .ok w' ∧ ReportStep w report w' := by
  by_cases h : ∃ t e, w.executionIdMap.lookup report.id = some (t, e) ∧ Ends t report
  · obtain ⟨t, e, horder, hends⟩ := h
    obtain ⟨hmem, hmem'⟩ := htables t e horder
    obtain ⟨⟨x, delta⟩, hexecution⟩ := Finmap.mem_iff.mp hmem
    obtain ⟨count, hcount⟩ := Finmap.mem_iff.mp hmem'
    exact ⟨_, processReport_of_ends horder hexecution hends,
      reportStep_finishOrder horder hexecution hcount hends⟩
  · have hnot : ∀ t e, w.executionIdMap.lookup report.id = some (t, e) → ¬ Ends t report :=
      fun t e horder hends => h ⟨t, e, horder, hends⟩
    exact ⟨w, processReport_of_not_ends hknown (fun t e horder => (htables t e horder).1) hnot,
      ReportStep.ignored hnot⟩

/-- A report that throws nothing has one of the three results, when the tables agree on its
order. -/
theorem reportStep_of_ok {w w' : Worker n} {report : ExecutionReport}
    (htables : ∀ t e, w.executionIdMap.lookup report.id = some (t, e) →
      e ∈ w.executionsMap ∧ e ∈ w.pendingOrdersCount)
    (h : w.processReport report = .ok w') : ReportStep w report w' := by
  by_cases hknown : report.status = .UNKNOWN
  · -- An unknown status throws, unless the order is unknown too.
    have hnot : ∀ t, ¬ Ends t report := fun t => by simp [Ends, hknown]
    have hsame : w' = w := by
      unfold processReport at h
      split at h
      · cases h
        rfl
      · split at h
        · cases h
        · rw [hknown] at h
          cases h
    rw [hsame]
    exact ReportStep.ignored fun t _ _ => hnot t
  · obtain ⟨w'', hok, hstep⟩ := processReport_ok hknown htables
    rw [h, Except.ok.injEq] at hok
    rwa [hok]

end Harjus.Worker
