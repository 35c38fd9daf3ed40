import Harjus.Proofs.Worker.Steps

/-!
# `Harjus.Proofs.Worker.Bookkeeping`: the tables of the Worker agree

The Worker keeps what is in flight in four tables and one set of reserved symbols, and
writes them piece by piece. Two invariants tie them together:

* `Bookkeeping`: the executions and the pending counts have the same keys, every order
  points to an execution, a count is the number of orders that point to its execution and
  is at least one, and failed executions are in flight;
* `Exclusion`: the reserved symbols are exactly those of the executions in flight, and two
  executions share no symbol.

`Call` says what one step of the machine can be under `Bookkeeping`. `bookkeeping_call` and
`exclusion_call` are the step lemmas, one case for each result of `Steps`. `Invariant` has
both, `invariant_run` is its run lemma, and `call_run` is the run lemma of anything else that
every call keeps. `run_ok` says that a run over reports with known statuses never throws.

`Reachable` are the states of the runs from the constructed Worker. The last section has one
of them to evaluate.
-/

set_option autoImplicit false

namespace Harjus.Worker

open Harjus.Lib

variable {n : ℕ}

/-- The number of outstanding orders of the execution `e`. -/
def outstanding (w : Worker n) (e : String) : ℤ :=
  w.executionIdMap.count fun _ entry => entry.2 = e

/-- The execution tables agree. -/
structure Bookkeeping (w : Worker n) : Prop where
  keys : ∀ e, e ∈ w.executionsMap ↔ e ∈ w.pendingOrdersCount
  points : ∀ o t e, w.executionIdMap.lookup o = some (t, e) → e ∈ w.executionsMap
  count : ∀ e c, w.pendingOrdersCount.lookup e = some c → c = w.outstanding e
  pos : ∀ e c, w.pendingOrdersCount.lookup e = some c → 1 ≤ c
  failed : ∀ e ∈ w.failedExecutions, e ∈ w.executionsMap
  freshExecutions : Fresh w.ids w.executionsMap
  freshOrders : Fresh w.ids w.executionIdMap
  drawnOrders : ∀ o ∈ w.executionIdMap, ∃ k < w.ids.drawn, o = w.ids.id k

/-- The execution `e` is in flight and trades on the symbol `s`. -/
def Holds (w : Worker n) (e s : String) : Prop :=
  ∃ x delta, w.executionsMap.lookup e = some (x, delta) ∧ s ∈ x.symbols

/-- The reserved symbols are those of the executions in flight, each held by one of them. -/
structure Exclusion (w : Worker n) : Prop where
  reserved : ∀ s, s ∈ w.reservedTrades ↔ ∃ e, w.Holds e s
  disjoint : ∀ e e' s, w.Holds e s → w.Holds e' s → e = e'

/-! ### One step of the machine -/

/-- What one step of the machine does. -/
inductive Call (w : Worker n) : Event → Worker n → List SubmitOrder → Prop where
  | update {update : PriceUpdate} {w' : Worker n} {orders : List SubmitOrder}
      (h : UpdateStep w update w' orders) : Call w (.priceUpdate update) w' orders
  | report {report : ExecutionReport} {w' : Worker n}
      (h : ReportStep w report w') : Call w (.report report) w' []

/-- An outstanding order points into the two tables of executions. -/
theorem Bookkeeping.tables {w : Worker n} (hw : w.Bookkeeping) (o : String) :
    ∀ t e, w.executionIdMap.lookup o = some (t, e) →
      e ∈ w.executionsMap ∧ e ∈ w.pendingOrdersCount := fun t e h =>
  ⟨hw.points o t e h, (hw.keys e).mp (hw.points o t e h)⟩

/-- A price update of a consistent Worker has one of the results of `UpdateStep`. -/
theorem Bookkeeping.updateStep {w : Worker n} (hw : w.Bookkeeping) (update : PriceUpdate) :
    UpdateStep w update (w.processPriceUpdate update).1 (w.processPriceUpdate update).2 :=
  updateStep_processPriceUpdate update hw.freshExecutions hw.freshOrders

/-- What a step of the Worker does is one of its calls, for a Worker with its books in order. -/
theorem call_of_step {w w' : Worker n} (hw : w.Bookkeeping) {event : Event}
    {orders : List SubmitOrder} (h : w.step event = .ok (w', orders)) :
    Call w event w' orders := by
  cases event with
  | priceUpdate update =>
    have hstep := hw.updateStep update
    rw [step, Except.ok.injEq] at h
    rw [h] at hstep
    exact Call.update hstep
  | report report =>
    rw [step] at h
    split at h
    · cases h
    · rename_i w'' hok
      cases h
      exact Call.report (reportStep_of_ok (hw.tables report.id) hok)

/-- No step over a report with a known status throws. -/
theorem step_ok {w : Worker n} (hw : w.Bookkeeping) {event : Event} (hknown : event.Known) :
    ∃ w' orders, w.step event = .ok (w', orders) ∧ Call w event w' orders := by
  cases event with
  | priceUpdate update => exact ⟨_, _, rfl, Call.update (hw.updateStep update)⟩
  | report report =>
    obtain ⟨w', hok, hstep⟩ := processReport_ok hknown (hw.tables report.id)
    exact ⟨w', [], by rw [step, hok], Call.report hstep⟩

/-! ### The tables -/

/-- A constructed Worker has empty tables. -/
theorem bookkeeping_new (config : WorkerConfig n) : (new config).Bookkeeping where
  keys e := Iff.rfl
  points o t e h := by simp [new] at h
  count e c h := by simp [new] at h
  pos e c h := by simp [new] at h
  failed e h := absurd h (Finset.notMem_empty e)
  freshExecutions k _ := Finmap.notMem_empty
  freshOrders k _ := Finmap.notMem_empty
  drawnOrders o h := absurd h Finmap.notMem_empty

/-- The orders of a started execution all point to it. -/
private theorem count_submits {e : String} (e' : String) {trades : List StaticTrade}
    {ids : IdSource} {m : Finmap fun _ : String => StaticTrade × String}
    {result : IdSource × (Finmap fun _ : String => StaticTrade × String) × List SubmitOrder}
    (h : Submits e trades ids m result) :
    result.2.1.count (fun _ entry => entry.2 = e')
      = (if e = e' then (trades.length : ℤ) else 0) + m.count fun _ entry => entry.2 = e' := by
  have htotal := h.total fun entry => if entry.2 = e' then (1 : ℤ) else 0
  have hsum : (trades.map fun _ => if e = e' then (1 : ℤ) else 0).sum
      = if e = e' then (trades.length : ℤ) else 0 := by
    rw [List.map_const', List.sum_replicate]
    split <;> simp
  rw [← hsum]
  exact htotal

/-- What a price update does to the ids and the order table: it draws further ids, keeps the
old orders and adds the submitted ones under new ids. -/
structure Extends (w w' : Worker n) (orders : List SubmitOrder) : Prop where
  id : w'.ids.id = w.ids.id
  drawn : w.ids.drawn ≤ w'.ids.drawn
  old : ∀ o x, w.executionIdMap.lookup o = some x → w'.executionIdMap.lookup o = some x
  entries : ∀ o x, w'.executionIdMap.lookup o = some x →
    w.executionIdMap.lookup o = some x ∨ ∃ order ∈ orders, order.id = o
  orders : ∀ order ∈ orders, order.id ∈ w'.executionIdMap ∧
    ∃ k, w.ids.drawn ≤ k ∧ order.id = w.ids.id k

/-- A price update draws ids for its orders, adds the orders under them, and removes none. -/
theorem extends_update {w w' : Worker n} {update : PriceUpdate} {orders : List SubmitOrder}
    (hw : w.Bookkeeping) (h : UpdateStep w update w' orders) : Extends w w' orders := by
  cases h with
  | idle list hpath =>
    exact ⟨rfl, le_rfl, fun _ _ h => h, fun _ _ h => Or.inl h,
      fun _ h => absurd h List.not_mem_nil⟩
  | started list i opp budget result hpath haffected hopp hbudget hpos hprofit hfree hsubmits =>
    constructor
    case id => exact hsubmits.id_eq
    case drawn => exact hsubmits.lt_drawn.le
    case old => exact hsubmits.old
    case entries => exact hsubmits.submitted
    case orders =>
      intro order horder
      obtain ⟨t, -, -, hlookup⟩ := hsubmits.of_mem horder
      refine ⟨Finmap.mem_of_lookup_eq_some hlookup, ?_⟩
      rcases hsubmits.entries _ _ hlookup with hold | ⟨-, -, k, hk, hid⟩
      · exact absurd (hw.points _ _ _ hold) (hw.freshExecutions _ le_rfl)
      · exact ⟨k, Nat.le_of_succ_le hk, hid⟩

/-- An execution that is not in flight has no outstanding order. -/
theorem Bookkeeping.outstanding_eq_zero {w : Worker n} (hw : w.Bookkeeping) {e : String}
    (he : e ∉ w.executionsMap) : w.outstanding e = 0 := by
  refine (Finmap.count_eq_zero_iff _).mpr fun o entry ho hentry => ?_
  have hmem := hw.points o entry.1 entry.2 ho
  rw [hentry] at hmem
  exact he hmem

/-- A price update keeps the books in order. -/
private theorem bookkeeping_update {w w' : Worker n} {update : PriceUpdate}
    {orders : List SubmitOrder} (hw : w.Bookkeeping) (h : UpdateStep w update w' orders) :
    w'.Bookkeeping := by
  cases h with
  | idle list hpath =>
    exact ⟨hw.keys, hw.points, hw.count, hw.pos, hw.failed, hw.freshExecutions,
      hw.freshOrders, hw.drawnOrders⟩
  | started list i opp budget result hpath haffected hopp hbudget hpos hprofit hfree hsubmits =>
    have hnew : w.ids.id w.ids.drawn ∉ w.executionsMap := hw.freshExecutions _ le_rfl
    have hlen : (opp.trades.map (StaticTrade.ofTrade (w.book.apply update))).length
        = opp.trades.length := List.length_map _
    have hid : result.1.id = w.ids.id := hsubmits.id_eq
    constructor
    case keys =>
      intro e
      exact Finmap.mem_insert.trans
        ((or_congr_right (hw.keys e)).trans Finmap.mem_insert.symm)
    case points =>
      intro o t e ho
      refine Finmap.mem_insert.mpr ?_
      rcases hsubmits.entries o (t, e) ho with ho | ⟨-, he, -⟩
      · exact Or.inr (hw.points o t e ho)
      · exact Or.inl he
    case count =>
      -- All orders of the new execution point to it, and no old order does.
      intro e c hc
      have hcount := count_submits e hsubmits
      rw [hlen] at hcount
      refine Eq.trans ?_ hcount.symm
      simp only [started] at hc
      by_cases he : e = w.ids.id w.ids.drawn
      · subst he
        rw [Finmap.lookup_insert, Option.some.injEq] at hc
        have hzero := hw.outstanding_eq_zero hnew
        unfold outstanding at hzero
        rw [if_pos rfl, hzero, ← hc, add_zero]
      · rw [Finmap.lookup_insert_of_ne _ he] at hc
        rw [if_neg (Ne.symm he), zero_add]
        exact hw.count e c hc
    case pos =>
      refine Finmap.forall_insert ?_ fun e c _ h => hw.pos e c h
      have := List.length_pos_iff.mpr opp.nonempty
      omega
    case failed => exact fun e he => Finmap.mem_insert.mpr (Or.inr (hw.failed e he))
    case freshExecutions =>
      -- The id of the execution is drawn, and the rest of the stream has other ids.
      intro k hk hmem
      have hlt : w.ids.drawn < k := hsubmits.lt_drawn.trans_le hk
      rcases Finmap.mem_insert.mp hmem with hkey | hmem
      · simp only [started, hid] at hkey
        exact hlt.ne' (w.ids.distinct hkey)
      · simp only [started, hid] at hmem
        exact hw.freshExecutions k hlt.le hmem
    case freshOrders => exact hsubmits.fresh
    case drawnOrders =>
      intro o ho
      obtain ⟨⟨t, e⟩, hlookup⟩ := Finmap.mem_iff.mp ho
      simp only [started, hid]
      rcases hsubmits.entries o (t, e) hlookup with hold | ⟨-, -, k, -, hk⟩
      · obtain ⟨k, hlt, hk⟩ := hw.drawnOrders o (Finmap.mem_of_lookup_eq_some hold)
        exact ⟨k, hlt.trans hsubmits.lt_drawn, hk⟩
      · refine ⟨k, ?_, hk⟩
        by_contra hle
        refine hsubmits.fresh k (Nat.le_of_not_lt hle) ?_
        have hkey : result.1.id k = o := (congrFun hid k).trans hk.symm
        rw [hkey]
        exact ho

/-- An order that leaves the table was outstanding for its execution only. -/
theorem outstanding_erase {w : Worker n} {o : String} {t : StaticTrade} {e : String}
    (ho : w.executionIdMap.lookup o = some (t, e)) (e' : String) :
    (w.executionIdMap.erase o).count (fun _ entry => entry.2 = e')
      = w.outstanding e' - if e = e' then 1 else 0 :=
  Finmap.count_erase _ ho

/-- The last pending order of an execution is the only one that points to it. -/
private theorem not_points_of_last {w : Worker n} (hw : w.Bookkeeping) {o e : String}
    {t : StaticTrade} (ho : w.executionIdMap.lookup o = some (t, e))
    (hcount : w.pendingOrdersCount.lookup e = some 1) (o' : String) (t' : StaticTrade) :
    (w.executionIdMap.erase o).lookup o' ≠ some (t', e) := by
  intro ho'
  refine (Finmap.count_eq_zero_iff fun _ entry => entry.2 = e).mp ?_ o' (t', e) ho' rfl
  rw [outstanding_erase ho e, if_pos rfl, ← hw.count e 1 hcount]
  rfl

/-- A report keeps the books in order. -/
private theorem bookkeeping_report {w w' : Worker n} {report : ExecutionReport}
    (hw : w.Bookkeeping) (h : ReportStep w report w') : w'.Bookkeeping := by
  cases h with
  | ignored => exact hw
  | settled t e x delta c horder hexecution hcount hends hmore =>
    have hmem : e ∈ w.executionsMap := hw.points _ _ _ horder
    have hle := hw.pos e c hcount
    constructor
    case keys =>
      intro e'
      exact Finmap.mem_insert.trans ((or_congr_right (hw.keys e')).trans Finmap.mem_insert.symm)
    case points =>
      intro o t' e' ho
      exact Finmap.mem_insert.mpr
        (Or.inr (hw.points o t' e' (Finmap.lookup_erase_eq_some.mp ho).2))
    case count =>
      intro e' c' hc'
      refine Eq.trans ?_ (outstanding_erase horder e').symm
      by_cases he : e' = e
      · subst he
        rw [Finmap.lookup_insert, Option.some.injEq] at hc'
        rw [if_pos rfl, ← hw.count e' c hcount, hc']
      · rw [Finmap.lookup_insert_of_ne _ he] at hc'
        rw [if_neg (Ne.symm he), sub_zero]
        exact hw.count e' c' hc'
    case pos =>
      -- More than this order was pending, or the execution would be closed.
      exact Finmap.forall_insert (by omega) fun e' c' _ h => hw.pos e' c' h
    case failed =>
      intro e' he'
      refine Finmap.mem_insert.mpr ?_
      dsimp only [settledFailed] at he'
      split at he'
      · exact Or.inr (hw.failed e' he')
      · rcases Finset.mem_insert.mp he' with rfl | he'
        · exact Or.inl rfl
        · exact Or.inr (hw.failed e' he')
    case freshExecutions =>
      intro k hk hmem'
      rcases Finmap.mem_insert.mp hmem' with hkey | hmem'
      · exact hw.freshExecutions k hk (hkey ▸ hmem)
      · exact hw.freshExecutions k hk hmem'
    case freshOrders =>
      intro k hk hmem'
      exact hw.freshOrders k hk (Finmap.mem_erase.mp hmem').2
    case drawnOrders => exact fun o ho => hw.drawnOrders o (Finmap.mem_erase.mp ho).2
  | closed t e x delta horder hexecution hcount hends =>
    constructor
    case keys =>
      intro e'
      exact Finmap.mem_erase.trans ((and_congr_right' (hw.keys e')).trans Finmap.mem_erase.symm)
    case points =>
      intro o t' e' ho
      refine Finmap.mem_erase.mpr
        ⟨?_, hw.points o t' e' (Finmap.lookup_erase_eq_some.mp ho).2⟩
      rintro rfl
      exact not_points_of_last hw horder hcount o t' ho
    case count =>
      intro e' c' hc'
      refine Eq.trans ?_ (outstanding_erase horder e').symm
      obtain ⟨he, hc'⟩ := Finmap.lookup_erase_eq_some.mp hc'
      rw [if_neg (Ne.symm he), sub_zero]
      exact hw.count e' c' hc'
    case pos =>
      intro e' c' hc'
      exact hw.pos e' c' (Finmap.lookup_erase_eq_some.mp hc').2
    case failed =>
      intro e' he'
      obtain ⟨hne, he'⟩ := Finset.mem_erase.mp he'
      exact Finmap.mem_erase.mpr ⟨hne, hw.failed e' he'⟩
    case freshExecutions =>
      intro k hk hmem'
      exact hw.freshExecutions k hk (Finmap.mem_erase.mp hmem').2
    case freshOrders =>
      intro k hk hmem'
      exact hw.freshOrders k hk (Finmap.mem_erase.mp hmem').2
    case drawnOrders => exact fun o ho => hw.drawnOrders o (Finmap.mem_erase.mp ho).2

/-- Every step keeps the tables in agreement. -/
theorem bookkeeping_call {w w' : Worker n} {event : Event} {orders : List SubmitOrder}
    (hw : w.Bookkeeping) (h : Call w event w' orders) : w'.Bookkeeping := by
  cases h with
  | update h => exact bookkeeping_update hw h
  | report h => exact bookkeeping_report hw h

/-! ### The reserved symbols -/

/-- A constructed Worker has reserved nothing. -/
theorem exclusion_new (config : WorkerConfig n) : (new config).Exclusion where
  reserved s := by simp [new, Holds]
  disjoint e e' s h := by simp [new, Holds] at h

/-- A recorded execution has the symbols of its path. -/
@[simp] theorem symbols_ofOpportunity (book : Book) (opp : Opportunity) :
    (Execution.ofOpportunity book opp).symbols = opp.symbols := by
  simp [Execution.symbols, Execution.ofOpportunity, Opportunity.symbols, StaticTrade.ofTrade]

/-- Starting an execution adds its symbols under its id. -/
private theorem holds_started {w : Worker n} {book : Book} {list : Fin n → Opportunity}
    {opp : Opportunity} {e e' : String} {ids : IdSource}
    {m : Finmap fun _ : String => StaticTrade × String} (hnew : e ∉ w.executionsMap)
    (s : String) :
    (w.started book list opp e ids m).Holds e' s ↔
      e' = e ∧ s ∈ opp.symbols ∨ w.Holds e' s := by
  unfold Holds started
  by_cases he : e' = e
  · subst he
    simp [Finmap.lookup_eq_none.mpr hnew]
  · simp [Finmap.lookup_insert_of_ne _ he, he]

/-- Replacing the delta of an execution changes no symbol. -/
private theorem holds_settled {w : Worker n} {e : String} {x : Execution}
    {delta : AssetDelta} (h : w.executionsMap.lookup e = some (x, delta))
    (delta' : AssetDelta) (e' s : String) :
    (∃ x' d, (w.executionsMap.insert e (x, delta')).lookup e' = some (x', d) ∧
      s ∈ x'.symbols) ↔ w.Holds e' s := by
  unfold Holds
  by_cases he : e' = e
  · subst he
    simp [h]
  · rw [Finmap.lookup_insert_of_ne _ he]

/-- Erasing an execution drops what it holds. -/
private theorem holds_closed {w : Worker n} (e e' s : String) :
    (∃ x' d, (w.executionsMap.erase e).lookup e' = some (x', d) ∧ s ∈ x'.symbols) ↔
      e' ≠ e ∧ w.Holds e' s := by
  unfold Holds
  by_cases he : e' = e
  · subst he
    simp
  · rw [Finmap.lookup_erase_ne he]
    simp [he]

/-- A price update reserves only symbols that are free. -/
private theorem exclusion_update {w w' : Worker n} {update : PriceUpdate}
    {orders : List SubmitOrder} (hw : w.Bookkeeping) (hx : w.Exclusion)
    (h : UpdateStep w update w' orders) : w'.Exclusion := by
  cases h with
  | idle list hpath => exact ⟨hx.reserved, hx.disjoint⟩
  | started list i opp budget result hpath haffected hopp hbudget hpos hprofit hfree
      hsubmits =>
    have hholds : ∀ e' s,
        (w.started (w.book.apply update) list opp (w.ids.id w.ids.drawn) result.1
          result.2.1).Holds e' s ↔
          e' = w.ids.id w.ids.drawn ∧ s ∈ opp.symbols ∨ w.Holds e' s :=
      fun _ s => holds_started (hw.freshExecutions _ le_rfl) s
    -- An old execution holds reserved symbols only, and the new one none of them.
    have hnone : ∀ e' s, w.Holds e' s → s ∉ opp.symbols := fun e' s h hs =>
      hfree s hs ((hx.reserved s).mpr ⟨e', h⟩)
    constructor
    case reserved =>
      intro s
      refine ReservedTrades.mem_reserveAll.trans ?_
      rw [hx.reserved s]
      constructor
      · rintro (⟨e', h⟩ | hs)
        · exact ⟨e', (hholds e' s).mpr (Or.inr h)⟩
        · exact ⟨_, (hholds _ s).mpr (Or.inl ⟨rfl, hs⟩)⟩
      · rintro ⟨e', h⟩
        rcases (hholds e' s).mp h with ⟨-, hs⟩ | h
        · exact Or.inr hs
        · exact Or.inl ⟨e', h⟩
    case disjoint =>
      intro e₁ e₂ s h₁ h₂
      rcases (hholds e₁ s).mp h₁ with ⟨he₁, hs⟩ | h₁ <;>
        rcases (hholds e₂ s).mp h₂ with ⟨he₂, hs'⟩ | h₂
      · rw [he₁, he₂]
      · exact absurd hs (hnone e₂ s h₂)
      · exact absurd hs' (hnone e₁ s h₁)
      · exact hx.disjoint e₁ e₂ s h₁ h₂

/-- A report releases only the symbols of the execution that it closes. -/
private theorem exclusion_report {w w' : Worker n} {report : ExecutionReport}
    (hx : w.Exclusion) (h : ReportStep w report w') : w'.Exclusion := by
  cases h with
  | ignored => exact hx
  | settled t e x delta count horder hexecution hcount hends hmore =>
    have hholds := holds_settled hexecution (settledDelta t report delta)
    constructor
    case reserved =>
      intro s
      exact (hx.reserved s).trans (exists_congr fun e' => (hholds e' s).symm)
    case disjoint =>
      intro e₁ e₂ s h₁ h₂
      exact hx.disjoint e₁ e₂ s ((hholds e₁ s).mp h₁) ((hholds e₂ s).mp h₂)
  | closed t e x delta horder hexecution hcount hends =>
    have hholds := holds_closed (w := w) e
    constructor
    case reserved =>
      -- Another execution that holds a released symbol would share it with the closed one.
      intro s
      refine ReservedTrades.mem_releaseAll.trans ?_
      rw [hx.reserved s]
      constructor
      · rintro ⟨⟨e', h⟩, hs⟩
        refine ⟨e', (hholds e' s).mpr ⟨?_, h⟩⟩
        rintro rfl
        obtain ⟨x', d, hlookup, hs'⟩ := h
        rw [hexecution, Option.some.injEq, Prod.mk.injEq] at hlookup
        exact hs (hlookup.1 ▸ hs')
      · rintro ⟨e', h⟩
        obtain ⟨hne, h⟩ := (hholds e' s).mp h
        exact ⟨⟨e', h⟩, fun hs => hne (hx.disjoint e' e s h ⟨x, delta, hexecution, hs⟩)⟩
    case disjoint =>
      intro e₁ e₂ s h₁ h₂
      exact hx.disjoint e₁ e₂ s ((hholds e₁ s).mp h₁).2 ((hholds e₂ s).mp h₂).2

/-- Every step keeps the reservations exact and exclusive. -/
theorem exclusion_call {w w' : Worker n} {event : Event} {orders : List SubmitOrder}
    (hw : w.Bookkeeping) (hx : w.Exclusion) (h : Call w event w' orders) : w'.Exclusion := by
  cases h with
  | update h => exact exclusion_update hw hx h
  | report h => exact exclusion_report hx h

/-! ### Runs -/

/-- What the Worker keeps at all times. -/
structure Invariant (w : Worker n) : Prop where
  tables : w.Bookkeeping
  symbols : w.Exclusion

/-- A constructed Worker has the invariant. -/
theorem invariant_new (config : WorkerConfig n) : (new config).Invariant :=
  ⟨bookkeeping_new config, exclusion_new config⟩

/-- A call keeps the invariant. -/
theorem invariant_call {w w' : Worker n} {event : Event} {orders : List SubmitOrder}
    (hw : w.Invariant) (h : Call w event w' orders) : w'.Invariant :=
  ⟨bookkeeping_call hw.tables h, exclusion_call hw.tables hw.symbols h⟩

/-- A run keeps the invariant. -/
theorem invariant_run {w w' : Worker n} {events : List Event} {out : List SubmitOrder}
    (hw : w.Invariant) (h : (machine n).run w events = .ok (w', out)) : w'.Invariant :=
  Machine.run_preserves (M := machine n) (I := Invariant) (A := fun _ => True)
    (fun _ _ _ _ hw _ hstep => invariant_call hw (call_of_step hw.tables hstep))
    (fun _ _ => trivial) hw h

/-- What every call keeps under the invariant, every run keeps. -/
theorem call_run {P : Worker n → Prop} {A : Event → Prop}
    (hcall : ∀ {w w' : Worker n} {event : Event} {orders : List SubmitOrder},
      w.Invariant → P w → A event → Call w event w' orders → P w')
    {w w' : Worker n} {events : List Event} {out : List SubmitOrder}
    (hevents : ∀ event ∈ events, A event) (hw : w.Invariant) (hP : P w)
    (h : (machine n).run w events = .ok (w', out)) : P w' :=
  (Machine.run_preserves (M := machine n) (I := fun w => w.Invariant ∧ P w) (A := A)
    (fun _ _ _ _ ⟨hw, hP⟩ hevent hstep =>
      have h := call_of_step hw.tables hstep
      ⟨invariant_call hw h, hcall hw hP hevent h⟩)
    hevents ⟨hw, hP⟩ h).2

/-- A run over reports with known statuses never throws. -/
theorem run_ok {w : Worker n} (hw : w.Invariant) {events : List Event}
    (hknown : ∀ event ∈ events, event.Known) :
    ∃ w' out, (machine n).run w events = .ok (w', out) ∧ w'.Invariant :=
  Machine.run_total
    (fun _ _ hw hknown => by
      obtain ⟨w', orders, hstep, hcall⟩ := step_ok hw.tables hknown
      exact ⟨w', orders, hstep, invariant_call hw hcall⟩)
    hknown hw

/-- The states of the Worker after some run from the constructed state. -/
def Reachable (config : WorkerConfig n) (w : Worker n) : Prop :=
  ∃ events out, (machine n).run (new config) events = .ok (w, out)

/-- Every reachable Worker has the invariant. -/
theorem Reachable.invariant {config : WorkerConfig n} {w : Worker n}
    (h : Reachable config w) : w.Invariant := by
  obtain ⟨events, out, hrun⟩ := h
  exact invariant_run (invariant_new config) hrun

/-! ### Two concrete Workers

Three markets, one triangle over them and a budget of 100 USDT. Buying ether with USDT
through BTC costs 10 USDT a piece, and the sample update offers 12 for it.

The second Worker has two further paths. Through LTC a piece costs 5 USDT, but only one LTC
is on offer, and `aside` shares no symbol with the others. -/

/-- `BTCUSDT`, `ETHBTC`, `ETHUSDT`, bought, bought and sold. -/
def triangle : TradingPath where
  trades :=
    [⟨⟨"BTCUSDT", "BTC", "USDT", .one, ⟨100000⟩⟩, .LONG, 0⟩,
      ⟨⟨"ETHBTC", "ETH", "BTC", ⟨1000000⟩, ⟨100000⟩⟩, .LONG, 0⟩,
      ⟨⟨"ETHUSDT", "ETH", "USDT", .one, ⟨100000⟩⟩, .SHORT, 0⟩]
  nonempty := by decide

/-- The ids `x`, `xx` and so on after the empty id. -/
def sampleIds : IdSource where
  id k := String.ofList (List.replicate k 'x')
  distinct a b h := by simpa using congrArg List.length (String.ofList_injective h)
  drawn := 0

/-- The markets before the sample update: the sale of ether brings 9 USDT. -/
def sampleBook : Book := fun symbol =>
  if symbol = "BTCUSDT" then ⟨.ofCount 99, .ofCount 100, .ofCount 10, .ofCount 10⟩
  else if symbol = "ETHBTC" then ⟨⟨900000000⟩, ⟨1000000000⟩, .ofCount 100, .ofCount 100⟩
  else if symbol = "ETHUSDT" then ⟨.ofCount 9, .ofCount 10, .ofCount 100, .ofCount 100⟩
  else ⟨0, 0, 0, 0⟩

/-- A Worker with the triangle and 100 USDT. -/
def sampleConfig : WorkerConfig 1 where
  tradingPaths _ := triangle
  relativeValues := Finmap.singleton "USDT" .one
  balance := Finmap.singleton "USDT" (.ofCount 100)
  commission := ⟨10000000⟩
  book := sampleBook
  hashOrder := ⟨id, List.Perm.refl⟩
  ids := sampleIds

/-- The quote that makes the triangle profitable. -/
def sampleUpdate : PriceUpdate :=
  ⟨"ETHUSDT", .ofCount 12, .ofCount 13, .ofCount 100, .ofCount 100⟩

/-- The Worker after the sample update: the triangle is in flight. -/
@[irreducible] def sampleWorker : Worker 1 :=
  ((new sampleConfig).processPriceUpdate sampleUpdate).1

/-- The sample Worker has been constructed and given one quote. -/
theorem reachable_sampleWorker : Reachable sampleConfig sampleWorker := by
  unfold sampleWorker
  exact ⟨[.priceUpdate sampleUpdate], _, rfl⟩

example : ((new sampleConfig).processPriceUpdate sampleUpdate).2.map (·.symbol)
    = ["BTCUSDT", "ETHBTC", "ETHUSDT"] := by decide +kernel

/-- `LTCUSDT`, `ETHLTC`, `ETHUSDT`, bought, bought and sold. -/
def detour : TradingPath where
  trades :=
    [⟨⟨"LTCUSDT", "LTC", "USDT", .one, ⟨100000⟩⟩, .LONG, 0⟩,
      ⟨⟨"ETHLTC", "ETH", "LTC", ⟨1000000⟩, ⟨100000⟩⟩, .LONG, 0⟩,
      ⟨⟨"ETHUSDT", "ETH", "USDT", .one, ⟨100000⟩⟩, .SHORT, 0⟩]
  nonempty := by decide

/-- `XRPUSDT`, `ADAXRP`, `ADAUSDT`, bought, bought and sold. -/
def aside : TradingPath where
  trades :=
    [⟨⟨"XRPUSDT", "XRP", "USDT", .one, ⟨100000⟩⟩, .LONG, 0⟩,
      ⟨⟨"ADAXRP", "ADA", "XRP", ⟨1000000⟩, ⟨100000⟩⟩, .LONG, 0⟩,
      ⟨⟨"ADAUSDT", "ADA", "USDT", .one, ⟨100000⟩⟩, .SHORT, 0⟩]
  nonempty := by decide

/-- The sample book with the markets of the two other paths. -/
def threeBook : Book := fun symbol =>
  if symbol = "LTCUSDT" then ⟨.ofCount 49, .ofCount 50, .ofCount 1, .ofCount 1⟩
  else if symbol = "ETHLTC" then ⟨⟨900000000⟩, ⟨1000000000⟩, .ofCount 100, .ofCount 100⟩
  else if symbol = "XRPUSDT" then ⟨.one, .one, .ofCount 10, .ofCount 10⟩
  else if symbol = "ADAXRP" then ⟨.one, .one, .ofCount 100, .ofCount 100⟩
  else if symbol = "ADAUSDT" then ⟨.one, .one, .ofCount 100, .ofCount 100⟩
  else sampleBook symbol

/-- A Worker with three paths. -/
def threeConfig : WorkerConfig 3 where
  tradingPaths i := if i = 0 then triangle else if i = 1 then detour else aside
  relativeValues := Finmap.singleton "USDT" .one
  balance := Finmap.singleton "USDT" (.ofCount 100)
  commission := ⟨10000000⟩
  book := threeBook
  hashOrder := ⟨id, List.Perm.refl⟩
  ids := sampleIds

/-- `aside` has a profit. -/
def asideUpdate : PriceUpdate :=
  ⟨"ADAUSDT", .ofCount 2, .ofCount 3, .ofCount 100, .ofCount 100⟩

/-- The detour is started, then `aside`, and two orders of the detour expire. -/
def threeRun : List Event :=
  [.priceUpdate sampleUpdate, .priceUpdate asideUpdate,
    .report ⟨"x", .EXPIRED, 0, 0, ∅⟩, .report ⟨"xx", .EXPIRED, 0, 0, ∅⟩]

end Harjus.Worker
