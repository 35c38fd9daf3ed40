import Harjus.Proofs.Worker.Consistency

/-!
# `Harjus.Proofs.Worker.Ledger`: no money appears or disappears

The Worker keeps money in the balance and in the deltas of the executions in flight. A
reservation moves the capacity from the balance to a new delta, a completion moves a delta
to the balance, and a completing fill credits a delta. `worth` is what both places hold of
an asset.

* `settlements`: the order that a call settles, with its report.
* `worth_call`: a call moves `worth` by the credits of what it settles. One case for each
  result of a call.
* `Accounted`: no order is settled twice, and a delta in flight is the capacity of its
  execution with the credits of its settled orders. `accounted_step` is the step lemma,
  `accounted_run` the run lemma.
* `settles_of_ends`: the report that ends an order credits the delta, and the report that
  ends the last order of an execution moves the delta to the balance.
* `ledger_conserved`: the account of every run from the constructed Worker.
-/

set_option autoImplicit false

namespace Harjus.Worker

open Harjus.Lib

variable {n : ℕ}

/-- What the deltas of the executions in flight hold of the asset. -/
def held (w : Worker n) (asset : String) : PreciseNumber :=
  Finmap.total (fun _ entry => entry.2.amount asset) w.executionsMap

/-- What the Worker holds of the asset. -/
def worth (w : Worker n) (asset : String) : PreciseNumber :=
  w.balance.amount asset + w.held asset

/-- What a report that fills an order completely brings of the asset: the received quantity,
less the used quantity, with the fees of the report. -/
def fillCredit (asset : String) (trade : StaticTrade) (report : ExecutionReport) :
    PreciseNumber :=
  (if asset = trade.recvCurrency then report.recvQty else 0)
    - (if asset = trade.usedCurrency then report.usedQty else 0)
    + report.feeDelta.amount asset

/-- An order of an execution with the report that filled it completely. -/
structure Settlement where
  trade : StaticTrade
  execution : String
  report : ExecutionReport

/-- What a settlement brings of the asset. -/
def Settlement.credit (asset : String) (s : Settlement) : PreciseNumber :=
  fillCredit asset s.trade s.report

/-- The outstanding order that a call settles by a completing `FILLED` report. -/
def settlements (w : Worker n) : Event → List Settlement
  | .priceUpdate _ => []
  | .report report =>
    match w.executionIdMap.lookup report.id with
    | none => []
    | some (trade, execution) =>
      if report.status = .FILLED ∧ trade.orderQty ≤ compareQty trade report then
        [⟨trade, execution, report⟩]
      else []

/-- The total credit of a list of settlements. -/
def credits (asset : String) (settled : List Settlement) : PreciseNumber :=
  (settled.map (Settlement.credit asset)).sum

/-- Without settlements there are no credits. -/
@[simp] theorem credits_nil (asset : String) : credits asset [] = 0 := rfl

/-- Credits of settlements in a row add up. -/
theorem credits_append (asset : String) (settled settled' : List Settlement) :
    credits asset (settled ++ settled') = credits asset settled + credits asset settled' := by
  rw [credits, List.map_append, List.sum_append]
  rfl

/-! ### The delta of an order that ends -/

/-- A completing `FILLED` report adds its credit to the delta. -/
theorem amount_fillDelta (t : StaticTrade) (report : ExecutionReport) (delta : AssetDelta)
    (asset : String) :
    (fillDelta t report delta).amount asset
      = delta.amount asset + fillCredit asset t report := by
  rw [fillDelta, Finmap.amount_post, Finmap.amount_charge, Finmap.amount_postAll,
    fillCredit]
  abel

/-- An order that ends changes its delta by the credits of what the report settles. -/
theorem amount_settledDelta {w : Worker n} {report : ExecutionReport} {t : StaticTrade}
    {e : String} (horder : w.executionIdMap.lookup report.id = some (t, e))
    (hends : Ends t report) (delta : AssetDelta) (asset : String) :
    (settledDelta t report delta).amount asset
      = delta.amount asset + credits asset (w.settlements (.report report)) := by
  simp only [settlements, horder]
  rcases hends with hstatus | hstatus | ⟨hstatus, hfull⟩
  -- A rejected or expired order settles nothing and leaves the delta.
  · simp [settledDelta, credits, hstatus]
  · simp [settledDelta, credits, hstatus]
  · rw [settledDelta, if_pos hstatus, if_pos ⟨hstatus, hfull⟩, amount_fillDelta, credits,
      List.map_singleton, List.sum_singleton]
    rfl

/-- A report that ends no order settles none. -/
theorem settlements_of_not_ends {w : Worker n} {report : ExecutionReport}
    (h : ∀ t e, w.executionIdMap.lookup report.id = some (t, e) → ¬ Ends t report) :
    w.settlements (.report report) = [] := by
  simp only [settlements]
  split
  · rfl
  · rename_i t e horder
    exact if_neg fun hfull => h t e horder (Or.inr (Or.inr hfull))

/-! ### One call and a whole run -/

/-- A call changes the worth by the credits of what it settles. -/
theorem worth_call {w w' : Worker n} {event : Event} {orders : List SubmitOrder}
    (hw : w.Bookkeeping) (h : Call w event w' orders) (asset : String) :
    w'.worth asset = w.worth asset + credits asset (w.settlements event) := by
  cases h with
  | update h =>
    refine Eq.trans ?_ (add_zero (w.worth asset)).symm
    cases h with
    | idle list hpath => rfl
    | started list i opp budget result hpath haffected hopp hbudget hpos hprofit hfree
        hsubmits =>
      -- The capacity leaves the balance and is the delta of the new execution.
      simp only [worth, held, started]
      rw [Finmap.total_insert _ _ (hw.freshExecutions _ le_rfl), Finmap.amount_post,
        Finmap.amount_singleton]
      by_cases hasset : asset = opp.startingAsset
      · rw [if_pos hasset, if_pos hasset]
        abel
      · rw [if_neg hasset, if_neg hasset]
        abel
  | @report report _ h =>
    cases h with
    | ignored h =>
      rw [settlements_of_not_ends h]
      exact (add_zero _).symm
    | settled t e x delta count horder hexecution hcount hends hmore =>
      -- The credit goes into the delta, and the balance stays.
      have hdelta := amount_settledDelta horder hends delta asset
      have htotal := Finmap.total_overwrite (fun _ entry => entry.2.amount asset)
        (x, settledDelta t report delta) hexecution
      simp only [worth, held]
      rw [hdelta, add_assoc, add_right_inj] at htotal
      rw [htotal]
      abel
    | closed t e x delta horder hexecution hcount hends =>
      -- The delta with the last credit leaves the table and goes into the balance.
      have hdelta := amount_settledDelta horder hends delta asset
      have htotal := Finmap.total_erase (fun _ entry => entry.2.amount asset) hexecution
      simp only [worth, held]
      rw [Finmap.amount_postAll, hdelta, ← htotal]
      abel

/-- Along a run, `worth` moves by the credits of all settlements. -/
theorem worth_run {w w' : Worker n} {events : List Event} {out : List SubmitOrder}
    (hw : w.Invariant) (h : (machine n).run w events = .ok (w', out)) (asset : String) :
    w'.worth asset
      = w.worth asset + credits asset ((machine n).history settlements w events) :=
  Machine.run_accounting (M := machine n) (I := Invariant) (A := fun _ => True)
    (fun w => w.worth asset) (Settlement.credit asset)
    (fun _ _ _ _ hw _ hstep => invariant_call hw (call_of_step hw.tables hstep))
    (fun _ _ _ _ hw _ hstep => worth_call hw.tables (call_of_step hw.tables hstep) asset)
    (fun _ _ => trivial) hw h

/-- A constructed Worker is worth its initial balance. -/
theorem worth_new (config : WorkerConfig n) (asset : String) :
    (new config).worth asset = config.balance.amount asset := by
  simp [worth, held, new]

/-! ### One settlement an order -/

/-- A report about an outstanding order settles that order or none. -/
theorem settlements_of_order {w : Worker n} {report : ExecutionReport} {t : StaticTrade}
    {e : String} (horder : w.executionIdMap.lookup report.id = some (t, e)) :
    w.settlements (.report report) = [] ∨
      w.settlements (.report report) = [⟨t, e, report⟩] := by
  simp only [settlements, horder]
  split
  · exact Or.inr rfl
  · exact Or.inl rfl

/-- A report about an order of `e` settles nothing but that order. -/
theorem of_mem_settlements {w : Worker n} {report : ExecutionReport} {t : StaticTrade}
    {e : String} (horder : w.executionIdMap.lookup report.id = some (t, e)) {s : Settlement}
    (hs : s ∈ w.settlements (.report report)) : s.report = report ∧ s.execution = e := by
  rcases settlements_of_order horder with hnone | hone
  · rw [hnone] at hs
    exact absurd hs List.not_mem_nil
  · rw [hone, List.mem_singleton] at hs
    rw [hs]
    exact ⟨rfl, rfl⟩

/-- What the settlements so far say about the Worker: no order was settled twice, and none
can be settled again. A delta in flight is the capacity of its execution with the credits of
its settled orders. -/
structure Accounted (w : Worker n) (settled : List Settlement) : Prop where
  invariant : w.Invariant
  nodup : (settled.map (·.report.id)).Nodup
  spent : ∀ s ∈ settled, w.Spent s.report.id
  drawn : ∀ s ∈ settled, ∀ k, w.ids.drawn ≤ k → w.ids.id k ≠ s.execution
  delta : ∀ e x delta, w.executionsMap.lookup e = some (x, delta) → ∀ asset,
    delta.amount asset = (if asset = x.startingAsset then x.capacity else 0)
      + credits asset (settled.filter (·.execution = e))

/-- A constructed Worker has settled nothing. -/
theorem accounted_new (config : WorkerConfig n) : Accounted (new config) [] where
  invariant := invariant_new config
  nodup := List.nodup_nil
  spent _ h := absurd h List.not_mem_nil
  drawn _ h := absurd h List.not_mem_nil
  delta e x delta h := by simp [new] at h

/-- A price update settles nothing. It keeps the deltas, or starts one with its capacity. -/
private theorem accounted_update {w w' : Worker n} {settled : List Settlement}
    {update : PriceUpdate} {orders : List SubmitOrder} (hw : Accounted w settled)
    (h : UpdateStep w update w' orders) : Accounted w' settled := by
  have hcall : Call w (.priceUpdate update) w' orders := Call.update h
  refine ⟨invariant_call hw.invariant hcall, hw.nodup,
    fun s hs => spent_call (hw.spent s hs) hcall, ?_, ?_⟩
  · intro s hs k hk
    have hextends := extends_update hw.invariant.tables h
    rw [hextends.id]
    exact hw.drawn s hs k (hextends.drawn.trans hk)
  · cases h with
    | idle list hpath => exact hw.delta
    | started list i opp budget result hpath haffected hopp hbudget hpos hprofit hfree
        hsubmits =>
      intro e x delta hlookup asset
      simp only [started] at hlookup
      by_cases he : e = w.ids.id w.ids.drawn
      · -- The new execution has a new id, so nothing is settled under it.
        have hnone : settled.filter (·.execution = e) = [] := by
          refine List.filter_eq_nil_iff.mpr fun s hs => ?_
          rw [decide_eq_true_eq, he]
          exact (hw.drawn s hs _ le_rfl).symm
        rw [he, Finmap.lookup_insert, Option.some.injEq, Prod.mk.injEq] at hlookup
        obtain ⟨rfl, rfl⟩ := hlookup
        rw [hnone, credits_nil, add_zero]
        exact Finmap.amount_singleton _ _ _
      · rw [Finmap.lookup_insert_of_ne _ he] at hlookup
        exact hw.delta e x delta hlookup asset

/-- A report that ends an order of `e` records settlements of `e` only. -/
private theorem credits_filter_settlements {w : Worker n} {report : ExecutionReport}
    {t : StaticTrade} {e : String}
    (horder : w.executionIdMap.lookup report.id = some (t, e)) (settled : List Settlement)
    (e' asset : String) :
    credits asset ((settled ++ w.settlements (.report report)).filter (·.execution = e'))
      = credits asset (settled.filter (·.execution = e'))
        + if e' = e then credits asset (w.settlements (.report report)) else 0 := by
  rw [List.filter_append, credits_append, add_right_inj]
  rcases settlements_of_order horder with hnone | hone
  · rw [hnone]
    simp
  · rw [hone]
    by_cases he : e' = e
    · simp [he]
    · simp [he, Ne.symm he]

/-- The deltas after a report that ends an order. -/
private theorem delta_of_ends {w w' : Worker n} {settled : List Settlement}
    {report : ExecutionReport} {t : StaticTrade} {e : String} (hw : Accounted w settled)
    (horder : w.executionIdMap.lookup report.id = some (t, e)) (hends : Ends t report)
    (h : ReportStep w report w') {e' : String} {x : Execution} {delta : AssetDelta}
    (hlookup : w'.executionsMap.lookup e' = some (x, delta)) (asset : String) :
    delta.amount asset = (if asset = x.startingAsset then x.capacity else 0)
      + credits asset
        ((settled ++ w.settlements (.report report)).filter (·.execution = e')) := by
  rw [credits_filter_settlements horder]
  cases h with
  | ignored hnot => exact absurd hends (hnot t e horder)
  | settled t₁ e₁ x₁ delta₁ count horder₁ hexecution =>
    rw [horder, Option.some.injEq, Prod.mk.injEq] at horder₁
    obtain ⟨rfl, rfl⟩ := horder₁
    by_cases he : e' = e
    · subst he
      rw [Finmap.lookup_insert, Option.some.injEq, Prod.mk.injEq] at hlookup
      obtain ⟨rfl, rfl⟩ := hlookup
      rw [if_pos rfl, amount_settledDelta horder hends,
        hw.delta e' x₁ delta₁ hexecution asset, add_assoc]
    · rw [Finmap.lookup_insert_of_ne _ he] at hlookup
      rw [if_neg he, add_zero]
      exact hw.delta e' x delta hlookup asset
  | closed t₁ e₁ x₁ delta₁ horder₁ hexecution =>
    rw [horder, Option.some.injEq, Prod.mk.injEq] at horder₁
    obtain ⟨rfl, rfl⟩ := horder₁
    obtain ⟨he, hlookup⟩ := Finmap.lookup_erase_eq_some.mp hlookup
    rw [if_neg he, add_zero]
    exact hw.delta e' x delta hlookup asset

/-- A report that ends an order: the order was outstanding, so it was not settled before, and
it is spent from now on. -/
private theorem accounted_ends {w w' : Worker n} {settled : List Settlement}
    {report : ExecutionReport} {t : StaticTrade} {e : String} (hw : Accounted w settled)
    (horder : w.executionIdMap.lookup report.id = some (t, e)) (hends : Ends t report)
    (h : ReportStep w report w') :
    Accounted w' (settled ++ w.settlements (.report report)) := by
  have hcall : Call w (.report report) w' [] := Call.report h
  have hids : w'.ids = w.ids := by cases h <;> rfl
  have hmem := Finmap.mem_of_lookup_eq_some horder
  have hspent : w'.Spent report.id := by
    refine ⟨by rw [hids]; exact hw.invariant.tables.drawnOrders _ hmem, ?_⟩
    cases h with
    | ignored hnot => exact absurd hends (hnot t e horder)
    | settled | closed => exact Finmap.notMem_erase_self
  constructor
  case invariant => exact invariant_call hw.invariant hcall
  case nodup =>
    rcases settlements_of_order horder with hnone | hone
    · rw [hnone, List.append_nil]
      exact hw.nodup
    · rw [hone, List.map_append, List.map_singleton, List.nodup_append]
      refine ⟨hw.nodup, List.nodup_singleton _, ?_⟩
      -- A settled order is spent, and this one was still outstanding.
      intro id hid id' hid' heq
      obtain ⟨s, hs, rfl⟩ := List.mem_map.mp hid
      rw [List.mem_singleton.mp hid'] at heq
      exact (hw.spent s hs).2 (heq ▸ hmem)
  case spent =>
    intro s hs
    rcases List.mem_append.mp hs with hs | hs
    · exact spent_call (hw.spent s hs) hcall
    · rw [(of_mem_settlements horder hs).1]
      exact hspent
  case drawn =>
    intro s hs k hk
    rw [hids] at hk ⊢
    rcases List.mem_append.mp hs with hs | hs
    · exact hw.drawn s hs k hk
    · rw [(of_mem_settlements horder hs).2]
      exact fun he => hw.invariant.tables.freshExecutions k hk
        (he ▸ hw.invariant.tables.points _ t e horder)
  case delta =>
    exact fun e' x delta hlookup asset => delta_of_ends hw horder hends h hlookup asset

/-- A report settles at most the order that it is about. -/
private theorem accounted_report {w w' : Worker n} {settled : List Settlement}
    {report : ExecutionReport} (hw : Accounted w settled) (h : ReportStep w report w') :
    Accounted w' (settled ++ w.settlements (.report report)) := by
  by_cases hends : ∃ t e, w.executionIdMap.lookup report.id = some (t, e) ∧ Ends t report
  · obtain ⟨t, e, horder, hends⟩ := hends
    exact accounted_ends hw horder hends h
  · have hnot : ∀ t e, w.executionIdMap.lookup report.id = some (t, e) → ¬ Ends t report :=
      fun t e horder hend => hends ⟨t, e, horder, hend⟩
    rw [settlements_of_not_ends hnot, List.append_nil]
    cases h with
    | ignored => exact hw
    | settled t e x delta count horder _ _ hend => exact absurd hend (hnot t e horder)
    | closed t e x delta horder _ _ hend => exact absurd hend (hnot t e horder)

/-- Every call keeps the account, with what it settles. -/
theorem accounted_step (w : Worker n) (settled : List Settlement) (event : Event)
    (w' : Worker n) (orders : List SubmitOrder) (hw : Accounted w settled)
    (h : (machine n).step w event = .ok (w', orders)) :
    Accounted w' (settled ++ w.settlements event) := by
  have hcall := call_of_step hw.invariant.tables h
  cases hcall with
  | update hupdate =>
    show Accounted w' (settled ++ [])
    rw [List.append_nil]
    exact accounted_update hw hupdate
  | report hreport => exact accounted_report hw hreport

/-- In every run the settlements account for the deltas in flight. -/
theorem accounted_run {config : WorkerConfig n} {w : Worker n} {events : List Event}
    {out : List SubmitOrder} (h : (machine n).run (new config) events = .ok (w, out)) :
    Accounted w ((machine n).history settlements (new config) events) :=
  Machine.run_records accounted_step (accounted_new config) h

/-! ### The end of an order -/

/-- The report ended an order of the execution `e`, which had the delta `delta`. While other
orders of `e` are pending, the delta takes what the report settles and the balance stays.
With the last one the execution leaves its table for good, and the delta with what the report
settles goes into the balance. -/
structure Settles (w w' : Worker n) (report : ExecutionReport) (e : String) (x : Execution)
    (delta : AssetDelta) : Prop extends Finishes w w' report.id e where
  credited : w.outstanding e ≠ 1 → w'.balance = w.balance ∧
    ∃ delta', w'.executionsMap = w.executionsMap.insert e (x, delta') ∧ ∀ asset,
      delta'.amount asset
        = delta.amount asset + credits asset (w.settlements (.report report))
  returned : w.outstanding e = 1 →
    (∀ asset, w'.balance.amount asset = w.balance.amount asset
      + (delta.amount asset + credits asset (w.settlements (.report report)))) ∧
    ∀ events w'' out, (machine n).run w' events = .ok (w'', out) → e ∉ w''.executionsMap

/-- A `REJECTED`, `EXPIRED` or completing `FILLED` report about an outstanding order settles
it. -/
theorem settles_of_ends {w : Worker n} (hw : w.Invariant) {report : ExecutionReport}
    {t : StaticTrade} {e : String} {x : Execution} {delta : AssetDelta}
    (horder : w.executionIdMap.lookup report.id = some (t, e))
    (hexecution : w.executionsMap.lookup e = some (x, delta)) (hends : Ends t report) :
    ∃ w', w.processReport report = .ok w' ∧ Settles w w' report e x delta := by
  obtain ⟨w', hok, hfinishes⟩ := finishes_of_ends hw.tables horder hends
  have hstep := reportStep_of_ok (hw.tables.tables report.id) hok
  have hamount := amount_settledDelta horder hends delta
  refine ⟨w', hok, hfinishes, fun hmore => ?_, fun hlast => ⟨?_, ?_⟩⟩
  · -- More orders are outstanding: the execution keeps its delta in flight.
    cases hstep with
    | ignored hnot => exact absurd hends (hnot t e horder)
    | settled t₁ e₁ x₁ delta₁ count horder₁ hexecution₁ =>
      rw [horder, Option.some.injEq, Prod.mk.injEq] at horder₁
      obtain ⟨rfl, rfl⟩ := horder₁
      rw [hexecution, Option.some.injEq, Prod.mk.injEq] at hexecution₁
      obtain ⟨rfl, rfl⟩ := hexecution₁
      exact ⟨rfl, _, rfl, hamount⟩
    | closed t₁ e₁ x₁ delta₁ horder₁ _ hcount =>
      rw [horder, Option.some.injEq, Prod.mk.injEq] at horder₁
      obtain ⟨rfl, rfl⟩ := horder₁
      exact absurd (hw.tables.count e 1 hcount).symm hmore
  · -- The last order: the delta goes to the balance.
    intro asset
    cases hstep with
    | ignored hnot => exact absurd hends (hnot t e horder)
    | settled t₁ e₁ x₁ delta₁ count horder₁ _ hcount _ hmore =>
      rw [horder, Option.some.injEq, Prod.mk.injEq] at horder₁
      obtain ⟨rfl, rfl⟩ := horder₁
      exact absurd ((hw.tables.count e count hcount).trans hlast) hmore
    | closed t₁ e₁ x₁ delta₁ horder₁ hexecution₁ =>
      rw [horder, Option.some.injEq, Prod.mk.injEq] at horder₁
      obtain ⟨rfl, rfl⟩ := horder₁
      rw [hexecution, Option.some.injEq, Prod.mk.injEq] at hexecution₁
      obtain ⟨rfl, rfl⟩ := hexecution₁
      rw [Finmap.amount_postAll, hamount]
  · -- Ids are drawn once, so the execution never comes back.
    intro events w'' out hrun
    have hretired : w'.Retired e := by
      refine ⟨fun k hk he => ?_, ?_⟩
      · have hids : w'.ids = w.ids := by cases hstep <;> rfl
        rw [hids] at hk he
        exact hw.tables.freshExecutions k hk
          (he ▸ Finmap.mem_of_lookup_eq_some hexecution)
      · rw [(hfinishes.last hlast).1]
        exact Finmap.notMem_erase_self
    exact (retired_run (invariant_call hw (Call.report hstep)) hretired hrun).gone

/-! ### The account of a run -/

/-- Every run over reports with known statuses succeeds, and conserves every asset: what the
balance and the deltas in flight hold is the initial balance with the credits of the orders
settled on the way, none of them twice. A delta in flight is the capacity of its execution
with the credits of its settled orders. The report that ends the last order of an execution
moves it into the balance, once. With no execution in flight the balance is all there is. A
report that does not fill an outstanding order completely creates and destroys nothing. -/
theorem ledger_conserved (config : WorkerConfig n) (events : List Event)
    (hknown : ∀ event ∈ events, event.Known) :
    ∃ w out, (machine n).run (new config) events = .ok (w, out) ∧
      (∀ asset,
        w.balance.amount asset
            + Finmap.total (fun _ entry => entry.2.amount asset) w.executionsMap
          = config.balance.amount asset
            + credits asset ((machine n).history settlements (new config) events)) ∧
      (((machine n).history settlements (new config) events).map (·.report.id)).Nodup ∧
      (∀ e x delta, w.executionsMap.lookup e = some (x, delta) → ∀ asset,
        delta.amount asset = (if asset = x.startingAsset then x.capacity else 0)
          + credits asset (((machine n).history settlements (new config) events).filter
            (·.execution = e))) ∧
      (∀ report t e, w.executionIdMap.lookup report.id = some (t, e) → Ends t report →
        ∃ w' x delta, w.executionsMap.lookup e = some (x, delta) ∧
          w.processReport report = .ok w' ∧ Settles w w' report e x delta) ∧
      (w.executionsMap = ∅ → ∀ asset,
        w.balance.amount asset = config.balance.amount asset
          + credits asset ((machine n).history settlements (new config) events)) ∧
      ∀ report w', w.processReport report = .ok w' →
        (∀ t e, w.executionIdMap.lookup report.id = some (t, e) →
          ¬ (report.status = .FILLED ∧ t.orderQty ≤ compareQty t report)) →
        ∀ asset, w'.worth asset = w.worth asset := by
  obtain ⟨w, out, hrun, hw⟩ := run_ok (invariant_new config) hknown
  have haccounted := accounted_run hrun
  have hledger (asset : String) : w.worth asset = config.balance.amount asset
      + credits asset ((machine n).history settlements (new config) events) := by
    rw [worth_run (invariant_new config) hrun asset, worth_new]
  refine ⟨w, out, hrun, hledger, haccounted.nodup, haccounted.delta, ?_, ?_, ?_⟩
  · intro report t e horder hends
    obtain ⟨⟨x, delta⟩, hexecution⟩ := Finmap.mem_iff.mp (hw.tables.points _ t e horder)
    obtain ⟨w', hok, hsettles⟩ := settles_of_ends hw horder hexecution hends
    exact ⟨w', x, delta, hexecution, hok, hsettles⟩
  · intro hempty asset
    rw [← hledger asset, worth, held, hempty, Finmap.total_empty, add_zero]
  · intro report w' hok hnone asset
    have hcall : Call w (.report report) w' [] :=
      Call.report (reportStep_of_ok (hw.tables.tables report.id) hok)
    have hsettled : w.settlements (.report report) = [] := by
      simp only [settlements]
      split
      · rfl
      · rename_i t e horder
        exact if_neg (hnone t e horder)
    rw [worth_call hw.tables hcall asset, hsettled]
    exact add_zero _

/-- The fills of the triangle at its frozen prices, the last order first. -/
def sampleFills : List Event :=
  [.report ⟨"xxx", .FILLED, .ofCount 10, .ofCount 120, ∅⟩,
    .report ⟨"x", .FILLED, .ofCount 100, .ofCount 1, ∅⟩,
    .report ⟨"xx", .FILLED, .ofCount 1, .ofCount 10, ∅⟩]

/-- The triangle started and filled. -/
def sampleRun : List Event := .priceUpdate sampleUpdate :: sampleFills

/-- The sample reports have known statuses. -/
theorem known_sampleFills : ∀ event ∈ sampleFills, event.Known := by
  simp [sampleFills, Event.Known]

/-- The triangle turns 100 USDT into 120, and nothing stays in flight. -/
theorem ledger_conserved_triangle :
    ∃ w out, (machine 1).run (new sampleConfig) sampleRun = .ok (w, out) ∧
      w.executionsMap = ∅ ∧ w.balance.amount "USDT" = .ofCount 120 ∧
      w.balance.amount "BTC" = 0 ∧ w.balance.amount "ETH" = 0 := by
  obtain ⟨w, out, hrun, -, -, -, -, hbalance, -⟩ :=
    ledger_conserved sampleConfig sampleRun
      (List.forall_mem_cons.mpr ⟨trivial, known_sampleFills⟩)
  obtain ⟨w', out', hrun', hempty⟩ := (machine 1).exists_of_run (new sampleConfig) sampleRun
    (fun w _ => w.executionsMap.keys = ∅) (by decide +kernel)
  have hsame : w' = w := by
    rw [hrun, Except.ok.injEq, Prod.mk.injEq] at hrun'
    exact hrun'.1.symm
  have hnone : w.executionsMap = ∅ := by
    refine Finmap.eq_empty_iff.mpr fun e he => ?_
    rw [decide_eq_true_eq, hsame] at hempty
    rw [← Finmap.mem_keys, hempty] at he
    exact Finset.notMem_empty e he
  refine ⟨w, out, hrun, hnone, ?_, ?_, ?_⟩
  · exact (hbalance hnone "USDT").trans (by decide +kernel)
  · exact (hbalance hnone "BTC").trans (by decide +kernel)
  · exact (hbalance hnone "ETH").trans (by decide +kernel)

end Harjus.Worker
