import Harjus.Proofs.Worker.Bookkeeping

/-!
# `Harjus.Proofs.Worker.Consistency`: the tables of a reachable Worker

What `Bookkeeping` and `Exclusion` mean for the calls of a reachable Worker.

* `symbols_mutually_exclusive`: an order is submitted only on symbols that no execution in
  flight holds, and a report that completes an execution releases its symbols and no other.
* `execution_tables_consistent`: `processReport` finds the execution of every order, the
  report that ends an order removes it, a late report changes nothing, and the drain loop of
  `Worker::run` ends exactly when no order is outstanding.

An order that ended stays ended because its id was drawn before (`Spent`), and a new order
takes an id that was not. The same holds of an execution that left its table (`Retired`).
`Finishes` says what the end of an order does to the tables.
-/

set_option autoImplicit false

namespace Harjus.Worker

open Harjus.Lib

variable {n : ℕ}

/-! ### Orders that ended -/

/-- The id was drawn and no outstanding order has it. -/
def Spent (w : Worker n) (o : String) : Prop :=
  (∃ k < w.ids.drawn, o = w.ids.id k) ∧ o ∉ w.executionIdMap

/-- The id of an order that is over does not come back in a call. -/
theorem spent_call {w w' : Worker n} {event : Event} {orders : List SubmitOrder} {o : String}
    (ho : w.Spent o) (h : Call w event w' orders) : w'.Spent o := by
  obtain ⟨⟨k, hk, rfl⟩, hgone⟩ := ho
  cases h with
  | update h =>
    cases h with
    | idle list hpath => exact ⟨⟨k, hk, rfl⟩, hgone⟩
    | started list i opp budget result hpath haffected hopp hbudget hpos hprofit hfree
        hsubmits =>
      refine ⟨⟨k, hk.trans hsubmits.lt_drawn, congrFun hsubmits.id_eq.symm k⟩, ?_⟩
      intro hmem
      obtain ⟨entry, hentry⟩ := Finmap.mem_iff.mp hmem
      -- A new entry has an id drawn later, and ids do not repeat.
      rcases hsubmits.entries _ _ hentry with hold | ⟨-, -, j, hj, hkj⟩
      · exact hgone (Finmap.mem_of_lookup_eq_some hold)
      · have hsame : k = j := w.ids.distinct hkj
        simp only [IdSource.generateId] at hj
        omega
  | report h =>
    cases h with
    | ignored => exact ⟨⟨k, hk, rfl⟩, hgone⟩
    | settled => exact ⟨⟨k, hk, rfl⟩, fun hmem => hgone (Finmap.mem_erase.mp hmem).2⟩
    | closed => exact ⟨⟨k, hk, rfl⟩, fun hmem => hgone (Finmap.mem_erase.mp hmem).2⟩

/-- The id of an order that is over does not come back in a run. -/
theorem spent_run {w w' : Worker n} {events : List Event} {out : List SubmitOrder}
    {o : String} (hw : w.Invariant) (ho : w.Spent o)
    (h : (machine n).run w events = .ok (w', out)) : w'.Spent o :=
  call_run (P := fun w => w.Spent o) (A := fun _ => True)
    (fun _ ho _ hcall => spent_call ho hcall) (fun _ _ => trivial) hw ho h

/-- A report about no outstanding order changes nothing. -/
theorem processReport_of_notMem {w : Worker n} {report : ExecutionReport}
    (h : report.id ∉ w.executionIdMap) : w.processReport report = .ok w := by
  rw [processReport, Finmap.lookup_eq_none.mpr h]

/-- An order is spent after the report that takes it out of the order table. -/
theorem spent_of_ended {w w' : Worker n} {report : ExecutionReport}
    (hw : w.Bookkeeping) (h : w.processReport report = .ok w')
    (hmem : report.id ∈ w.executionIdMap) (hgone : report.id ∉ w'.executionIdMap) :
    w'.Spent report.id := by
  refine ⟨?_, hgone⟩
  obtain ⟨k, hk, ho⟩ := hw.drawnOrders _ hmem
  cases reportStep_of_ok (hw.tables report.id) h <;> exact ⟨k, hk, ho⟩

/-- The id is not still to be drawn, and no execution in flight has it. -/
structure Retired (w : Worker n) (e : String) : Prop where
  drawn : ∀ k, w.ids.drawn ≤ k → w.ids.id k ≠ e
  gone : e ∉ w.executionsMap

/-- No call brings an execution back. -/
theorem retired_call {w w' : Worker n} {event : Event} {orders : List SubmitOrder} {e : String}
    (he : w.Retired e) (h : Call w event w' orders) : w'.Retired e := by
  obtain ⟨hdrawn, hgone⟩ := he
  cases h with
  | update h =>
    cases h with
    | idle list hpath => exact ⟨hdrawn, hgone⟩
    | started list i opp budget result hpath haffected hopp hbudget hpos hprofit hfree
        hsubmits =>
      refine ⟨fun k hk => ?_, fun hmem => ?_⟩
      · show result.1.id k ≠ e
        rw [hsubmits.id_eq]
        exact hdrawn k (hsubmits.lt_drawn.le.trans hk)
      · -- The new execution has an id that was still to be drawn.
        rcases Finmap.mem_insert.mp hmem with he | hmem
        · exact hdrawn _ le_rfl he.symm
        · exact hgone hmem
  | report h =>
    cases h with
    | ignored => exact ⟨hdrawn, hgone⟩
    | settled t e' x delta count horder hexecution =>
      refine ⟨hdrawn, fun hmem => ?_⟩
      rcases Finmap.mem_insert.mp hmem with he | hmem
      · exact hgone (he ▸ Finmap.mem_of_lookup_eq_some hexecution)
      · exact hgone hmem
    | closed => exact ⟨hdrawn, fun hmem => hgone (Finmap.mem_erase.mp hmem).2⟩

/-- The id of an execution that is over does not come back in a run. -/
theorem retired_run {w w' : Worker n} {events : List Event} {out : List SubmitOrder}
    {e : String} (hw : w.Invariant) (he : w.Retired e)
    (h : (machine n).run w events = .ok (w', out)) : w'.Retired e :=
  call_run (P := fun w => w.Retired e) (A := fun _ => True)
    (fun _ he _ hcall => retired_call he hcall) (fun _ _ => trivial) hw he h

/-! ### The report that ends an order -/

/-- A report that ends an outstanding order throws nothing, and its result is `settled` or
`closed`. -/
theorem reportStep_of_ends {w : Worker n} (hw : w.Bookkeeping) {report : ExecutionReport}
    {t : StaticTrade} {e : String} (horder : w.executionIdMap.lookup report.id = some (t, e))
    (hends : Ends t report) :
    ∃ w', w.processReport report = .ok w' ∧ ReportStep w report w' ∧
      ¬ ∀ t e, w.executionIdMap.lookup report.id = some (t, e) → ¬ Ends t report := by
  have hknown : report.status ≠ .UNKNOWN := by
    rcases hends with h | h | ⟨h, -⟩ <;> simp [h]
  obtain ⟨w', hok, hstep⟩ := processReport_ok hknown (hw.tables report.id)
  exact ⟨w', hok, hstep, fun hnone => hnone t e horder hends⟩

/-- An order of the execution `e` left the order table, and no other did. The last one took
the execution and its count with it, and before that one order less is pending. -/
structure Finishes (w w' : Worker n) (order e : String) : Prop where
  order : w'.executionIdMap = w.executionIdMap.erase order
  pending : w.outstanding e ≠ 1 →
    e ∈ w'.executionsMap ∧ w'.outstanding e = w.outstanding e - 1
  last : w.outstanding e = 1 → w'.executionsMap = w.executionsMap.erase e ∧
    w'.pendingOrdersCount = w.pendingOrdersCount.erase e

/-- A `REJECTED`, `EXPIRED` or completing `FILLED` report about an outstanding order removes
the order, and with the last order the execution. -/
theorem finishes_of_ends {w : Worker n} (hw : w.Bookkeeping) {report : ExecutionReport}
    {t : StaticTrade} {e : String} (horder : w.executionIdMap.lookup report.id = some (t, e))
    (hends : Ends t report) :
    ∃ w', w.processReport report = .ok w' ∧ Finishes w w' report.id e := by
  obtain ⟨w', hok, hstep, hnot⟩ := reportStep_of_ends hw horder hends
  refine ⟨w', hok, ?_⟩
  cases hstep with
  | ignored h => exact absurd h hnot
  | settled t' e' x delta count horder' hexecution hcount _ hmore =>
    rw [horder, Option.some.injEq, Prod.mk.injEq] at horder'
    obtain ⟨rfl, rfl⟩ := horder'
    rw [hw.count e count hcount] at hmore
    refine ⟨rfl, fun _ => ⟨Finmap.mem_insert.mpr (Or.inl rfl), ?_⟩, fun h => absurd h hmore⟩
    exact (outstanding_erase horder e).trans (by rw [if_pos rfl])
  | closed t' e' x delta horder' hexecution hcount =>
    rw [horder, Option.some.injEq, Prod.mk.injEq] at horder'
    obtain ⟨rfl, rfl⟩ := horder'
    exact ⟨rfl, fun h => absurd (hw.count e 1 hcount).symm h, fun _ => ⟨rfl, rfl⟩⟩

/-! ### A reachable Worker -/

/-- Without executions there is no order, no count, no mark and no reservation. -/
private theorem Invariant.eq_empty {w : Worker n} (hw : w.Invariant)
    (h : w.executionsMap = ∅) :
    w.reservedTrades = ∅ ∧ w.executionIdMap = ∅ ∧ w.pendingOrdersCount = ∅ ∧
      w.failedExecutions = ∅ := by
  have hnone := Finmap.eq_empty_iff.mp h
  refine ⟨?_, ?_, ?_, ?_⟩
  · refine Finset.eq_empty_iff_forall_notMem.mpr fun s hs => ?_
    obtain ⟨e, x, delta, hlookup, -⟩ := (hw.symbols.reserved s).mp hs
    exact hnone e (Finmap.mem_of_lookup_eq_some hlookup)
  · refine Finmap.eq_empty_iff.mpr fun o ho => ?_
    obtain ⟨⟨t, e⟩, hlookup⟩ := Finmap.mem_iff.mp ho
    exact hnone e (hw.tables.points o t e hlookup)
  · exact Finmap.eq_empty_iff.mpr fun e he => hnone e ((hw.tables.keys e).mpr he)
  · exact Finset.eq_empty_iff_forall_notMem.mpr fun e he => hnone e (hw.tables.failed e he)

/-- Without outstanding orders there is no execution: each one has at least one order. -/
theorem Invariant.executionsMap_eq_empty {w : Worker n} (hw : w.Invariant)
    (h : w.executionIdMap = ∅) : w.executionsMap = ∅ := by
  refine Finmap.eq_empty_iff.mpr fun e he => ?_
  obtain ⟨count, hcount⟩ := Finmap.mem_iff.mp ((hw.tables.keys e).mp he)
  have hpos := hw.tables.pos e count hcount
  have hzero : w.outstanding e = 0 := by
    unfold outstanding
    rw [h]
    rfl
  rw [hw.tables.count e count hcount, hzero] at hpos
  omega

/-- A report that takes an execution out of the table closed it. -/
private theorem releases_of_closed {w w' : Worker n} {report : ExecutionReport} {e : String}
    {x : Execution} {delta : AssetDelta} (hw : w.Invariant)
    (h : w.processReport report = .ok w')
    (hexecution : w.executionsMap.lookup e = some (x, delta)) (hgone : e ∉ w'.executionsMap) :
    ∀ s, s ∈ w'.reservedTrades ↔ s ∈ w.reservedTrades ∧ s ∉ x.symbols := by
  have hmem := Finmap.mem_of_lookup_eq_some hexecution
  cases reportStep_of_ok (hw.tables.tables report.id) h with
  | ignored => exact absurd hmem hgone
  | settled => exact absurd (Finmap.mem_insert.mpr (Or.inr hmem)) hgone
  | closed t e' x' delta' horder hexecution' =>
    -- The table lost one key, so the execution that is gone is the one that closed.
    have he : e = e' := by
      by_contra hne
      exact hgone (Finmap.mem_erase.mpr ⟨hne, hmem⟩)
    subst he
    rw [hexecution, Option.some.injEq, Prod.mk.injEq] at hexecution'
    rw [hexecution'.1]
    exact fun s => ReservedTrades.mem_releaseAll

/-- A report that takes no execution out of the table releases nothing. -/
private theorem reserved_of_not_closed {w w' : Worker n} {report : ExecutionReport}
    (hw : w.Invariant) (h : w.processReport report = .ok w')
    (hkeep : ∀ e ∈ w.executionsMap, e ∈ w'.executionsMap) :
    w'.reservedTrades = w.reservedTrades := by
  cases reportStep_of_ok (hw.tables.tables report.id) h with
  | ignored => rfl
  | settled => rfl
  | closed t e x delta horder hexecution =>
    exact absurd (hkeep e (Finmap.mem_of_lookup_eq_some hexecution)) Finmap.notMem_erase_self

/-- The symbols of the submitted orders are the symbols of the execution that starts. -/
private theorem symbol_notMem_of_submitted {w : Worker n} (hw : w.Invariant)
    {update : PriceUpdate} {order : SubmitOrder}
    (h : order ∈ (w.processPriceUpdate update).2) : order.symbol ∉ w.reservedTrades := by
  generalize hw' : (w.processPriceUpdate update).1 = w'
  generalize horders : (w.processPriceUpdate update).2 = orders at h
  have hstep := hw.tables.updateStep update
  rw [hw', horders] at hstep
  cases hstep with
  | idle => exact absurd h List.not_mem_nil
  | started list i opp budget result hpath haffected hopp hbudget hpos hprofit hfree hsubmits =>
    obtain ⟨t, ht, hfor, -⟩ := hsubmits.of_mem h
    obtain ⟨t', ht', rfl⟩ := List.mem_map.mp ht
    rw [hfor.symbol]
    exact hfree _ (List.mem_map.mpr ⟨t', ht', rfl⟩)

/-- The reserved symbols are those of the executions in flight and no two executions share
one. An order goes to a symbol that no execution in flight holds. A report that completes an
execution releases exactly its symbols, the symbols of the others stay reserved, and any
other report releases nothing. -/
theorem symbols_mutually_exclusive {config : WorkerConfig n} {w : Worker n}
    (h : Reachable config w) :
    (∀ s, s ∈ w.reservedTrades ↔ ∃ e, w.Holds e s) ∧
    (∀ e e' s, w.Holds e s → w.Holds e' s → e = e') ∧
    (∀ update, ∀ order ∈ (w.processPriceUpdate update).2, ∀ e, ¬ w.Holds e order.symbol) ∧
    (∀ report w' e x delta, w.processReport report = .ok w' →
      w.executionsMap.lookup e = some (x, delta) → e ∉ w'.executionsMap →
      (∀ s, s ∈ w'.reservedTrades ↔ s ∈ w.reservedTrades ∧ s ∉ x.symbols) ∧
      ∀ e' s, e' ≠ e → w.Holds e' s → s ∈ w'.reservedTrades) ∧
    ∀ report w', w.processReport report = .ok w' →
      (∀ e ∈ w.executionsMap, e ∈ w'.executionsMap) → w'.reservedTrades = w.reservedTrades := by
  have hw := h.invariant
  refine ⟨hw.symbols.reserved, hw.symbols.disjoint, ?_, ?_, ?_⟩
  · intro update order horder e hholds
    exact symbol_notMem_of_submitted hw horder ((hw.symbols.reserved _).mpr ⟨e, hholds⟩)
  · intro report w' e x delta hok hexecution hgone
    have hreleases := releases_of_closed hw hok hexecution hgone
    refine ⟨hreleases, fun e' s hne hholds => (hreleases s).mpr ⟨?_, fun hs => ?_⟩⟩
    · exact (hw.symbols.reserved s).mpr ⟨e', hholds⟩
    · exact hne (hw.symbols.disjoint e' e s hholds ⟨x, delta, hexecution, hs⟩)
  · exact fun report w' hok hkeep => reserved_of_not_closed hw hok hkeep

/-- The last order of the detour expires while `aside` is in flight: `ETHUSDT` is released,
and `ADAUSDT` is not. -/
theorem symbols_mutually_exclusive_triangle :
    ∃ w out w', (machine 3).run (new threeConfig) threeRun = .ok (w, out) ∧
      w.processReport ⟨"xxx", .EXPIRED, 0, 0, ∅⟩ = .ok w' ∧
      "ETHUSDT" ∈ w.reservedTrades ∧ "" ∉ w'.executionsMap ∧ "xxxx" ∈ w'.executionsMap ∧
      "ETHUSDT" ∉ w'.reservedTrades ∧ "ADAUSDT" ∈ w'.reservedTrades := by
  obtain ⟨w, out, hrun, htest⟩ := (machine 3).exists_of_run (new threeConfig) threeRun
    (fun w _ =>
      ((w.executionsMap.lookup "").any fun x => "ETHUSDT" ∈ x.1.symbols) &&
        ((w.executionsMap.lookup "xxxx").any fun x => "ADAUSDT" ∈ x.1.symbols) &&
          (w.processReport ⟨"xxx", .EXPIRED, 0, 0, ∅⟩).toOption.any fun w' =>
            "" ∉ w'.executionsMap ∧ "xxxx" ∈ w'.executionsMap)
    (by decide +kernel)
  simp only [Bool.and_eq_true, Option.any_eq_true, decide_eq_true_eq] at htest
  obtain ⟨⟨⟨⟨x, delta⟩, hlookup, hsymbol⟩, ⟨⟨x', delta'⟩, hlookup', hsymbol'⟩⟩, w', hok,
    hgone, hkept⟩ := htest
  replace hok : w.processReport ⟨"xxx", .EXPIRED, 0, 0, ∅⟩ = .ok w' := by
    cases hreport : w.processReport ⟨"xxx", .EXPIRED, 0, 0, ∅⟩ with
    | error e =>
      rw [hreport] at hok
      cases hok
    | ok w'' =>
      rw [hreport] at hok
      cases hok
      rfl
  obtain ⟨hreserved, -, -, hreleases, -⟩ := symbols_mutually_exclusive ⟨_, out, hrun⟩
  obtain ⟨hreleased, hothers⟩ := hreleases _ w' "" x delta hok hlookup hgone
  refine ⟨w, out, w', hrun, hok, ?_, hgone, hkept, ?_, ?_⟩
  · exact (hreserved _).mpr ⟨"", x, delta, hlookup, hsymbol⟩
  · exact fun h => ((hreleased _).mp h).2 hsymbol
  · exact hothers "xxxx" _ (by decide) ⟨x', delta', hlookup', hsymbol'⟩

/-- The execution tables of a reachable Worker agree. So `processReport` finds the execution
of every order it finds. A `REJECTED`, `EXPIRED` or completing `FILLED` report removes its
order, and the last order its execution. A report about an unknown order changes nothing,
also when the order ended earlier in the run, and the Worker has executions exactly when it
has outstanding orders. -/
theorem execution_tables_consistent {config : WorkerConfig n} {w : Worker n}
    (h : Reachable config w) :
    w.Bookkeeping ∧
    (∀ report, w.processReport report ≠ .error .outOfRange) ∧
    (∀ report t e, w.executionIdMap.lookup report.id = some (t, e) → Ends t report →
      ∃ w', w.processReport report = .ok w' ∧ Finishes w w' report.id e) ∧
    (∀ report, report.id ∉ w.executionIdMap → w.processReport report = .ok w) ∧
    (∀ report w' events w'' out late, w.processReport report = .ok w' →
      report.id ∈ w.executionIdMap → report.id ∉ w'.executionIdMap →
      (machine n).run w' events = .ok (w'', out) → late.id = report.id →
      w''.processReport late = .ok w'') ∧
    (w.executionsMap = ∅ ↔ w.executionIdMap = ∅) ∧
    (w.executionsMap = ∅ → w.reservedTrades = ∅ ∧ w.executionIdMap = ∅ ∧
      w.pendingOrdersCount = ∅ ∧ w.failedExecutions = ∅) := by
  have hw := h.invariant
  refine ⟨hw.tables, ?_, fun _ _ _ => finishes_of_ends hw.tables,
    fun _ => processReport_of_notMem, ?_, ?_, hw.eq_empty⟩
  · -- The only checked access is that of the execution, which every order in the table has.
    intro report herror
    unfold processReport at herror
    split at herror
    · cases herror
    · rename_i t e horder
      split at herror
      · rename_i hnone
        exact absurd (hw.tables.points _ _ _ horder) (Finmap.lookup_eq_none.mp hnone)
      · cases hstatus : report.status <;> simp only [hstatus] at herror <;>
          first | cases herror | (split at herror <;> cases herror)
  · -- The id of an order that is out of the table is drawn, and no later order gets it.
    intro report w' events w'' out late hok hmem hgone hrun hlate
    have hcall : Call w (.report report) w' [] :=
      Call.report (reportStep_of_ok (hw.tables.tables report.id) hok)
    have hspent := spent_run (invariant_call hw hcall)
      (spent_of_ended hw.tables hok hmem hgone) hrun
    exact processReport_of_notMem (hlate ▸ hspent.2)
  · exact ⟨fun hempty => (hw.eq_empty hempty).2.1, hw.executionsMap_eq_empty⟩

/-- The order `x` of the triangle expires. -/
theorem execution_tables_consistent_triangle :
    sampleWorker.Bookkeeping ∧ sampleWorker.executionsMap ≠ ∅ ∧
      "x" ∈ sampleWorker.executionIdMap ∧
      ∃ w', sampleWorker.processReport ⟨"x", .EXPIRED, 0, 0, ∅⟩ = .ok w' ∧
        "x" ∉ w'.executionIdMap := by
  obtain ⟨htables, -, hends, -, -, hempty, -⟩ :=
    execution_tables_consistent reachable_sampleWorker
  have hmem : "x" ∈ sampleWorker.executionIdMap := by decide +kernel
  obtain ⟨⟨t, e⟩, horder⟩ := Finmap.mem_iff.mp hmem
  obtain ⟨w', hok, hfinishes⟩ :=
    hends ⟨"x", .EXPIRED, 0, 0, ∅⟩ t e horder (Or.inr (Or.inl rfl))
  refine ⟨htables, fun h => Finmap.ne_empty_of_mem hmem (hempty.mp h), hmem, w', hok, ?_⟩
  rw [hfinishes.order]
  exact Finmap.notMem_erase_self

end Harjus.Worker
