import Harjus.Proofs.Worker.Bookkeeping

/-!
# `Harjus.Proofs.Worker.Commute`: the order of reports does not matter

Two reports about different orders commute, also when they are about one execution.

* `Ending`: the report ends an order, with what the tables say about the order. `ended` is
  the Worker after it. The two tables of executions are written at one key, so one formula
  covers a report that closes the execution and a report that does not.
* `processReport_comm`: the commutation of two reports. When both end an order of one
  execution, its count is at least two, so the first report does not close it.
* `reports_reorder`: two sequences with the same reports of each order, in the same order,
  have the same result.
-/

set_option autoImplicit false

namespace Harjus.Worker

open Harjus.Lib

variable {n : ℕ}

/-! ### Deltas and marks commute -/

/-- Two fills may be added to a delta in either order. -/
theorem fillDelta_comm (t t' : StaticTrade) (r r' : ExecutionReport) (delta : AssetDelta) :
    fillDelta t r (fillDelta t' r' delta) = fillDelta t' r' (fillDelta t r delta) := by
  refine Finmap.ext_lookup fun asset => ?_
  simp only [fillDelta, Finmap.charge_eq_post, Finmap.lookup_post, Finmap.lookup_postAll]
  ac_rfl

/-- Two settlements may be added to a delta in either order. -/
theorem settledDelta_comm (t t' : StaticTrade) (r r' : ExecutionReport) (delta : AssetDelta) :
    settledDelta t r (settledDelta t' r' delta)
      = settledDelta t' r' (settledDelta t r delta) := by
  unfold settledDelta
  split <;> split <;> first | rfl | exact fillDelta_comm t t' r r' delta

/-- Two paths may be released in either order. -/
theorem releaseAll_comm (reserved : ReservedTrades) (trades trades' : List StaticTrade) :
    ReservedTrades.releaseAll (ReservedTrades.releaseAll reserved trades) trades'
      = ReservedTrades.releaseAll (ReservedTrades.releaseAll reserved trades') trades := by
  ext s
  simp only [ReservedTrades.mem_releaseAll]
  tauto

/-- The failed executions after the report, for a pending count of `count`. -/
def failedAfter (report : ExecutionReport) (e : String) (count : ℤ) (failed : Finset String) :
    Finset String :=
  if count = 1 then failed.erase e else settledFailed report e failed

/-- Reports of two executions write two marks. -/
theorem failedAfter_comm (r r' : ExecutionReport) {e e' : String} (he : e ≠ e')
    (count count' : ℤ) (failed : Finset String) :
    failedAfter r' e' count' (failedAfter r e count failed)
      = failedAfter r e count (failedAfter r' e' count' failed) := by
  ext s
  unfold failedAfter settledFailed
  split_ifs <;> simp only [Finset.mem_erase, Finset.mem_insert] <;> grind

/-- Two reports about an execution may mark it as failed in either order. -/
theorem settledFailed_comm (r r' : ExecutionReport) (e : String) (failed : Finset String) :
    settledFailed r' e (settledFailed r e failed)
      = settledFailed r e (settledFailed r' e failed) := by
  unfold settledFailed
  split <;> split <;> rfl

/-! ### A report that ends an order -/

/-- The report ends an order of the execution `e`; `x`, `delta` and `count` are what the
tables have of it. -/
structure Ending (w : Worker n) (report : ExecutionReport) (t : StaticTrade) (e : String)
    (x : Execution) (delta : AssetDelta) (count : ℤ) : Prop where
  order : w.executionIdMap.lookup report.id = some (t, e)
  execution : w.executionsMap.lookup e = some (x, delta)
  count : w.pendingOrdersCount.lookup e = some count
  ends : Ends t report

/-- The Worker after a report that ends an order. With a count of one the execution leaves
both tables. -/
def ended (w : Worker n) (report : ExecutionReport) (t : StaticTrade) (e : String)
    (x : Execution) (delta : AssetDelta) (count : ℤ) : Worker n :=
  { w with
    executionIdMap := w.executionIdMap.erase report.id
    pendingOrdersCount :=
      w.pendingOrdersCount.put e (if count = 1 then none else some (count - 1))
    executionsMap :=
      w.executionsMap.put e
        (if count = 1 then none else some (x, settledDelta t report delta))
    failedExecutions := failedAfter report e count w.failedExecutions
    balance :=
      if count = 1 then Finmap.postAll w.balance (settledDelta t report delta) else w.balance
    reservedTrades :=
      if count = 1 then ReservedTrades.releaseAll w.reservedTrades x.tradesVector
      else w.reservedTrades }

/-- A report about an outstanding order that it ends is processed as such. -/
theorem processReport_of_ending {w : Worker n} {report : ExecutionReport} {t : StaticTrade}
    {e : String} {x : Execution} {delta : AssetDelta} {count : ℤ}
    (h : w.Ending report t e x delta count) :
    w.processReport report = .ok (w.ended report t e x delta count) := by
  have hpending : w.pendingOrdersCount.amount e = count := by
    rw [Finmap.amount, h.count]
    rfl
  rw [processReport_of_ends h.order h.execution h.ends]
  unfold finishOrder ended failedAfter
  dsimp only
  rw [hpending]
  by_cases hone : count = 1
  · subst hone
    rw [if_pos (by omega), Finmap.erase_insert, Finmap.erase_insert, erase_settledFailed]
    rfl
  · rw [if_neg (by omega), if_neg hone, if_neg hone, if_neg hone, if_neg hone, if_neg hone]
    rfl

section Two
variable {w : Worker n} {r r' : ExecutionReport} {t t' : StaticTrade} {e e' : String}
  {x x' : Execution} {delta delta' : AssetDelta} {count count' : ℤ}

/-- Ending an order leaves an order of another execution as it is. -/
theorem Ending.other (h' : w.Ending r' t' e' x' delta' count') (hid : r'.id ≠ r.id)
    (he : e' ≠ e) : (w.ended r t e x delta count).Ending r' t' e' x' delta' count' where
  order := (Finmap.lookup_erase_ne hid).trans h'.order
  execution := by
    rw [ended, Finmap.lookup_put, if_neg he]
    exact h'.execution
  count := by
    rw [ended, Finmap.lookup_put, if_neg he]
    exact h'.count
  ends := h'.ends

/-- Ending an order, not the last one, leaves the other orders of the execution, with the
new delta and count. -/
theorem Ending.same (h' : w.Ending r' t' e x delta count) (hid : r'.id ≠ r.id)
    (hcount : count ≠ 1) :
    (w.ended r t e x delta count).Ending r' t' e x (settledDelta t r delta) (count - 1) where
  order := (Finmap.lookup_erase_ne hid).trans h'.order
  execution := by rw [ended, Finmap.lookup_put, if_pos rfl, if_neg hcount]
  count := by rw [ended, Finmap.lookup_put, if_pos rfl, if_neg hcount]
  ends := h'.ends

/-- Reports that end orders of two executions commute. -/
private theorem ended_comm_other (he : e ≠ e') :
    (w.ended r t e x delta count).ended r' t' e' x' delta' count'
      = (w.ended r' t' e' x' delta' count').ended r t e x delta count := by
  simp only [ended, Worker.mk.injEq, true_and, and_true]
  refine ⟨?_, ?_, ?_, ?_, ?_, ?_⟩
  -- The balance and the reserved symbols move twice only when both executions close.
  · split_ifs
    · exact Finmap.postAll_postAll_comm _ _ _
    all_goals rfl
  · split_ifs
    · exact releaseAll_comm _ _ _
    all_goals rfl
  -- The tables are written at two keys each.
  · exact Finmap.put_put_comm _ he _ _
  · exact Finmap.erase_erase
  · exact Finmap.put_put_comm _ he _ _
  · exact failedAfter_comm r r' he count count' _

/-- Reports that end two orders of one execution commute: the second one closes it in both
orders, or in none. -/
private theorem ended_comm_same (hcount : count ≠ 1) :
    (w.ended r t e x delta count).ended r' t' e x (settledDelta t r delta) (count - 1)
      = (w.ended r' t' e x delta count).ended r t e x (settledDelta t' r' delta)
          (count - 1) := by
  simp only [ended, Worker.mk.injEq, true_and, and_true, if_neg hcount, Finmap.put_put,
    settledDelta_comm t t' r r' delta, failedAfter]
  refine ⟨Finmap.erase_erase, ?_⟩
  -- Closing the execution erases its mark; otherwise both reports may set it.
  split
  · rw [erase_settledFailed, erase_settledFailed]
  · exact settledFailed_comm r r' e _

end Two

/-! ### Two reports -/

/-- With two outstanding orders, the count of an execution is not one. -/
theorem Bookkeeping.count_ne_one {w : Worker n} (hw : w.Bookkeeping) {o o' e : String}
    {t t' : StaticTrade} {count : ℤ} (ho : w.executionIdMap.lookup o = some (t, e))
    (ho' : w.executionIdMap.lookup o' = some (t', e)) (hne : o' ≠ o)
    (hcount : w.pendingOrdersCount.lookup e = some count) : count ≠ 1 := by
  have hrest := (Finmap.count_pos_iff (fun _ entry => entry.2 = e)
    (w.executionIdMap.erase o)).mpr ⟨o', _, (Finmap.lookup_erase_ne hne).trans ho', rfl⟩
  rw [Finmap.count_erase _ ho, if_pos rfl] at hrest
  have houtstanding := hw.count e count hcount
  unfold outstanding at houtstanding
  omega

/-- A report that ends an order finds it in the tables. -/
theorem Bookkeeping.ending {w : Worker n} (hw : w.Bookkeeping) {report : ExecutionReport}
    {t : StaticTrade} {e : String} (horder : w.executionIdMap.lookup report.id = some (t, e))
    (hends : Ends t report) : ∃ x delta count, w.Ending report t e x delta count := by
  obtain ⟨hmem, hmem'⟩ := hw.tables report.id t e horder
  obtain ⟨⟨x, delta⟩, hexecution⟩ := Finmap.mem_iff.mp hmem
  obtain ⟨count, hcount⟩ := Finmap.mem_iff.mp hmem'
  exact ⟨x, delta, count, horder, hexecution, hcount, hends⟩

/-- A report that ends no order commutes with a report about another order. -/
private theorem comm_of_not_ends {w : Worker n} (hw : w.Bookkeeping)
    {r r' : ExecutionReport} (hr : r.status ≠ .UNKNOWN) (hr' : r'.status ≠ .UNKNOWN)
    (hne : r.id ≠ r'.id)
    (hnot : ∀ t e, w.executionIdMap.lookup r.id = some (t, e) → ¬ Ends t r) :
    (w.processReport r >>= fun w => w.processReport r')
      = (w.processReport r' >>= fun w => w.processReport r) := by
  have hpoints {w : Worker n} (hw : w.Bookkeeping) := fun t e h => hw.points r.id t e h
  obtain ⟨w', hok, hstep⟩ := processReport_ok hr' (hw.tables r'.id)
  have hw' : w'.Bookkeeping := bookkeeping_call hw (Call.report hstep)
  have hnot' : ∀ t e, w'.executionIdMap.lookup r.id = some (t, e) → ¬ Ends t r := by
    rw [lookup_of_report hstep hne]
    exact hnot
  rw [processReport_of_not_ends hr (hpoints hw) hnot, hok]
  exact hok.trans (processReport_of_not_ends hr (hpoints hw') hnot').symm

/-- Two reports about different orders commute. -/
theorem processReport_comm {w : Worker n} (hw : w.Bookkeeping) {r r' : ExecutionReport}
    (hr : r.status ≠ .UNKNOWN) (hr' : r'.status ≠ .UNKNOWN) (hne : r.id ≠ r'.id) :
    (w.processReport r >>= fun w => w.processReport r')
      = (w.processReport r' >>= fun w => w.processReport r) := by
  -- If one of the reports ends no order, it changes nothing, before the other or after it.
  by_cases h : ∃ t e, w.executionIdMap.lookup r.id = some (t, e) ∧ Ends t r
  case neg =>
    exact comm_of_not_ends hw hr hr' hne fun t e horder hends => h ⟨t, e, horder, hends⟩
  by_cases h' : ∃ t e, w.executionIdMap.lookup r'.id = some (t, e) ∧ Ends t r'
  case neg =>
    exact (comm_of_not_ends hw hr' hr hne.symm
      fun t e horder hends => h' ⟨t, e, horder, hends⟩).symm
  obtain ⟨t, e, horder, hends⟩ := h
  obtain ⟨t', e', horder', hends'⟩ := h'
  obtain ⟨x, delta, count, hending⟩ := hw.ending horder hends
  obtain ⟨x', delta', count', hending'⟩ := hw.ending horder' hends'
  rw [processReport_of_ending hending, processReport_of_ending hending']
  show (w.ended r t e x delta count).processReport r'
    = (w.ended r' t' e' x' delta' count').processReport r
  by_cases he : e = e'
  · -- Both reports read the entries of one execution. It has two outstanding orders, so the
    -- first report does not close it and the second one reads the new delta and count.
    subst he
    have hexecution := hending'.execution
    have hcount := hending'.count
    rw [hending.execution, Option.some.injEq, Prod.mk.injEq] at hexecution
    rw [hending.count, Option.some.injEq] at hcount
    obtain ⟨rfl, rfl⟩ := hexecution
    subst hcount
    have hmore := hw.count_ne_one horder horder' hne.symm hending.count
    rw [processReport_of_ending (hending'.same hne.symm hmore),
      processReport_of_ending (hending.same hne hmore), ended_comm_same hmore]
  · rw [processReport_of_ending (hending'.other hne.symm (Ne.symm he)),
      processReport_of_ending (hending.other hne he), ended_comm_other he]

/-- Two sequences of reports that agree on the reports of every order, in their order, lead
a reachable Worker to the same state, and both are processed without an exception. -/
theorem reports_reorder {config : WorkerConfig n} {w : Worker n} (h : Reachable config w)
    (reports reports' : List ExecutionReport)
    (hknown : ∀ report ∈ reports, report.status ≠ .UNKNOWN)
    (horders : ∀ id, reports.filter (·.id = id) = reports'.filter (·.id = id)) :
    ∃ w', reports.foldlM processReport w = .ok w' ∧
      reports'.foldlM processReport w = .ok w' := by
  have hpres : ∀ (w : Worker n) (r : ExecutionReport) (w' : Worker n), w.Bookkeeping →
      r.status ≠ .UNKNOWN → w.processReport r = .ok w' → w'.Bookkeeping :=
    fun _ r _ hw _ hok =>
      bookkeeping_call hw (Call.report (reportStep_of_ok (hw.tables r.id) hok))
  -- Reports of different orders commute, so the fold can be reordered by the order ids.
  have hsame := foldlM_reorder (f := processReport) ExecutionReport.id hpres
    (fun w r r' hw hr hr' hne => processReport_comm hw hr hr' hne) reports reports' w
    h.invariant.tables hknown horders
  have htotal : ∀ (rs : List ExecutionReport) (w : Worker n), w.Bookkeeping →
      (∀ r ∈ rs, r.status ≠ .UNKNOWN) → ∃ w', rs.foldlM processReport w = .ok w' := by
    intro rs
    induction rs with
    | nil => exact fun w _ _ => ⟨w, rfl⟩
    | cons r rs ih =>
      intro w hw hrs
      have hr := hrs r List.mem_cons_self
      obtain ⟨w₁, hok, -⟩ := processReport_ok hr (hw.tables r.id)
      obtain ⟨w', hrest⟩ := ih w₁ (hpres w r w₁ hw hr hok)
        fun r' hr' => hrs r' (List.mem_cons_of_mem _ hr')
      exact ⟨w', by rw [List.foldlM_cons, hok]; exact hrest⟩
  obtain ⟨w', hok⟩ := htotal reports w h.invariant.tables hknown
  exact ⟨w', hok, hsame ▸ hok⟩

/-- A fill and an expiry of the triangle lead to the same Worker in either order. -/
theorem reports_reorder_triangle :
    ∃ w', [(⟨"x", .FILLED, .ofCount 100, .ofCount 1, ∅⟩ : ExecutionReport),
        ⟨"xx", .EXPIRED, 0, 0, ∅⟩].foldlM processReport sampleWorker = .ok w' ∧
      [(⟨"xx", .EXPIRED, 0, 0, ∅⟩ : ExecutionReport),
        ⟨"x", .FILLED, .ofCount 100, .ofCount 1, ∅⟩].foldlM processReport sampleWorker
          = .ok w' := by
  refine reports_reorder reachable_sampleWorker _ _ (by simp) fun id => ?_
  by_cases hx : "x" = id
  · subst hx
    rfl
  · simp [List.filter_cons, hx]

end Harjus.Worker
