import Harjus.Proofs.Worker.Consistency
import Harjus.Proofs.Worker.Ledger
import Harjus.Proofs.Worker.Placement

/-!
# `Harjus.Proofs.Worker.Arbitrage`: a filled arbitrage never loses

An execution over a closed path, every order of which fills once at its frozen quantities,
brings a profit in its starting asset and costs nothing in any other.

* `potential w e`: what the Worker holds for the execution `e` and what its outstanding
  orders still bring. A call moves it to the balance and does nothing else with it
  (`potential_call`), so along a run the balance changes for `e` add up to it.
* `Tracks`: no later order points to `e`, and an order of `e` stays as it is until it is
  spent. So `e` is done when all its orders are filled.
* `sum_credit_nonneg`: the orders of a sized closed path bring nothing negative, since each
  order uses at most what the order before it gives.
* `arbitrage_never_loses` puts them together.
-/

set_option autoImplicit false

namespace Harjus

open Harjus.Lib

/-- The path is a cycle of assets: each trade uses what the trade before it gives, and the
last one gives what the first one uses. -/
structure TradingPath.Closed (path : TradingPath) : Prop where
  chain : path.trades.IsChain fun t t' => t.recvCurrency = t'.usedCurrency
  closes : (path.trades.getLast path.nonempty).recvCurrency
    = (path.trades.head path.nonempty).usedCurrency

namespace StaticTrade

/-- What the order gives of the asset when it fills at its own price. -/
def gives (asset : String) (t : StaticTrade) : PreciseNumber :=
  if asset = t.recvCurrency then t.recvQty else 0

/-- What the order takes of the asset when it fills at its own price. -/
def takes (asset : String) (t : StaticTrade) : PreciseNumber :=
  if asset = t.usedCurrency then t.usedQty else 0

/-- What the order brings of the asset when it fills at its own price. -/
def credit (asset : String) (t : StaticTrade) : PreciseNumber :=
  t.gives asset - t.takes asset

end StaticTrade

/-! ### A closed path -/

/-- The currencies of a path are those of its legs. -/
theorem TradingPath.Closed.of_legs {path : TradingPath} (h : path.Closed)
    {trades : List Trade} (hlegs : trades.map Trade.leg = path.trades.map Trade.leg)
    (hne : trades ≠ []) :
    (trades.IsChain fun t t' => t.recvCurrency = t'.usedCurrency) ∧
      (trades.getLast hne).recvCurrency = (trades.head hne).usedCurrency := by
  constructor
  · have hmap : (path.trades.map Trade.leg).IsChain fun l l' =>
        (Trade.mk l.1 l.2 0).recvCurrency = (Trade.mk l'.1 l'.2 0).usedCurrency :=
      (List.isChain_map Trade.leg).mpr h.chain
    rw [← hlegs] at hmap
    exact (List.isChain_map Trade.leg).mp hmap
  · have hlast : (trades.getLast hne).leg = (path.trades.getLast path.nonempty).leg := by
      rw [← List.getLast_map (f := Trade.leg) (by simpa using hne),
        ← List.getLast_map (f := Trade.leg) (by simpa using path.nonempty)]
      simp only [hlegs]
    rw [Trade.recvCurrency_eq_of_leg hlast, h.closes]
    exact (head_usedCurrency_of_legs hlegs path.nonempty hne).symm

/-- Each frozen trade of a sized chain takes at most what the trade before it gives. -/
private theorem isChain_takes {book : Book} (asset : String) {trades : List Trade}
    (hcurrency : trades.IsChain fun t t' => t.recvCurrency = t'.usedCurrency)
    (hqty : trades.IsChain fun t t' => t'.usedQty book ≤ t.recvQty book) :
    (trades.map (StaticTrade.ofTrade book)).IsChain
      fun t t' => t'.takes asset ≤ t.gives asset := by
  rw [List.isChain_map]
  induction trades with
  | nil => exact List.IsChain.nil
  | cons t trades ih =>
    cases trades with
    | nil => exact List.IsChain.singleton _
    | cons t' trades =>
      obtain ⟨hlink, hcurrency⟩ := List.isChain_cons_cons.mp hcurrency
      obtain ⟨hle, hqty⟩ := List.isChain_cons_cons.mp hqty
      refine List.isChain_cons_cons.mpr ⟨?_, ih hcurrency hqty⟩
      rw [StaticTrade.takes, StaticTrade.gives, StaticTrade.usedQty_ofTrade,
        StaticTrade.recvQty_ofTrade]
      show (if asset = t'.usedCurrency then _ else _) ≤ if asset = t.recvCurrency then _ else _
      rw [hlink]
      split
      · exact hle
      · exact le_rfl

/-- The frozen trades of a sized closed path bring nothing negative, and a profit in the
asset they start from when the last one gives more than the first one uses. -/
theorem sum_credit_nonneg {book : Book} {trades : List Trade} (hne : trades ≠ [])
    (hcurrency : trades.IsChain fun t t' => t.recvCurrency = t'.usedCurrency)
    (hcloses : (trades.getLast hne).recvCurrency = (trades.head hne).usedCurrency)
    (hqty : trades.IsChain fun t t' => t'.usedQty book ≤ t.recvQty book)
    (hprofit : (trades.head hne).usedQty book < (trades.getLast hne).recvQty book)
    (asset : String) :
    0 ≤ ((trades.map (StaticTrade.ofTrade book)).map (StaticTrade.credit asset)).sum ∧
      (asset = (trades.head hne).usedCurrency →
        0 < ((trades.map (StaticTrade.ofTrade book)).map (StaticTrade.credit asset)).sum) := by
  have hne' : trades.map (StaticTrade.ofTrade book) ≠ [] := by simpa using hne
  have hsum := FixedPoint.sub_le_sum_of_isChain (StaticTrade.gives asset)
    (StaticTrade.takes asset) _ hne' (isChain_takes asset hcurrency hqty)
  rw [List.getLast_map, List.head_map, StaticTrade.gives, StaticTrade.takes,
    StaticTrade.recvQty_ofTrade, StaticTrade.usedQty_ofTrade] at hsum
  have hends : (StaticTrade.ofTrade book (trades.getLast hne)).recvCurrency
      = (StaticTrade.ofTrade book (trades.head hne)).usedCurrency := hcloses
  rw [hends] at hsum
  -- Between the legs every asset gains; the ends meet in the starting asset and no other.
  by_cases hasset : asset = (StaticTrade.ofTrade book (trades.head hne)).usedCurrency
  · rw [if_pos hasset, if_pos hasset] at hsum
    have hpos := (sub_pos.mpr hprofit).trans_le hsum
    exact ⟨hpos.le, fun _ => hpos⟩
  · rw [if_neg hasset, if_neg hasset, sub_zero] at hsum
    exact ⟨hsum, fun h => absurd h hasset⟩

end Harjus

namespace Harjus.Worker

open Harjus.Lib

variable {n : ℕ}

/-! ### The potential of an execution -/

/-- What the delta of the execution `e` holds of the asset. -/
def deltaOf (w : Worker n) (e asset : String) : PreciseNumber :=
  match w.executionsMap.lookup e with
  | none => 0
  | some (_, delta) => delta.amount asset

/-- What the outstanding orders of the execution `e` still bring of the asset. -/
def owed (w : Worker n) (e asset : String) : PreciseNumber :=
  Finmap.total (fun _ entry => if entry.2 = e then entry.1.credit asset else 0)
    w.executionIdMap

/-- What the execution `e` brings of the asset from now on. -/
def potential (w : Worker n) (e asset : String) : PreciseNumber :=
  w.deltaOf e asset + w.owed e asset

/-- The change of the balance by a call that is about the execution `e`: a report about one
of its orders. -/
def effect (e asset : String) (w : Worker n) : Event → List PreciseNumber
  | .priceUpdate _ => []
  | .report report =>
    match w.executionIdMap.lookup report.id, w.processReport report with
    | some (_, e'), .ok w' =>
      if e' = e then [w'.balance.amount asset - w.balance.amount asset] else []
    | _, _ => []

/-- The report fills the order completely at its own quantities, without fees. -/
structure FillOf (t : StaticTrade) (report : ExecutionReport) : Prop where
  status : report.status = .FILLED
  usedQty : report.usedQty = t.usedQty
  recvQty : report.recvQty = t.recvQty
  fees : ∀ asset, report.feeDelta.amount asset = 0

/-- A complete fill ends its order. -/
theorem FillOf.ends {t : StaticTrade} {report : ExecutionReport} (h : FillOf t report) :
    Ends t report := by
  refine Or.inr (Or.inr ⟨h.status, ?_⟩)
  unfold compareQty
  split
  · rename_i hp
    rw [h.recvQty, StaticTrade.recvQty, hp]
  · rename_i hp
    rw [h.usedQty, StaticTrade.usedQty, hp]

/-- A complete fill adds what its order trades to the delta. -/
theorem FillOf.amount_settledDelta {t : StaticTrade} {report : ExecutionReport}
    (h : FillOf t report) (delta : AssetDelta) (asset : String) :
    (settledDelta t report delta).amount asset = delta.amount asset + t.credit asset := by
  rw [settledDelta, if_pos h.status, amount_fillDelta, fillCredit, h.usedQty, h.recvQty,
    h.fees, add_zero]
  rfl

/-- The calls about `e` move its potential to the balance, when they are fills. -/
theorem potential_report {w w' : Worker n} {report : ExecutionReport} {e asset : String}
    (hfill : ∀ t, w.executionIdMap.lookup report.id = some (t, e) → FillOf t report)
    (hok : w.processReport report = .ok w') (h : ReportStep w report w') :
    w'.potential e asset + (effect e asset w (.report report)).sum = w.potential e asset := by
  cases h with
  | ignored h =>
    -- Also a partial fill of an order of `e` leaves the balance.
    have hzero : (effect e asset w (.report report)).sum = 0 := by
      simp only [effect, hok]
      split
      · split <;> simp_all
      · rfl
    rw [hzero, add_zero]
  | settled t e' x delta count horder hexecution hcount hends hmore =>
    have howed := Finmap.total_erase
      (fun _ entry => if entry.2 = e then entry.1.credit asset else 0) horder
    simp only [effect, hok, horder, potential, owed, deltaOf]
    -- The credit of the order moves from what is owed to the delta.
    by_cases he : e' = e
    · subst he
      rw [if_pos rfl, List.sum_singleton, sub_self, add_zero, Finmap.lookup_insert, hexecution]
      rw [if_pos rfl] at howed
      dsimp only
      rw [(hfill t horder).amount_settledDelta, ← howed, add_assoc]
    · rw [if_neg he, zero_add] at howed
      rw [if_neg he, Finmap.lookup_insert_of_ne _ (Ne.symm he), howed]
      exact add_zero _
  | closed t e' x delta horder hexecution hcount hends =>
    have howed := Finmap.total_erase
      (fun _ entry => if entry.2 = e then entry.1.credit asset else 0) horder
    simp only [effect, hok, horder, potential, owed, deltaOf]
    -- The delta with the last credit moves to the balance, and nothing is owed any more.
    by_cases he : e' = e
    · subst he
      rw [if_pos rfl, List.sum_singleton, Finmap.lookup_erase, hexecution,
        Finmap.amount_postAll, (hfill t horder).amount_settledDelta, ← howed, if_pos rfl]
      dsimp only
      abel
    · rw [if_neg he, zero_add] at howed
      rw [if_neg he, Finmap.lookup_erase_ne (Ne.symm he), howed]
      exact add_zero _

/-- A price update leaves the potential of an execution that started before. -/
private theorem potential_update {w w' : Worker n} {update : PriceUpdate}
    {orders : List SubmitOrder} {e asset : String}
    (hdrawn : ∃ k < w.ids.drawn, e = w.ids.id k) (h : UpdateStep w update w' orders) :
    w'.potential e asset = w.potential e asset := by
  cases h with
  | idle list hpath => rfl
  | started list i opp budget result hpath haffected hopp hbudget hpos hprofit hfree hsubmits =>
    obtain ⟨k, hk, rfl⟩ := hdrawn
    have hne : w.ids.id k ≠ w.ids.id w.ids.drawn := fun h => hk.ne (w.ids.distinct h)
    -- The new execution has another id, so none of its orders counts for the old one.
    have howed := hsubmits.total fun entry =>
      if entry.2 = w.ids.id k then entry.1.credit asset else 0
    simp only [if_neg hne.symm, List.map_const', List.sum_replicate, nsmul_zero,
      zero_add] at howed
    simp only [potential, deltaOf, owed, started]
    rw [Finmap.lookup_insert_of_ne _ hne, howed]

/-- A call moves what it changes in the balance for `e` out of the potential of `e`. -/
theorem potential_call {w w' : Worker n} {event : Event} {orders : List SubmitOrder}
    {e : String} (asset : String) (hw : w.Bookkeeping)
    (hdrawn : ∃ k < w.ids.drawn, e = w.ids.id k)
    (hfill : ∀ report t, event = .report report →
      w.executionIdMap.lookup report.id = some (t, e) → FillOf t report)
    (hstep : w.step event = .ok (w', orders)) :
    w'.potential e asset + (effect e asset w event).sum = w.potential e asset := by
  cases event with
  | priceUpdate update =>
    have hupdate := hw.updateStep update
    rw [step, Except.ok.injEq] at hstep
    rw [hstep] at hupdate
    rw [potential_update hdrawn hupdate]
    exact add_zero _
  | report report =>
    rw [step] at hstep
    split at hstep
    · cases hstep
    · rename_i w'' hok
      cases hstep
      exact potential_report (fun t => hfill report t rfl) hok
        (reportStep_of_ok (hw.tables report.id) hok)

/-! ### The orders of an execution -/

/-- `w` is a later state than `start`, which already had the execution `e`: no order was
added to `e`, and each order of `e` is as it was or is spent. -/
structure Tracks (start : Worker n) (e : String) (w : Worker n) : Prop where
  drawn : ∃ k < w.ids.drawn, e = w.ids.id k
  orders : ∀ o t, w.executionIdMap.lookup o = some (t, e) →
    start.executionIdMap.lookup o = some (t, e)
  spent : ∀ o t, start.executionIdMap.lookup o = some (t, e) →
    w.executionIdMap.lookup o = some (t, e) ∨ w.Spent o

/-- A call adds no order to an execution of the start. -/
theorem tracks_call {start w w' : Worker n} {e : String} {event : Event}
    {orders : List SubmitOrder} (hw : w.Bookkeeping) (ht : Tracks start e w)
    (h : Call w event w' orders) : Tracks start e w' := by
  have hcall := h
  cases h with
  | update h =>
    cases h with
    | idle list hpath => exact ⟨ht.drawn, ht.orders, ht.spent⟩
    | started list i opp budget result hpath haffected hopp hbudget hpos hprofit hfree
        hsubmits =>
      obtain ⟨k, hk, he⟩ := ht.drawn
      constructor
      case drawn =>
        exact ⟨k, hk.trans hsubmits.lt_drawn, he.trans (congrFun hsubmits.id_eq.symm k)⟩
      case orders =>
        -- The new orders point to the new execution, which took a later id than `e`.
        intro o t ho
        rcases hsubmits.entries o (t, e) ho with hold | ⟨-, hnew, -⟩
        · exact ht.orders o t hold
        · have hsame : k = w.ids.drawn := w.ids.distinct (he.symm.trans hnew)
          exact absurd hsame hk.ne
      case spent =>
        intro o t ho
        rcases ht.spent o t ho with hold | hspent
        · exact Or.inl (hsubmits.old o _ hold)
        · exact Or.inr (spent_call hspent hcall)
  | @report report w' h =>
    have hids : w'.ids = w.ids := by cases h <;> rfl
    constructor
    case drawn => exact hids.symm ▸ ht.drawn
    case orders =>
      intro o t ho
      refine ht.orders o t ?_
      cases h with
      | ignored => exact ho
      | settled | closed => exact (Finmap.lookup_erase_eq_some.mp ho).2
    case spent =>
      intro o t ho
      rcases ht.spent o t ho with hold | hspent
      · cases h with
        | ignored => exact Or.inl hold
        | settled | closed =>
          -- The erased order is the one of the report, and it is spent from now on.
          by_cases heq : o = report.id
          · subst heq
            exact Or.inr ⟨hw.drawnOrders _ (Finmap.mem_of_lookup_eq_some hold),
              Finmap.notMem_erase_self⟩
          · exact Or.inl ((Finmap.lookup_erase_ne heq).trans hold)
      · exact Or.inr (spent_call hspent hcall)

/-- A run adds no order to an execution of the start. -/
theorem tracks_run {start w w' : Worker n} {e : String} {events : List Event}
    {out : List SubmitOrder} (hw : w.Invariant) (ht : Tracks start e w)
    (h : (machine n).run w events = .ok (w', out)) : Tracks start e w' :=
  call_run (P := Tracks start e) (A := fun _ => True)
    (fun hw ht _ hcall => tracks_call hw.tables ht hcall) (fun _ _ => trivial) hw ht h

/-- An order that is filled on the way is spent at the end. -/
theorem spent_of_fill {start w : Worker n} {e o : String} {t : StaticTrade}
    {events : List Event} {out : List SubmitOrder} {report : ExecutionReport}
    (hw : start.Invariant) (ht : Tracks start e start)
    (horder : start.executionIdMap.lookup o = some (t, e))
    (h : (machine n).run start events = .ok (w, out)) (hmem : .report report ∈ events)
    (hid : report.id = o) (hfill : FillOf t report) : w.Spent o := by
  subst hid
  obtain ⟨before, after, rfl⟩ := List.append_of_mem hmem
  obtain ⟨u, out₁, out₂, hbefore, hrest, -⟩ := (Machine.run_append _).mp h
  have hu := invariant_run hw hbefore
  rcases (tracks_run hw ht hbefore).spent _ t horder with hold | hspent
  · -- The order is outstanding when the report arrives, which ends it.
    obtain ⟨v, os, os', hstep, hafter, -⟩ := (Machine.run_cons _).mp hrest
    have hcall : Call u (.report report) v os := call_of_step hu.tables hstep
    refine spent_run (invariant_call hu hcall) ?_ hafter
    cases hcall with
    | report hreport =>
      have hdrawn := hu.tables.drawnOrders _ (Finmap.mem_of_lookup_eq_some hold)
      cases hreport with
      | ignored hnot => exact absurd hfill.ends (hnot t e hold)
      | settled => exact ⟨hdrawn, Finmap.notMem_erase_self⟩
      | closed => exact ⟨hdrawn, Finmap.notMem_erase_self⟩
  · exact spent_run hu hspent hrest

/-- An execution in flight has an outstanding order. -/
theorem Bookkeeping.exists_order {w : Worker n} (hw : w.Bookkeeping) {e : String}
    (he : e ∈ w.executionsMap) : ∃ o t, w.executionIdMap.lookup o = some (t, e) := by
  obtain ⟨count, hcount⟩ := Finmap.mem_iff.mp ((hw.keys e).mp he)
  have hpos := hw.pos e count hcount
  rw [hw.count e count hcount] at hpos
  obtain ⟨o, ⟨t, e'⟩, ho, rfl⟩ := (Finmap.count_pos_iff
    (fun (_ : String) (entry : StaticTrade × String) => entry.2 = e) w.executionIdMap).mp hpos
  exact ⟨o, t, ho⟩

/-- Without outstanding orders an execution is over and has no potential. -/
theorem potential_eq_zero {w : Worker n} (hw : w.Bookkeeping) {e : String}
    (hnone : ∀ o t, w.executionIdMap.lookup o ≠ some (t, e)) (asset : String) :
    e ∉ w.executionsMap ∧ w.potential e asset = 0 := by
  have hgone : e ∉ w.executionsMap := fun he => by
    obtain ⟨o, t, ho⟩ := hw.exists_order he
    exact hnone o t ho
  refine ⟨hgone, ?_⟩
  have howed : w.owed e asset = 0 := Finmap.total_eq_zero fun o entry ho => by
    refine if_neg fun he => hnone o entry.1 ?_
    rw [← he]
    exact ho
  rw [potential, howed, deltaOf, Finmap.lookup_eq_none.mpr hgone, add_zero]

/-! ### The whole execution -/

/-- The reports about the order `id` among the events. -/
def reportsOf (id : String) (events : List Event) : List ExecutionReport :=
  events.filterMap fun
    | .priceUpdate _ => none
    | .report report => if report.id = id then some report else none

/-- The reports about an order are those with its id. -/
theorem mem_reportsOf {id : String} {events : List Event} {report : ExecutionReport} :
    report ∈ reportsOf id events ↔ .report report ∈ events ∧ report.id = id := by
  unfold reportsOf
  rw [List.mem_filterMap]
  constructor
  · rintro ⟨event, hmem, hsome⟩
    cases event with
    | priceUpdate update => cases hsome
    | report r =>
      dsimp only at hsome
      split at hsome
      · rename_i hid
        cases hsome
        exact ⟨hmem, hid⟩
      · cases hsome
  · rintro ⟨hmem, hid⟩
    exact ⟨_, hmem, if_pos hid⟩

/-- The net effect on the balance of an execution that starts in the call from `w` to
`started`: the change at its reservation, and the changes at the reports about its orders. -/
def netEffect (e asset : String) (w started : Worker n) (events : List Event) :
    PreciseNumber :=
  (started.balance.amount asset - w.balance.amount asset)
    + ((machine n).history (effect e asset) started events).sum

/-- When every order of `e` fills once along a run, `e` is over at the end, and the balance
changes for `e` add up to its potential at the start. -/
theorem run_effect {start w : Worker n} {e : String} {events : List Event}
    {out : List SubmitOrder} (asset : String) (hw : start.Invariant)
    (hdrawn : ∃ k < start.ids.drawn, e = start.ids.id k)
    (hfills : ∀ o t, start.executionIdMap.lookup o = some (t, e) →
      ∃ report, reportsOf o events = [report] ∧ FillOf t report)
    (h : (machine n).run start events = .ok (w, out)) :
    e ∉ w.executionsMap ∧
      ((machine n).history (effect e asset) start events).sum = start.potential e asset := by
  have ht : Tracks start e start := ⟨hdrawn, fun _ _ h => h, fun _ _ h => Or.inl h⟩
  -- A report about an order of `e` is the only one about it, so it is its fill.
  have hfill : ∀ event ∈ events, ∀ report t, event = .report report →
      start.executionIdMap.lookup report.id = some (t, e) → FillOf t report := by
    rintro event hmem report t rfl horder
    obtain ⟨r, hone, hr⟩ := hfills _ t horder
    have hrmem : report ∈ reportsOf report.id events := mem_reportsOf.mpr ⟨hmem, rfl⟩
    rw [hone, List.mem_singleton] at hrmem
    rwa [hrmem]
  -- The negated potential moves with the effects: the balance gains what the potential loses.
  have haccount := Machine.run_accounting (M := machine n) (g := effect e asset)
    (I := fun w => w.Invariant ∧ Tracks start e w)
    (A := fun event => ∀ report t, event = .report report →
      start.executionIdMap.lookup report.id = some (t, e) → FillOf t report)
    (fun w => -w.potential e asset) id
    (fun _ _ _ _ ⟨hw, ht⟩ _ hstep =>
      have hcall := call_of_step hw.tables hstep
      ⟨invariant_call hw hcall, tracks_call hw.tables ht hcall⟩)
    (fun w event w' _ ⟨hw, ht⟩ hA hstep => by
      have hcall := potential_call asset hw.tables ht.drawn
        (fun report t hevent horder => hA report t hevent (ht.orders _ t horder)) hstep
      rw [List.map_id, ← hcall]
      abel)
    hfill ⟨hw, ht⟩ h
  have hend := tracks_run hw ht h
  have hnone : ∀ o t, w.executionIdMap.lookup o ≠ some (t, e) := by
    intro o t ho
    have horder := hend.orders o t ho
    obtain ⟨report, hone, hr⟩ := hfills o t horder
    have hmem := mem_reportsOf.mp (hone ▸ List.mem_singleton_self report)
    have hspent := spent_of_fill hw ht horder h hmem.1 hmem.2 hr
    exact hspent.2 (Finmap.mem_of_lookup_eq_some ho)
  obtain ⟨hgone, hzero⟩ := potential_eq_zero (invariant_run hw h).tables hnone asset
  refine ⟨hgone, ?_⟩
  rw [hzero, List.map_id, neg_zero] at haccount
  exact (neg_add_eq_zero.mp haccount.symm).symm

/-- The potential of a started execution is its capacity with the credits of its orders. -/
theorem potential_started {w : Worker n} {book : Book} {list : Fin n → Opportunity}
    {opp : Opportunity} {ids : IdSource}
    {result : IdSource × (Finmap fun _ : String => StaticTrade × String) × List SubmitOrder}
    (hw : w.Bookkeeping)
    (hsubmits : Submits (w.ids.id w.ids.drawn) (opp.trades.map (StaticTrade.ofTrade book))
      ids w.executionIdMap result) (asset : String) :
    (w.started book list opp (w.ids.id w.ids.drawn) result.1 result.2.1).potential
        (w.ids.id w.ids.drawn) asset
      = (if asset = opp.startingAsset then opp.getCapacity book else 0)
        + ((opp.trades.map (StaticTrade.ofTrade book)).map (StaticTrade.credit asset)).sum := by
  -- No order of the Worker pointed to the new id before.
  have hold : Finmap.total (fun _ entry =>
      if entry.2 = w.ids.id w.ids.drawn then entry.1.credit asset else 0)
      w.executionIdMap = 0 := Finmap.total_eq_zero fun o entry ho => by
    refine if_neg fun he => hw.freshExecutions w.ids.drawn le_rfl ?_
    rw [← he]
    exact hw.points o entry.1 entry.2 ho
  have howed := hsubmits.total fun entry =>
    if entry.2 = w.ids.id w.ids.drawn then entry.1.credit asset else 0
  simp only [if_true, hold, add_zero] at howed
  simp only [potential, deltaOf, owed, started]
  rw [howed, Finmap.lookup_insert]
  dsimp only
  rw [Finmap.amount_singleton]

/-- The reserved capacity cancels against the first delta: what remains are the orders. -/
theorem netEffect_started {w w' : Worker n} {book : Book} {list : Fin n → Opportunity}
    {opp : Opportunity} {ids : IdSource}
    {result : IdSource × (Finmap fun _ : String => StaticTrade × String) × List SubmitOrder}
    (hw : w.Bookkeeping)
    (hsubmits : Submits (w.ids.id w.ids.drawn) (opp.trades.map (StaticTrade.ofTrade book))
      ids w.executionIdMap result)
    (hw₁ : (w.started book list opp (w.ids.id w.ids.drawn) result.1 result.2.1).Invariant)
    (hid : result.1.id = w.ids.id) (hlt : w.ids.drawn < result.1.drawn)
    {events : List Event} {out : List SubmitOrder}
    (hfills : ∀ o t, result.2.1.lookup o = some (t, w.ids.id w.ids.drawn) →
      ∃ report, reportsOf o events = [report] ∧ FillOf t report)
    (hrun : (machine n).run
      (w.started book list opp (w.ids.id w.ids.drawn) result.1 result.2.1) events
      = .ok (w', out)) (asset : String) :
    w.ids.id w.ids.drawn ∉ w'.executionsMap ∧
      netEffect (w.ids.id w.ids.drawn) asset w
          (w.started book list opp (w.ids.id w.ids.drawn) result.1 result.2.1) events
        = ((opp.trades.map (StaticTrade.ofTrade book)).map (StaticTrade.credit asset)).sum := by
  have hdrawn : ∃ k < result.1.drawn, w.ids.id w.ids.drawn = result.1.id k :=
    ⟨w.ids.drawn, hlt, (congrFun hid _).symm⟩
  obtain ⟨hgone, hsum⟩ := run_effect asset hw₁ hdrawn hfills hrun
  refine ⟨hgone, ?_⟩
  rw [netEffect, hsum, potential_started hw hsubmits asset]
  simp only [started]
  rw [Finmap.amount_post]
  split <;> abel

/-- Take a Worker over closed paths and books without negative entries, and a price update
that starts the execution `e`. When each order of `e` is then reported once, filled at its
own quantities and without fees, the execution completes, whatever else happens in between.
Its net effect on the balance is positive for its starting asset and not negative for any
other asset. -/
theorem arbitrage_never_loses {config : WorkerConfig n}
    (hclosed : ∀ i, (config.tradingPaths i).Closed)
    (hvalues : ∀ asset, 0 ≤ config.relativeValues.amount asset)
    (hcommission : 0 ≤ config.commission) {w w₁ : Worker n} (h : ReachableNonNeg config w)
    {update : PriceUpdate} (hupdate : update.NonNeg) {orders : List SubmitOrder}
    (hstart : w.processPriceUpdate update = (w₁, orders)) {e : String} {x : Execution}
    {delta : AssetDelta} (hnew : e ∉ w.executionsMap)
    (hexecution : w₁.executionsMap.lookup e = some (x, delta)) {events : List Event}
    (hknown : ∀ event ∈ events, event.Known)
    (hfills : ∀ o t, w₁.executionIdMap.lookup o = some (t, e) →
      ∃ report, reportsOf o events = [report] ∧ FillOf t report) :
    ∃ w₂ out, (machine n).run w₁ events = .ok (w₂, out) ∧ e ∉ w₂.executionsMap ∧
      0 < netEffect e x.startingAsset w w₁ events ∧
      ∀ asset, 0 ≤ netEffect e asset w w₁ events := by
  have hw := h.invariant
  have hupdated : UpdateStep w update w₁ orders := by
    have hstep := hw.tables.updateStep update
    rwa [hstart] at hstep
  have hw₁ : w₁.Invariant := invariant_call hw (Call.update hupdated)
  obtain ⟨w₂, out, hrun, -⟩ := run_ok hw₁ hknown
  cases hupdated with
  | idle list hpath => exact absurd (Finmap.mem_of_lookup_eq_some hexecution) hnew
  | started list i opp budget result hpath haffected hopp hbudget hpos hprofit hfree hsubmits =>
    have hbook := h.setting.book.apply hupdate
    have he : e = w.ids.id w.ids.drawn := by
      by_contra hne
      rw [started, Finmap.lookup_insert_of_ne _ hne] at hexecution
      exact hnew (Finmap.mem_of_lookup_eq_some hexecution)
    subst he
    have hx : x = Execution.ofOpportunity (w.book.apply update) opp := by
      rw [started, Finmap.lookup_insert, Option.some.injEq, Prod.mk.injEq] at hexecution
      exact hexecution.1.symm
    have hnet := netEffect_started hw.tables hsubmits hw₁ hsubmits.id_eq hsubmits.lt_drawn hfills
      hrun
    -- The sized path is a closed chain, and its last trade gives more than its first uses.
    have hsame := Opportunity.samePath_update (w.book.apply update) (w.opportunityList i) budget
    rw [← hopp] at hsame
    have hpaths := hsame.trans (h.setting.path i)
    obtain ⟨hcurrency, hcloses⟩ := (hclosed i).of_legs hpaths.legs opp.nonempty
    have hqty : opp.trades.IsChain fun t t' => t'.usedQty (w.book.apply update)
        ≤ t.recvQty (w.book.apply update) := by
      rw [hopp]
      exact isChain_sizeTrades hbook _ hpos.le
    have hvalue := h.setting.relativeValue_nonneg hvalues i
    have hrate : 0 ≤ (w.opportunityList i).commission := by
      rw [(h.setting.path i).commission]
      exact hcommission
    have hgain : (opp.trades.head opp.nonempty).usedQty (w.book.apply update)
        < (opp.trades.getLast opp.nonempty).recvQty (w.book.apply update) := by
      subst hopp
      exact Opportunity.getCapacity_lt_of_profit hbook hvalue hrate hpos.le hprofit
    have hsum := sum_credit_nonneg opp.nonempty hcurrency hcloses hqty hgain
    refine ⟨w₂, out, hrun, (hnet x.startingAsset).1, ?_, ?_⟩
    · rw [(hnet _).2, hx]
      exact (hsum _).2 opp.starts
    · intro asset
      rw [(hnet asset).2]
      exact (hsum asset).1

/-- Each order of the triangle fills once in the sample fills. -/
private theorem sampleFills_fill (o : String) (t : StaticTrade)
    (h : sampleWorker.executionIdMap.lookup o = some (t, "")) :
    ∃ report, reportsOf o sampleFills = [report] ∧ FillOf t report := by
  have hkeys : sampleWorker.executionIdMap.keys = {"x", "xx", "xxx"} := by decide +kernel
  have ho : o ∈ sampleWorker.executionIdMap.keys :=
    Finmap.mem_keys.mpr (Finmap.mem_of_lookup_eq_some h)
  have hfill : ∀ report : ExecutionReport,
      (sampleWorker.executionIdMap.lookup o).map
          (fun entry => (entry.1.usedQty, entry.1.recvQty))
        = some (report.usedQty, report.recvQty) →
      report.status = .FILLED → report.feeDelta = ∅ → FillOf t report := by
    intro report hqty hstatus hfees
    rw [h, Option.map_some, Option.some.injEq, Prod.mk.injEq] at hqty
    exact ⟨hstatus, hqty.1.symm, hqty.2.symm, fun asset => by rw [hfees, Finmap.amount_empty]⟩
  rw [hkeys] at ho
  simp only [Finset.mem_insert, Finset.mem_singleton] at ho
  rcases ho with rfl | rfl | rfl
  all_goals exact ⟨_, rfl, hfill _ (by decide +kernel) rfl rfl⟩

/-- The triangle, started and filled, has won USDT. -/
theorem arbitrage_never_loses_triangle :
    0 < netEffect "" "USDT" (new sampleConfig) sampleWorker sampleFills := by
  have hclosed : ∀ i, (sampleConfig.tradingPaths i).Closed := fun i =>
    ⟨by simp [sampleConfig, triangle, Trade.recvCurrency, Trade.usedCurrency], rfl⟩
  have hstart : (new sampleConfig).processPriceUpdate sampleUpdate
      = (sampleWorker, ((new sampleConfig).processPriceUpdate sampleUpdate).2) := by
    unfold sampleWorker
    rfl
  have hmem : "" ∈ sampleWorker.executionsMap := by decide +kernel
  have hasset : (sampleWorker.executionsMap.lookup "").map (·.1.startingAsset)
      = some "USDT" := by decide +kernel
  obtain ⟨⟨x, delta⟩, hexecution⟩ := Finmap.mem_iff.mp hmem
  obtain ⟨-, -, -, -, hpos, -⟩ := arbitrage_never_loses hclosed nonNeg_sampleValues (by decide)
    reachableNonNeg_new nonNeg_sampleUpdate hstart Finmap.notMem_empty hexecution
    known_sampleFills sampleFills_fill
  rw [hexecution, Option.map_some, Option.some.injEq] at hasset
  rwa [hasset] at hpos

end Harjus.Worker
