import Harjus.Market
import Harjus.Proofs.Worker.Consistency
import Harjus.Proofs.Worker.Ledger
import Mathlib.Algebra.Order.BigOperators.Group.List

/-!
# `Harjus.Proofs.Market`: agreement with the exchange

The Worker's balance against the account of the exchange, over every interleaving of price
updates, fills and reports.

* `Consistent`: an order is outstanding at the Worker until its ticket is settled, and what
  the Worker holds is the initial balance with what the settled tickets have brought, less
  the fees of their fills before the last one (`booked`).
* `consistent_update`, `consistent_fill`, `consistent_deliver`: one step lemma for each
  action. A report is the completing one exactly when it is about the last fill of a filled
  order (`report_completes_iff`).
* `exchange_agreement_iff`: once all orders are settled, the Worker agrees with the exchange
  exactly when the fees of the partial fills cancel. `processReport` adds them to a copy of
  the delta and returns without storing it.
* `exchange_agreement_counterexample`: an order filled in two trades with a fee each.
-/

set_option autoImplicit false

namespace Harjus

open Harjus.Lib

/-! ### Tickets -/

/-- The quantity of a fill on the side the order is on. -/
def Fill.baseQty (position : Position) (fill : Fill) : PreciseNumber :=
  match position with
  | .LONG => fill.recvQty
  | .SHORT => fill.usedQty

/-- The base quantity of some fills is the sum of theirs. -/
theorem baseQty_eq (position : Position) (fills : List Fill) :
    baseQty position fills = (fills.map (Fill.baseQty position)).sum := by
  cases position <;> rfl

/-- A proper prefix of positive fills has a smaller base quantity. -/
theorem baseQty_take_lt {position : Position} {fills : List Fill}
    (hpos : ∀ fill ∈ fills, 0 < fill.baseQty position) {k : ℕ} (hk : k < fills.length) :
    baseQty position (fills.take k) < baseQty position fills := by
  have hsplit := congrArg (fun fills => (fills.map (Fill.baseQty position)).sum)
    (List.take_append_drop k fills)
  rw [baseQty_eq, baseQty_eq, ← hsplit]
  simp only [List.map_append, List.sum_append]
  refine lt_add_of_pos_right _ (List.sum_pos _ ?_ ?_)
  · intro qty hqty
    obtain ⟨fill, hfill, rfl⟩ := List.mem_map.mp hqty
    exact hpos fill (List.mem_of_mem_drop hfill)
  · simp only [ne_eq, List.map_eq_nil_iff, List.drop_eq_nil_iff]
    omega

namespace Ticket

/-- What every ticket of a market satisfies. -/
structure Legal (ticket : Ticket) : Prop where
  positive : ∀ fill ∈ ticket.fills, 0 < fill.baseQty ticket.trade.position
  within : ticket.fills ≠ [] →
    baseQty ticket.trade.position ticket.fills ≤ ticket.trade.orderQty
  delivered : ticket.delivered ≤ ticket.fills.length

/-- The quantity that the Worker compares is what has been filled up to the reported fill. -/
theorem compareQty_report (id : String) (ticket : Ticket) (k : ℕ) :
    Worker.compareQty ticket.trade (ticket.report id k)
      = baseQty ticket.trade.position (ticket.fills.take (k + 1)) := by
  unfold Worker.compareQty baseQty report
  cases ticket.trade.position <;> rfl

/-- The report of a fill ends the order exactly when it is about the last fill and the order
is filled. -/
theorem report_completes_iff {ticket : Ticket} (h : ticket.Legal) (id : String)
    (hk : ticket.delivered < ticket.fills.length) :
    Worker.Ends ticket.trade (ticket.report id ticket.delivered) ↔
      Settled { ticket with delivered := ticket.delivered + 1 } := by
  have hne : ticket.fills ≠ [] := List.ne_nil_of_length_pos (by omega)
  have hends : Worker.Ends ticket.trade (ticket.report id ticket.delivered) ↔
      ticket.trade.orderQty
        ≤ baseQty ticket.trade.position (ticket.fills.take (ticket.delivered + 1)) := by
    rw [← compareQty_report id]
    constructor
    · rintro (hstatus | hstatus | ⟨-, hfull⟩)
      · cases hstatus
      · cases hstatus
      · exact hfull
    · exact fun hfull => Or.inr (Or.inr ⟨rfl, hfull⟩)
  rw [hends]
  constructor
  · intro hfull
    -- Before the last fill the reported quantity is short: every fill adds to it.
    have hall : ticket.delivered + 1 = ticket.fills.length := by
      by_contra hlt
      have hshort := baseQty_take_lt h.positive
        (show ticket.delivered + 1 < ticket.fills.length by omega)
      exact absurd (hfull.trans_lt hshort) (not_lt_of_ge (h.within hne))
    rw [hall, List.take_length] at hfull
    exact ⟨le_antisymm (h.within hne) hfull, hne, hall⟩
  · rintro ⟨hfilled, -, hall⟩
    simp only at hfilled hall
    rw [hall, List.take_length, hfilled]

/-- What the Worker books for a ticket. -/
def booked (asset : String) (ticket : Ticket) : PreciseNumber :=
  if ticket.Settled then ticket.account asset - ticket.partialFees asset else 0

/-- The completing report credits what the order brings, with the fees of the last fill
only. -/
theorem credit_report {ticket : Ticket} (id asset : String)
    (hlast : ticket.delivered + 1 = ticket.fills.length) :
    Worker.fillCredit asset ticket.trade (ticket.report id ticket.delivered)
      = ticket.account asset - ticket.partialFees asset := by
  have hne : ticket.fills ≠ [] := List.ne_nil_of_length_pos (by omega)
  have hfees : (ticket.fills.map (·.feeDelta.amount asset)).sum
      = ticket.partialFees asset + (ticket.fills.getLast hne).feeDelta.amount asset := by
    conv_lhs => rw [← List.dropLast_append_getLast hne]
    rw [List.map_append, List.sum_append, List.map_singleton, List.sum_singleton]
    rfl
  have hget : ticket.fills[ticket.delivered]? = some (ticket.fills.getLast hne) := by
    rw [List.getLast_eq_getElem, List.getElem?_eq_getElem (by omega)]
    simp only [← hlast, Nat.add_sub_cancel]
  have hall : ticket.fills.take (ticket.delivered + 1) = ticket.fills := by
    rw [hlast, List.take_length]
  simp only [Worker.fillCredit, report, account, hfees, hget, hall, Option.elim_some]
  abel

/-- A ticket without fills. -/
theorem legal_new (trade : StaticTrade) : Legal ⟨trade, [], 0⟩ :=
  ⟨by simp, fun h => absurd rfl h, le_rfl⟩

/-- An order without fills is not settled. -/
theorem not_settled_new (trade : StaticTrade) : ¬ Settled ⟨trade, [], 0⟩ :=
  fun h => h.nonempty rfl

/-- Nothing is booked for an order that is not settled. -/
theorem booked_of_not_settled {ticket : Ticket} (h : ¬ ticket.Settled) (asset : String) :
    ticket.booked asset = 0 := if_neg h

end Ticket

namespace Market

open Worker (Fresh Submits UpdateStep)

variable {n : ℕ}

/-! ### Opening tickets -/

/-- Every entry after opening tickets is an old one, or a new one for one of the orders. -/
theorem lookup_openTickets {w : Worker n} {orders : List SubmitOrder}
    {tickets : Finmap fun _ : String => Ticket} {id : String} {ticket : Ticket}
    (h : (orders.foldl (openTicket w) tickets).lookup id = some ticket) :
    tickets.lookup id = some ticket ∨ (∃ order ∈ orders, order.id = id) ∧
      ∃ trade e, w.executionIdMap.lookup id = some (trade, e) ∧ ticket = ⟨trade, [], 0⟩ := by
  induction orders generalizing tickets with
  | nil => exact Or.inl h
  | cons order orders ih =>
    rw [List.foldl_cons] at h
    rcases ih h with hold | ⟨⟨order', horder', hid⟩, hnew⟩
    · rw [openTicket] at hold
      split at hold
      · exact Or.inl hold
      · rename_i trade e horder
        by_cases hid : id = order.id
        · rw [hid, Finmap.lookup_insert, Option.some.injEq] at hold
          exact Or.inr ⟨⟨order, List.mem_cons_self, hid.symm⟩,
            trade, e, hid ▸ horder, hold.symm⟩
        · rw [Finmap.lookup_insert_of_ne _ hid] at hold
          exact Or.inl hold
    · -- A later order opened the ticket.
      exact Or.inr ⟨⟨order', List.mem_cons_of_mem _ horder', hid⟩, hnew⟩

/-- The old tickets stay, and every submitted order has one. -/
theorem mem_openTickets {w : Worker n} {orders : List SubmitOrder}
    {tickets : Finmap fun _ : String => Ticket} {id : String}
    (h : id ∈ tickets ∨ (∃ order ∈ orders, order.id = id) ∧ id ∈ w.executionIdMap) :
    id ∈ orders.foldl (openTicket w) tickets := by
  induction orders generalizing tickets with
  | nil =>
    rcases h with h | ⟨⟨order, horder, -⟩, -⟩
    · exact h
    · cases horder
  | cons order orders ih =>
    rw [List.foldl_cons]
    refine ih ?_
    have hkeep : ∀ {id}, id ∈ tickets → id ∈ openTicket w tickets order := by
      intro id hid
      rw [openTicket]
      split
      · exact hid
      · exact Finmap.mem_insert.mpr (Or.inr hid)
    rcases h with h | ⟨⟨order', horder', hid⟩, hmem⟩
    · exact Or.inl (hkeep h)
    · rcases List.mem_cons.mp horder' with rfl | horder'
      · left
        obtain ⟨⟨trade, e⟩, hlookup⟩ := Finmap.mem_iff.mp hmem
        subst hid
        rw [openTicket, hlookup]
        exact Finmap.mem_insert.mpr (Or.inl rfl)
      · exact Or.inr ⟨⟨order', horder', hid⟩, hmem⟩

/-- Opening tickets for orders without one books nothing. -/
theorem total_openTickets {w : Worker n} {orders : List SubmitOrder}
    {tickets : Finmap fun _ : String => Ticket} (asset : String)
    (hnew : ∀ order ∈ orders, ∀ ticket, tickets.lookup order.id = some ticket →
      ¬ ticket.Settled) :
    Finmap.total (fun _ ticket => ticket.booked asset) (orders.foldl (openTicket w) tickets)
      = Finmap.total (fun _ ticket => ticket.booked asset) tickets := by
  induction orders generalizing tickets with
  | nil => rfl
  | cons order orders ih =>
    have hone : Finmap.total (fun _ ticket => ticket.booked asset)
          (openTicket w tickets order)
        = Finmap.total (fun _ ticket => ticket.booked asset) tickets := by
      rw [openTicket]
      split
      · rfl
      · rename_i trade e _
        have hzero := Ticket.booked_of_not_settled (Ticket.not_settled_new trade) asset
        cases hlookup : tickets.lookup order.id with
        | none =>
          rw [Finmap.total_insert _ _ (Finmap.lookup_eq_none.mp hlookup), hzero, zero_add]
        | some ticket =>
          have hold := Ticket.booked_of_not_settled
            (hnew order List.mem_cons_self ticket hlookup) asset
          have htotal := Finmap.total_overwrite (fun _ ticket => ticket.booked asset)
            ⟨trade, [], 0⟩ hlookup
          rwa [hold, hzero, zero_add, zero_add] at htotal
    rw [List.foldl_cons, ← hone]
    refine ih fun order' horder' ticket hticket => ?_
    rcases @lookup_openTickets _ _ [order] _ _ _ hticket with hold | ⟨-, trade, e, -, rfl⟩
    · exact hnew order' (List.mem_cons_of_mem _ horder') ticket hold
    · exact Ticket.not_settled_new trade

/-! ### One action -/

/-- The Worker and the exchange are consistent. -/
structure Consistent (config : WorkerConfig n) (m : Market n) : Prop where
  worker : m.worker.Invariant
  fresh : Fresh m.worker.ids m.tickets
  legal : ∀ id ticket, m.tickets.lookup id = some ticket → ticket.Legal
  outstanding : ∀ id ticket, m.tickets.lookup id = some ticket → ¬ ticket.Settled →
    ∃ e, m.worker.executionIdMap.lookup id = some (ticket.trade, e)
  spent : ∀ id ticket, m.tickets.lookup id = some ticket → ticket.Settled →
    m.worker.Spent id
  covered : ∀ id ∈ m.worker.executionIdMap, id ∈ m.tickets
  worth : ∀ asset, m.worker.worth asset = config.balance.amount asset
    + Finmap.total (fun _ ticket => ticket.booked asset) m.tickets

/-- At the start there are no tickets and no orders. -/
theorem consistent_new (config : WorkerConfig n) : Consistent config (new config) where
  worker := Worker.invariant_new config
  fresh _ _ := Finmap.notMem_empty
  legal id ticket h := by simp [new] at h
  outstanding id ticket h := by simp [new] at h
  spent id ticket h := by simp [new] at h
  covered id h := absurd h Finmap.notMem_empty
  worth asset := by
    rw [new, Worker.worth_new, Finmap.total_empty, add_zero]

/-- New orders open new tickets. -/
theorem consistent_update {config : WorkerConfig n} {m : Market n} {update : PriceUpdate}
    {w : Worker n} {orders : List SubmitOrder} (hm : Consistent config m)
    (h : UpdateStep m.worker update w orders) :
    Consistent config ⟨w, orders.foldl (openTicket w) m.tickets⟩ := by
  have hcall := Worker.Call.update h
  have hw := Worker.invariant_call hm.worker hcall
  have hext := Worker.extends_update hm.worker.tables h
  have hnew : ∀ order ∈ orders, order.id ∉ m.tickets := by
    intro order horder
    obtain ⟨-, k, hk, hid⟩ := hext.orders order horder
    rw [hid]
    exact hm.fresh k hk
  constructor
  case worker => exact hw
  case fresh =>
    intro k hk hmem
    obtain ⟨ticket, hticket⟩ := Finmap.mem_iff.mp hmem
    rcases lookup_openTickets hticket with hold | ⟨-, trade, e, horder, -⟩
    · rw [hext.id] at hold
      exact hm.fresh k (hext.drawn.trans hk) (Finmap.mem_of_lookup_eq_some hold)
    · exact hw.tables.freshOrders k hk (Finmap.mem_of_lookup_eq_some horder)
  case legal =>
    intro id ticket hticket
    rcases lookup_openTickets hticket with hold | ⟨-, trade, e, -, rfl⟩
    · exact hm.legal id ticket hold
    · exact Ticket.legal_new trade
  case outstanding =>
    intro id ticket hticket hsettled
    rcases lookup_openTickets hticket with hold | ⟨-, trade, e, horder, rfl⟩
    · obtain ⟨e, he⟩ := hm.outstanding id ticket hold hsettled
      exact ⟨e, hext.old _ _ he⟩
    · exact ⟨e, horder⟩
  case spent =>
    intro id ticket hticket hsettled
    rcases lookup_openTickets hticket with hold | ⟨-, trade, e, -, rfl⟩
    · exact Worker.spent_call (hm.spent id ticket hold hsettled) hcall
    · exact absurd hsettled (Ticket.not_settled_new trade)
  case covered =>
    intro id hid
    refine mem_openTickets ?_
    obtain ⟨x, hx⟩ := Finmap.mem_iff.mp hid
    rcases hext.entries id x hx with hold | horder
    · exact Or.inl (hm.covered id (Finmap.mem_of_lookup_eq_some hold))
    · exact Or.inr ⟨horder, hid⟩
  case worth =>
    -- A new ticket books nothing, and the reservation only moves the capacity into a delta.
    intro asset
    have hworth := Worker.worth_call hm.worker.tables hcall asset
    rw [total_openTickets asset fun order horder ticket hticket =>
      absurd (Finmap.mem_of_lookup_eq_some hticket) (hnew order horder), hworth,
      ← hm.worth asset]
    exact add_zero _

/-- A fill that the exchange may do leaves the ticket open, before and after. -/
private theorem not_settled_fill {ticket : Ticket} {fill : Fill} (hlegal : ticket.Legal)
    (hpos : 0 < baseQty ticket.trade.position [fill])
    (hle : baseQty ticket.trade.position (ticket.fills ++ [fill]) ≤ ticket.trade.orderQty) :
    ¬ ticket.Settled ∧
      ¬ Ticket.Settled { ticket with fills := ticket.fills ++ [fill] } := by
  constructor
  · -- A settled ticket is full, and the fill is positive.
    intro h
    have hsum : baseQty ticket.trade.position (ticket.fills ++ [fill])
        = ticket.trade.orderQty + baseQty ticket.trade.position [fill] := by
      rw [baseQty_eq, List.map_append, List.sum_append, ← baseQty_eq, ← baseQty_eq, h.filled]
    rw [hsum] at hle
    exact absurd (lt_add_of_pos_right _ hpos) (not_lt_of_ge hle)
  · -- The new fill is not reported yet.
    intro h
    have hdelivered : ticket.delivered = (ticket.fills ++ [fill]).length := h.delivered
    have hle := hlegal.delivered
    rw [List.length_append, List.length_singleton] at hdelivered
    omega

/-- A fill at the exchange is nothing to the Worker until it is reported. -/
theorem consistent_fill {config : WorkerConfig n} {m : Market n} {id : String} {fill : Fill}
    {ticket : Ticket} (hm : Consistent config m) (hticket : m.tickets.lookup id = some ticket)
    (hpos : 0 < baseQty ticket.trade.position [fill])
    (hle : baseQty ticket.trade.position (ticket.fills ++ [fill]) ≤ ticket.trade.orderQty) :
    Consistent config
      { m with tickets :=
          m.tickets.insert id { ticket with fills := ticket.fills ++ [fill] } } := by
  have hlegal := hm.legal id ticket hticket
  obtain ⟨hopen, hopen'⟩ := not_settled_fill hlegal hpos hle
  have hlegal' : Ticket.Legal { ticket with fills := ticket.fills ++ [fill] } := by
    refine ⟨?_, fun _ => hle, ?_⟩
    · intro f hf
      rcases List.mem_append.mp hf with hf | hf
      · exact hlegal.positive f hf
      · rw [List.mem_singleton.mp hf]
        rwa [baseQty_eq, List.map_singleton, List.sum_singleton] at hpos
    · have := hlegal.delivered
      simp only [List.length_append]
      omega
  constructor
  case worker => exact hm.worker
  case fresh => exact hm.fresh.overwrite hticket _
  case legal => exact Finmap.forall_insert hlegal' fun id' ticket' _ h => hm.legal id' ticket' h
  case outstanding =>
    exact Finmap.forall_insert (fun _ => hm.outstanding id ticket hticket hopen)
      fun id' ticket' _ h => hm.outstanding id' ticket' h
  case spent =>
    exact Finmap.forall_insert (fun hsettled => absurd hsettled hopen')
      fun id' ticket' _ h => hm.spent id' ticket' h
  case covered => exact fun id' h => Finmap.mem_insert.mpr (Or.inr (hm.covered id' h))
  case worth =>
    intro asset
    -- The ticket is open before and after the fill, so it counts for nothing in the books.
    have htotal := Finmap.total_overwrite (fun _ ticket => ticket.booked asset)
      { ticket with fills := ticket.fills ++ [fill] } hticket
    rw [Ticket.booked_of_not_settled hopen, Ticket.booked_of_not_settled hopen', zero_add,
      zero_add] at htotal
    rw [htotal]
    exact hm.worth asset

/-- The report about a fill that does not complete the order changes nothing at the
Worker. -/
private theorem worker_eq_of_not_ends {w w' : Worker n} {report : ExecutionReport}
    {trade : StaticTrade} {e : String}
    (horder : w.executionIdMap.lookup report.id = some (trade, e))
    (hnot : ¬ Worker.Ends trade report) (h : Worker.ReportStep w report w') : w' = w := by
  have hsame : ∀ t e', w.executionIdMap.lookup report.id = some (t, e') → t = trade := by
    intro t e' h
    rw [horder, Option.some.injEq, Prod.mk.injEq] at h
    exact h.1.symm
  cases h with
  | ignored => rfl
  | settled t e' x delta count horder' _ _ hends =>
    exact absurd (hsame t e' horder' ▸ hends) hnot
  | closed t e' x delta horder' _ _ hends =>
    exact absurd (hsame t e' horder' ▸ hends) hnot

/-- The report that completes an order takes it out of the order table and credits the
ticket, less the fees of its fills before the last one. -/
private theorem worker_of_completed {w w' : Worker n} {id : String} {ticket : Ticket}
    {e : String} (hw : w.Bookkeeping)
    (horder : w.executionIdMap.lookup id = some (ticket.trade, e))
    (hends : Worker.Ends ticket.trade (ticket.report id ticket.delivered))
    (hlast : ticket.delivered + 1 = ticket.fills.length)
    (h : Worker.ReportStep w (ticket.report id ticket.delivered) w') :
    w'.Spent id ∧ w'.executionIdMap = w.executionIdMap.erase id ∧
      ∀ asset, w'.worth asset
        = w.worth asset + (ticket.account asset - ticket.partialFees asset) := by
  have hdrawn := hw.drawnOrders id (Finmap.mem_of_lookup_eq_some horder)
  have hsettled : w.settlements (.report (ticket.report id ticket.delivered))
      = [⟨ticket.trade, e, ticket.report id ticket.delivered⟩] := by
    have hfull : ticket.trade.orderQty
        ≤ Worker.compareQty ticket.trade (ticket.report id ticket.delivered) := by
      rcases hends with hstatus | hstatus | ⟨-, hfull⟩
      · cases hstatus
      · cases hstatus
      · exact hfull
    have hlookup : w.executionIdMap.lookup (ticket.report id ticket.delivered).id
        = some (ticket.trade, e) := horder
    simp only [Worker.settlements, hlookup]
    exact if_pos ⟨rfl, hfull⟩
  have hworth (asset : String) : w'.worth asset
      = w.worth asset + (ticket.account asset - ticket.partialFees asset) := by
    rw [Worker.worth_call hw (Worker.Call.report h) asset, hsettled, Worker.credits,
      List.map_singleton, List.sum_singleton, Worker.Settlement.credit,
      Ticket.credit_report id asset hlast]
  cases h with
  | ignored hnot => exact absurd hends (hnot _ _ horder)
  | settled => exact ⟨⟨hdrawn, Finmap.notMem_erase_self⟩, rfl, hworth⟩
  | closed => exact ⟨⟨hdrawn, Finmap.notMem_erase_self⟩, rfl, hworth⟩

/-- A reported fill brings the Worker's order and its ticket on by one. -/
theorem consistent_deliver {config : WorkerConfig n} {m : Market n} {id : String}
    {ticket : Ticket} {w : Worker n} (hm : Consistent config m)
    (hticket : m.tickets.lookup id = some ticket)
    (hk : ticket.delivered < ticket.fills.length)
    (h : m.worker.processReport (ticket.report id ticket.delivered) = .ok w) :
    Consistent config
      ⟨w, m.tickets.insert id { ticket with delivered := ticket.delivered + 1 }⟩ := by
  have hlegal := hm.legal id ticket hticket
  have hopen : ¬ ticket.Settled := fun hs => hk.ne hs.delivered
  obtain ⟨e, horder⟩ := hm.outstanding id ticket hticket hopen
  have hstep := Worker.reportStep_of_ok (hm.worker.tables.tables id) h
  have hcall := Worker.Call.report hstep
  have hids : w.ids = m.worker.ids := by cases hstep <;> rfl
  have hlegal' : Ticket.Legal { ticket with delivered := ticket.delivered + 1 } :=
    ⟨hlegal.positive, hlegal.within, hk⟩
  have hiff := Ticket.report_completes_iff hlegal id hk
  have hfresh : Fresh w.ids
      (m.tickets.insert id { ticket with delivered := ticket.delivered + 1 }) := by
    rw [hids]
    exact hm.fresh.overwrite hticket _
  have hlegals := Finmap.forall_insert (m := m.tickets) (k := id)
    (P := fun _ ticket => ticket.Legal) hlegal' fun id' ticket' _ h => hm.legal id' ticket' h
  have htotal (asset : String) := Finmap.total_overwrite
    (fun _ ticket => ticket.booked asset) { ticket with delivered := ticket.delivered + 1 } hticket
  simp only [Ticket.booked_of_not_settled hopen, zero_add] at htotal
  by_cases hends : Worker.Ends ticket.trade (ticket.report id ticket.delivered)
  · -- The last fill settles the ticket, and the Worker takes the order out of its table.
    have hdone := hiff.mp hends
    obtain ⟨hspent, htable, hworth⟩ := worker_of_completed hm.worker.tables horder hends
      hdone.delivered hstep
    constructor
    case worker => exact Worker.invariant_call hm.worker hcall
    case fresh => exact hfresh
    case legal => exact hlegals
    case outstanding =>
      refine Finmap.forall_insert (fun hnot => absurd hdone hnot) ?_
      intro id' ticket' hid hold hsettled
      obtain ⟨e', he'⟩ := hm.outstanding id' ticket' hold hsettled
      exact ⟨e', by rw [htable, Finmap.lookup_erase_ne hid, he']⟩
    case spent =>
      refine Finmap.forall_insert (fun _ => hspent) ?_
      intro id' ticket' _ hold hsettled
      exact Worker.spent_call (hm.spent id' ticket' hold hsettled) hcall
    case covered =>
      intro id' hid'
      rw [htable] at hid'
      exact Finmap.mem_insert.mpr (Or.inr (hm.covered id' (Finmap.mem_erase.mp hid').2))
    case worth =>
      intro asset
      have hbooked : Ticket.booked asset { ticket with delivered := ticket.delivered + 1 }
          = ticket.account asset - ticket.partialFees asset := if_pos hdone
      rw [htotal asset, hbooked, hworth asset, hm.worth asset]
      abel
  · -- A partial fill leaves the Worker as it is, and its ticket open.
    have hopen' := mt hiff.mpr hends
    have hsame := worker_eq_of_not_ends horder hends hstep
    subst hsame
    constructor
    case worker => exact hm.worker
    case fresh => exact hfresh
    case legal => exact hlegals
    case outstanding =>
      exact Finmap.forall_insert (fun _ => ⟨e, horder⟩)
        fun id' ticket' _ h => hm.outstanding id' ticket' h
    case spent =>
      exact Finmap.forall_insert (fun hsettled => absurd hsettled hopen')
        fun id' ticket' _ h => hm.spent id' ticket' h
    case covered => exact fun id' h => Finmap.mem_insert.mpr (Or.inr (hm.covered id' h))
    case worth =>
      intro asset
      rw [htotal asset, Ticket.booked_of_not_settled hopen', zero_add]
      exact hm.worth asset

/-! ### Runs of the market -/

/-- A report that `process` takes is one that `processReport` takes. -/
theorem processReport_of_process {w w' : Worker n} {report : ExecutionReport}
    (h : process w report = .ok w') : w.processReport report = .ok w' := by
  rw [process] at h
  split at h
  · cases h
  · rename_i hok
    rw [hok]
    cases h
    rfl

/-- A step of the exchange or of the Worker keeps the two consistent. -/
theorem consistent_step {config : WorkerConfig n} {m m' : Market n} {action : Action}
    {orders : List SubmitOrder} (hm : Consistent config m)
    (h : m.step action = .ok (m', orders)) : Consistent config m' := by
  cases action with
  | update update =>
    cases h
    exact consistent_update hm (hm.worker.tables.updateStep update)
  | fill id fill =>
    simp only [step] at h
    split at h
    · cases h
    · rename_i ticket hticket
      split at h
      · rename_i hfill
        cases h
        exact consistent_fill hm hticket hfill.1 hfill.2
      · cases h
  | acknowledge report =>
    simp only [step] at h
    split at h
    · rename_i hnew
      split at h
      · cases h
      · rename_i w hprocess
        cases h
        have hok := processReport_of_process hprocess
        -- A `NEW` report ends no order, known or not.
        have hsame : w = m.worker := by
          rw [Worker.processReport_of_not_ends (by simp [hnew]) (hm.worker.tables.points _)
            (fun t _ _ => by simp [Worker.Ends, hnew]), Except.ok.injEq] at hok
          exact hok.symm
        rw [hsame]
        exact hm
    · cases h
  | deliver id =>
    simp only [step] at h
    split at h
    · cases h
    · rename_i ticket hticket
      split at h
      · rename_i hk
        split at h
        · cases h
        · rename_i w hprocess
          cases h
          exact consistent_deliver hm hticket hk (processReport_of_process hprocess)
      · cases h

/-- In every run the exchange and the Worker are consistent. -/
theorem consistent_run {config : WorkerConfig n} {m m' : Market n} {actions : List Action}
    {out : List SubmitOrder} (hm : Consistent config m)
    (h : (machine n).run m actions = .ok (m', out)) : Consistent config m' :=
  Machine.run_preserves (M := machine n) (I := Consistent config) (A := fun _ => True)
    (fun _ _ _ _ hm _ hstep => consistent_step hm hstep) (fun _ _ => trivial) hm h

/-- No ticket disappears, and every submitted order gets one. -/
theorem mem_tickets_step {config : WorkerConfig n} {m m' : Market n} {action : Action}
    {orders : List SubmitOrder} (hm : Consistent config m)
    (h : m.step action = .ok (m', orders)) :
    (∀ id ∈ m.tickets, id ∈ m'.tickets) ∧ ∀ order ∈ orders, order.id ∈ m'.tickets := by
  have hinsert : ∀ {id id' ticket}, id' ∈ m.tickets → id' ∈ m.tickets.insert id ticket :=
    fun h => Finmap.mem_insert.mpr (Or.inr h)
  cases action with
  | update update =>
    cases h
    have hext := Worker.extends_update hm.worker.tables (hm.worker.tables.updateStep update)
    exact ⟨fun id hid => mem_openTickets (Or.inl hid), fun order horder =>
      mem_openTickets (Or.inr ⟨⟨order, horder, rfl⟩, (hext.orders order horder).1⟩)⟩
  | fill id fill =>
    simp only [step] at h
    split at h
    · cases h
    · split at h <;> cases h
      exact ⟨fun _ => hinsert, by simp⟩
  | acknowledge report =>
    simp only [step] at h
    split at h
    · split at h <;> cases h
      exact ⟨fun _ hid => hid, by simp⟩
    · cases h
  | deliver id =>
    simp only [step] at h
    split at h
    · cases h
    · split at h
      · split at h <;> cases h
        exact ⟨fun _ => hinsert, by simp⟩
      · cases h

/-- The orders submitted along a run have tickets at its end. -/
theorem mem_tickets_run {config : WorkerConfig n} {m m' : Market n} {actions : List Action}
    {out : List SubmitOrder} (hm : Consistent config m)
    (h : (machine n).run m actions = .ok (m', out)) :
    (∀ id ∈ m.tickets, id ∈ m'.tickets) ∧ ∀ order ∈ out, order.id ∈ m'.tickets := by
  induction actions generalizing m out with
  | nil =>
    cases h
    exact ⟨fun _ hid => hid, by simp⟩
  | cons action actions ih =>
    obtain ⟨u, os, os', hstep, hrest, rfl⟩ := (Machine.run_cons _).mp h
    obtain ⟨hkeep, hnew⟩ := mem_tickets_step hm hstep
    obtain ⟨hkeep', hnew'⟩ := ih (consistent_step hm hstep) hrest
    refine ⟨fun id hid => hkeep' id (hkeep id hid), fun order horder => ?_⟩
    rcases List.mem_append.mp horder with horder | horder
    · exact hkeep' _ (hnew order horder)
    · exact hnew' order horder

/-- With every ticket settled, no order is outstanding and nothing is held. -/
theorem worth_of_settled {config : WorkerConfig n} {m : Market n} (hm : Consistent config m)
    (hsettled : ∀ id ticket, m.tickets.lookup id = some ticket → ticket.Settled)
    (asset : String) : m.worker.worth asset = m.worker.balance.amount asset := by
  -- An outstanding order would have a ticket, and a settled ticket has a spent order.
  have horders : m.worker.executionIdMap = ∅ := by
    refine Finmap.eq_empty_iff.mpr fun id hid => ?_
    obtain ⟨ticket, hticket⟩ := Finmap.mem_iff.mp (hm.covered id hid)
    exact (hm.spent id ticket hticket (hsettled id ticket hticket)).2 hid
  rw [Worker.worth, Worker.held, hm.worker.executionsMap_eq_empty horders,
    Finmap.total_empty, add_zero]

/-- With every ticket settled, the Worker has the initial balance with what the orders
brought at the exchange, less the fees of the partial fills. -/
theorem balance_of_settled {config : WorkerConfig n} {m : Market n}
    (hm : Consistent config m)
    (hsettled : ∀ id ticket, m.tickets.lookup id = some ticket → ticket.Settled)
    (asset : String) :
    m.worker.balance.amount asset
      = config.balance.amount asset
        + Finmap.total (fun _ ticket => ticket.account asset) m.tickets
        - Finmap.total (fun _ ticket => ticket.partialFees asset) m.tickets := by
  have hbooked : Finmap.total (fun _ ticket => ticket.booked asset) m.tickets
      = Finmap.total (fun _ ticket => ticket.account asset - ticket.partialFees asset)
          m.tickets :=
    Finmap.total_congr fun id ticket hticket => if_pos (hsettled id ticket hticket)
  rw [← worth_of_settled hm hsettled asset, hm.worth asset, hbooked, Finmap.total_sub]
  abel

/-- Every submitted order has a ticket. Once every ticket is filled and reported, the Worker
agrees with the exchange on every asset exactly when the fees of the partial fills cancel on
every asset. -/
theorem exchange_agreement_iff (config : WorkerConfig n) {actions : List Action}
    {m : Market n} {out : List SubmitOrder}
    (h : (machine n).run (new config) actions = .ok (m, out))
    (hsettled : ∀ id ticket, m.tickets.lookup id = some ticket → ticket.Settled) :
    (∀ order ∈ out, order.id ∈ m.tickets) ∧
    ((∀ asset, m.worker.balance.amount asset
        = config.balance.amount asset
          + Finmap.total (fun _ ticket => ticket.account asset) m.tickets) ↔
      ∀ asset, Finmap.total (fun _ ticket => ticket.partialFees asset) m.tickets = 0) := by
  have hm := consistent_run (consistent_new config) h
  refine ⟨(mem_tickets_run (consistent_new config) h).2, forall_congr' fun asset => ?_⟩
  rw [balance_of_settled hm hsettled asset]
  exact sub_eq_self

/-! ### The sample triangle, one order filled in two trades -/

/-- The triangle starts and its orders fill, the first one in two trades. The first of these
costs the fee. -/
def sampleActions (fee : AssetDelta) : List Action :=
  [.update Worker.sampleUpdate,
    .fill "x" ⟨.ofCount 40, ⟨4000000000⟩, fee⟩,
    .fill "xxx" ⟨.ofCount 10, .ofCount 120, Finmap.singleton "USDT" ⟨-1000000000⟩⟩,
    .deliver "xxx",
    .deliver "x",
    .fill "x" ⟨.ofCount 60, ⟨6000000000⟩, Finmap.singleton "BTC" ⟨-6000000⟩⟩,
    .deliver "x",
    .fill "xx" ⟨.ofCount 1, .ofCount 10, ∅⟩,
    .deliver "xx"]

/-- What a run leaves behind, as data. -/
private def outcome (fee : AssetDelta) : Option (Market 1) :=
  match (machine 1).run (new Worker.sampleConfig) (sampleActions fee) with
  | .ok (m, _) => some m
  | .error _ => none

/-- The computed outcome of the sample run is that of the run. -/
private theorem run_of_outcome (fee : AssetDelta) (h : (outcome fee).isSome) :
    ∃ m out, (machine 1).run (new Worker.sampleConfig) (sampleActions fee) = .ok (m, out) ∧
      outcome fee = some m := by
  unfold outcome at h ⊢
  split at h
  · rename_i m out hrun
    exact ⟨m, out, hrun, rfl⟩
  · cases h

/-- No ticket is open. -/
private theorem settled_of_count {m : Market 1}
    (h : Finmap.count (fun _ ticket => ¬ ticket.Settled) m.tickets = 0) :
    ∀ id ticket, m.tickets.lookup id = some ticket → ticket.Settled :=
  fun id ticket hticket => not_not.mp ((Finmap.count_eq_zero_iff _).mp h id ticket hticket)

/-- The first trade of the first order costs 0.0004 BTC, and the Worker never books it: at
the end it has 0.0004 BTC more than the exchange. -/
theorem exchange_agreement_counterexample :
    ∃ m out,
      (machine 1).run (new Worker.sampleConfig)
        (sampleActions (Finmap.singleton "BTC" ⟨-4000000⟩)) = .ok (m, out) ∧
      (∀ id ticket, m.tickets.lookup id = some ticket → ticket.Settled) ∧
      m.worker.balance.amount "BTC" = ⟨-6000000⟩ ∧
      Worker.sampleConfig.balance.amount "BTC"
        + Finmap.total (fun _ ticket => ticket.account "BTC") m.tickets = ⟨-10000000⟩ := by
  obtain ⟨m, out, hrun, hm⟩ :=
    run_of_outcome (Finmap.singleton "BTC" ⟨-4000000⟩) (by decide +kernel)
  have hcount : (outcome (Finmap.singleton "BTC" ⟨-4000000⟩)).map
      (fun m => Finmap.count (fun _ ticket => ¬ ticket.Settled) m.tickets) = some 0 := by
    decide +kernel
  have hbalance : (outcome (Finmap.singleton "BTC" ⟨-4000000⟩)).map
      (fun m => m.worker.balance.amount "BTC") = some ⟨-6000000⟩ := by decide +kernel
  have haccount : (outcome (Finmap.singleton "BTC" ⟨-4000000⟩)).map
      (fun m => Worker.sampleConfig.balance.amount "BTC"
        + Finmap.total (fun _ ticket => ticket.account "BTC") m.tickets)
      = some ⟨-10000000⟩ := by decide +kernel
  rw [hm, Option.map_some, Option.some.injEq] at hcount hbalance haccount
  exact ⟨m, out, hrun, settled_of_count hcount, hbalance, haccount⟩

/-- Without that fee the Worker agrees with the exchange on every asset. -/
theorem exchange_agreement_iff_triangle :
    ∃ m out, (machine 1).run (new Worker.sampleConfig) (sampleActions ∅) = .ok (m, out) ∧
      ∀ asset, m.worker.balance.amount asset
        = Worker.sampleConfig.balance.amount asset
          + Finmap.total (fun _ ticket => ticket.account asset) m.tickets := by
  obtain ⟨m, out, hrun, hm⟩ := run_of_outcome ∅ (by decide +kernel)
  have hcount : (outcome ∅).map
      (fun m => Finmap.count (fun _ ticket => ¬ ticket.Settled) m.tickets) = some 0 := by
    decide +kernel
  have hfree : (outcome ∅).map (fun m => Finmap.count
      (fun _ (ticket : Ticket) => ¬ ∀ fill ∈ ticket.fills.dropLast, fill.feeDelta = ∅)
      m.tickets) = some 0 := by decide +kernel
  rw [hm, Option.map_some, Option.some.injEq] at hcount hfree
  refine ⟨m, out, hrun, ((exchange_agreement_iff Worker.sampleConfig hrun
    (settled_of_count hcount)).2).mpr fun asset => ?_⟩
  refine Finmap.total_eq_zero fun id ticket hticket => ?_
  have hfees := not_not.mp ((Finmap.count_eq_zero_iff _).mp hfree id ticket hticket)
  refine List.sum_eq_zero fun amount hamount => ?_
  obtain ⟨fill, hfill, rfl⟩ := List.mem_map.mp hamount
  rw [hfees fill hfill, Finmap.amount_empty]

end Market

end Harjus
