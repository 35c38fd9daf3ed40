import Harjus.Worker

/-!
# `Harjus.Market`: a Worker and the exchange that fills its orders

The surroundings of the Worker when the exchange fills every order in one or more trades. A
`Ticket` is an order at the exchange with its fills. The exchange reports each fill by one
`FILLED` report, which carries the quantities of all fills so far and the fees of this fill
only (`Ticket.report`). The reports of one order arrive in order, the reports of different
orders in any order.

`Market.step` has one action for each party: a price update at the Worker, a fill at the
exchange, a `NEW` report, and the arrival of the next report of an order. `Market.machine` is
the machine of these actions, so its runs are the interleavings of the two parties.
-/

set_option autoImplicit false

namespace Harjus

open Harjus.Lib

/-- One trade of the exchange for an order. -/
structure Fill where
  usedQty : PreciseNumber
  recvQty : PreciseNumber
  feeDelta : AssetDelta

/-- An order at the exchange: the order as frozen in its execution, its fills from first to
last, and how many of them have been reported. -/
structure Ticket where
  trade : StaticTrade
  fills : List Fill
  delivered : ℕ

/-- The quantity of the fills on the side the order is on. -/
def baseQty (position : Position) (fills : List Fill) : PreciseNumber :=
  match position with
  | .LONG => (fills.map (·.recvQty)).sum
  | .SHORT => (fills.map (·.usedQty)).sum

namespace Ticket

/-- The report about fill number `k`: cumulative quantities, and the fees of that fill. -/
def report (id : String) (ticket : Ticket) (k : ℕ) : ExecutionReport where
  id := id
  status := .FILLED
  usedQty := ((ticket.fills.take (k + 1)).map (·.usedQty)).sum
  recvQty := ((ticket.fills.take (k + 1)).map (·.recvQty)).sum
  feeDelta := (ticket.fills[k]?).elim ∅ (·.feeDelta)

/-- The order is filled completely, and every fill has been reported. -/
structure Settled (ticket : Ticket) : Prop where
  filled : baseQty ticket.trade.position ticket.fills = ticket.trade.orderQty
  nonempty : ticket.fills ≠ []
  delivered : ticket.delivered = ticket.fills.length

instance (ticket : Ticket) : Decidable ticket.Settled :=
  decidable_of_iff
    (baseQty ticket.trade.position ticket.fills = ticket.trade.orderQty ∧
      ticket.fills.isEmpty = false ∧ ticket.delivered = ticket.fills.length)
    ⟨fun ⟨h, h', h''⟩ => ⟨h, by simpa using h', h''⟩,
      fun ⟨h, h', h''⟩ => ⟨h, by simpa using h', h''⟩⟩

/-- What the order brings of the asset at the exchange: the received quantity, less the used
quantity, with the fees of all fills. -/
def account (asset : String) (ticket : Ticket) : PreciseNumber :=
  (if asset = ticket.trade.recvCurrency then (ticket.fills.map (·.recvQty)).sum else 0)
    - (if asset = ticket.trade.usedCurrency then (ticket.fills.map (·.usedQty)).sum else 0)
    + (ticket.fills.map (·.feeDelta.amount asset)).sum

/-- The fees of the fills before the last one. -/
def partialFees (asset : String) (ticket : Ticket) : PreciseNumber :=
  (ticket.fills.dropLast.map (·.feeDelta.amount asset)).sum

end Ticket

/-- A Worker and the tickets of the orders it submitted. -/
structure Market (n : ℕ) where
  worker : Worker n
  tickets : Finmap fun _ : String => Ticket

namespace Market

variable {n : ℕ}

/-- The market before the first call of the Worker. -/
def new (config : WorkerConfig n) : Market n := ⟨Worker.new config, ∅⟩

/-- What happens next. -/
inductive Action where
  | update (update : PriceUpdate)
  | fill (id : String) (fill : Fill)
  | acknowledge (report : ExecutionReport)
  | deliver (id : String)

/-- The action cannot happen, or the Worker throws. -/
inductive MarketError where
  | notEnabled
  | worker (e : WorkerError)
  deriving DecidableEq, Repr

/-- The exchange opens a ticket for a submitted order. -/
def openTicket (w : Worker n) (tickets : Finmap fun _ : String => Ticket)
    (order : SubmitOrder) : Finmap fun _ : String => Ticket :=
  match w.executionIdMap.lookup order.id with
  | none => tickets
  | some (trade, _) => tickets.insert order.id ⟨trade, [], 0⟩

/-- The Worker takes a report. -/
def process (w : Worker n) (report : ExecutionReport) : Except MarketError (Worker n) :=
  match w.processReport report with
  | .error e => .error (.worker e)
  | .ok w => .ok w

/-- One action. A fill has a positive base quantity and does not exceed the order. -/
def step (m : Market n) : Action → Except MarketError (Market n × List SubmitOrder)
  | .update update =>
    let (w, orders) := m.worker.processPriceUpdate update
    .ok (⟨w, orders.foldl (openTicket w) m.tickets⟩, orders)
  | .fill id fill =>
    match m.tickets.lookup id with
    | none => .error .notEnabled
    | some ticket =>
      let fills := ticket.fills ++ [fill]
      -- A settled ticket takes no further fill: any would exceed the order.
      if 0 < baseQty ticket.trade.position [fill] ∧
          baseQty ticket.trade.position fills ≤ ticket.trade.orderQty then
        .ok ({ m with tickets := m.tickets.insert id { ticket with fills := fills } }, [])
      else .error .notEnabled
  | .acknowledge report =>
    if report.status = .NEW then
      match process m.worker report with
      | .error e => .error e
      | .ok w => .ok ({ m with worker := w }, [])
    else .error .notEnabled
  | .deliver id =>
    match m.tickets.lookup id with
    | none => .error .notEnabled
    | some ticket =>
      if ticket.delivered < ticket.fills.length then
        match process m.worker (ticket.report id ticket.delivered) with
        | .error e => .error e
        | .ok w =>
          let ticket := { ticket with delivered := ticket.delivered + 1 }
          .ok (⟨w, m.tickets.insert id ticket⟩, [])
      else .error .notEnabled

/-- The market as a machine over its actions. -/
def machine (n : ℕ) : Machine (Market n) Action SubmitOrder MarketError := ⟨step⟩

end Market

end Harjus
