import Harjus.Application
import Harjus.Lib.Fifo
import Harjus.Multiprecision

/-!
# `Harjus.Outbound`: from the Worker to the order entry session

The Worker's thread runs `Application::submitOrder` for each order of an execution. It builds
a `NewOrderSingle` and hands it to `queueMessage` of the initiator
(`FstackMicroThreadedSSLSocketInitiator.cpp`), which pushes it into a bounded queue. The
F-Stack thread runs `processOutboundQueue`, which pops the messages and gives them to the
session.

`Outbound.machine` takes one atomic step of one thread at a time, so its runs are the
interleavings of the two threads. The queue is a FIFO of fixed capacity whose `push` and
`pop` are atomic.

The tables of the Worker are read by its own thread only. A call of the Worker changes them
at once, and the orders it submits wait in `submitting` until their turn comes;
`executionIdMap` is the order table without these. Every message of the queue goes to
`orderEntrySessionID`, which is left out of its entries.
-/

set_option autoImplicit false

namespace Harjus

open Harjus.Lib

namespace FIX

/-- `FIX::OrdType_LIMIT`. -/
def OrdType_LIMIT : Char := '2'
/-- `FIX::Side_SELL`. -/
def Side_SELL : Char := '2'
/-- `FIX::TimeInForce_FILL_OR_KILL`. -/
def TimeInForce_FILL_OR_KILL : Char := '4'

/-- `FIX44::NewOrderSingle`. -/
structure NewOrderSingle where
  clOrdID : String
  ordType : Char
  side : Char
  symbol : String
  orderQty : String
  price : String
  timeInForce : Char
  deriving DecidableEq, Repr

end FIX

/-- `OutboundQueueCapacity` of the initiator. -/
def OutboundQueueCapacity : ℕ := 4096

/-- What the way out needs from outside: the numbers of `boost` behind
`PreciseNumber::toString`, whether `initiator` is set, and whether `lookupSession` finds the
order entry session. -/
structure Gateway (F : Type) where
  boost : Multiprecision F
  initiator : Bool
  orderEntrySession : Bool

namespace Gateway

variable {F : Type}

/-- The way out is open: the initiator is set and the session is registered. -/
def Open (gateway : Gateway F) : Prop :=
  gateway.initiator = true ∧ gateway.orderEntrySession = true

/-- The message that `Application::submitOrder` builds. It is `none` where `toString`
throws. -/
def newOrderSingle (gateway : Gateway F) (order : SubmitOrder) : Option FIX.NewOrderSingle := do
  let orderQty ← order.qty.toString gateway.boost
  let price ← order.price.toString gateway.boost
  return {
    clOrdID := order.id
    ordType := FIX.OrdType_LIMIT
    side :=
      match order.position with
      | .LONG => FIX.Side_BUY
      | .SHORT => FIX.Side_SELL
    symbol := order.symbol
    orderQty := String.ofList orderQty
    price := String.ofList price
    timeInForce := FIX.TimeInForce_FILL_OR_KILL }

end Gateway

/-- The two threads and the queue between them. `submitting` has the orders that the running
call of the Worker has still to record, `recorded` the one it has recorded and not submitted,
and `sending` the message that the F-Stack thread has popped and not sent. -/
structure Outbound (n capacity : ℕ) where
  worker : Worker n
  submitting : List SubmitOrder
  recorded : Option SubmitOrder
  outboundQueue : Fifo FIX.NewOrderSingle capacity
  sending : Option FIX.NewOrderSingle

namespace Outbound

variable {n capacity : ℕ} {F : Type}

/-- The state when the two threads start. -/
def new (config : WorkerConfig n) : Outbound n capacity where
  worker := Worker.new config
  submitting := []
  recorded := none
  outboundQueue := .empty
  sending := none

/-- An atomic step: a call of the Worker up to the submission of its orders, the recording of
its next order in `_executionIdMap`, the call of `submitOrder` for it, a pop of
`processOutboundQueue`, and the sending of what it popped. -/
inductive Action where
  | call (event : Worker.Event)
  | record
  | submitOrder
  | pop
  | send

/-- What a step shows. -/
inductive Observation where
  | recorded (order : SubmitOrder)
  | sent (message : FIX.NewOrderSingle)

/-- The step is not the thread's next one, or an exception leaves the Worker: one of its own,
or one of `toString`. -/
inductive OutboundError where
  | notEnabled
  | worker (e : WorkerError)
  | toString
  deriving DecidableEq, Repr

/-- The result of a step. -/
abbrev Result (n capacity : ℕ) :=
  Except OutboundError (Outbound n capacity × List Observation)

/-- The next call of the Worker. -/
def call (s : Outbound n capacity) (event : Worker.Event) : Result n capacity :=
  if s.submitting = [] ∧ s.recorded = none then
    match s.worker.step event with
    | .error e => .error (.worker e)
    | .ok (worker, orders) => .ok ({ s with worker := worker, submitting := orders }, [])
  else .error .notEnabled

/-- `_executionIdMap.emplace` for the next order. -/
def record (s : Outbound n capacity) : Result n capacity :=
  match s.recorded, s.submitting with
  | none, order :: submitting =>
    .ok ({ s with submitting := submitting, recorded := some order }, [.recorded order])
  | _, _ => .error .notEnabled

/-- `queueMessage`: `true` if the message was stored. -/
def queueMessage (queue : Fifo FIX.NewOrderSingle capacity) (message : FIX.NewOrderSingle) :
    Bool × Fifo FIX.NewOrderSingle capacity :=
  queue.push message

/-- `Application::submitOrder`. The result of `queueMessage` is not looked at. -/
def submitOrder (gateway : Gateway F) (s : Outbound n capacity) : Result n capacity :=
  match s.recorded with
  | none => .error .notEnabled
  | some order =>
    match gateway.newOrderSingle order with
    | none => .error .toString
    | some message =>
      .ok ({ s with
        recorded := none
        outboundQueue :=
          if gateway.initiator then (queueMessage s.outboundQueue message).2
          else s.outboundQueue }, [])

/-- The next pop of `processOutboundQueue`. -/
def pop (s : Outbound n capacity) : Result n capacity :=
  match s.sending with
  | some _ => .error .notEnabled
  | none =>
    match s.outboundQueue.pop with
    | none => .ok (s, [])
    | some (message, queue) =>
      .ok ({ s with outboundQueue := queue, sending := some message }, [])

/-- The popped message goes to the session, or nowhere if there is none. -/
def send (gateway : Gateway F) (s : Outbound n capacity) : Result n capacity :=
  match s.sending with
  | none => .error .notEnabled
  | some message =>
    .ok ({ s with sending := none },
      if gateway.orderEntrySession then [.sent message] else [])

/-- One atomic step of one thread. -/
def step (gateway : Gateway F) (s : Outbound n capacity) : Action → Result n capacity
  | .call event => s.call event
  | .record => s.record
  | .submitOrder => s.submitOrder gateway
  | .pop => s.pop
  | .send => s.send gateway

/-- The two threads as a machine over their steps. -/
def machine (gateway : Gateway F) (n capacity : ℕ) :
    Machine (Outbound n capacity) Action Observation OutboundError := ⟨step gateway⟩

/-! ### What goes out -/

/-- What `_executionIdMap` holds: the orders of the running call that are not recorded yet
are missing. -/
def executionIdMap (s : Outbound n capacity) : Finmap fun _ : String => StaticTrade × String :=
  s.submitting.foldl (fun m order => m.erase order.id) s.worker.executionIdMap

/-- The order that a step recorded. -/
def Observation.recordedOrder : Observation → Option SubmitOrder
  | .recorded order => some order
  | .sent _ => none

/-- The message that a step handed to the session. -/
def Observation.sentMessage : Observation → Option FIX.NewOrderSingle
  | .recorded _ => none
  | .sent message => some message

/-- The orders the Worker has recorded in `_executionIdMap`, in submission order. -/
def recordedOrders (out : List Observation) : List SubmitOrder :=
  out.filterMap Observation.recordedOrder

/-- The messages handed to `Session::send`. -/
def sentMessages (out : List Observation) : List FIX.NewOrderSingle :=
  out.filterMap Observation.sentMessage

/-- A recorded order is the next of the recorded ones. -/
@[simp] theorem recordedOrders_cons_recorded (order : SubmitOrder) (out : List Observation) :
    recordedOrders (.recorded order :: out) = order :: recordedOrders out := rfl

/-- A sent message is no recorded order. -/
@[simp] theorem recordedOrders_cons_sent (message : FIX.NewOrderSingle)
    (out : List Observation) : recordedOrders (.sent message :: out) = recordedOrders out := rfl

/-- A recorded order is no sent message. -/
@[simp] theorem sentMessages_cons_recorded (order : SubmitOrder) (out : List Observation) :
    sentMessages (.recorded order :: out) = sentMessages out := rfl

/-- A sent message is the next of the sent ones. -/
@[simp] theorem sentMessages_cons_sent (message : FIX.NewOrderSingle)
    (out : List Observation) :
    sentMessages (.sent message :: out) = message :: sentMessages out := rfl

/-- The recorded orders of two runs in a row. -/
@[simp] theorem recordedOrders_append (out out' : List Observation) :
    recordedOrders (out ++ out') = recordedOrders out ++ recordedOrders out' :=
  List.filterMap_append

/-- The sent messages of two runs in a row. -/
@[simp] theorem sentMessages_append (out out' : List Observation) :
    sentMessages (out ++ out') = sentMessages out ++ sentMessages out' :=
  List.filterMap_append

/-- Where orders are recorded, these are the recorded orders. -/
@[simp] theorem recordedOrders_recorded (orders : List SubmitOrder) :
    recordedOrders (orders.map .recorded) = orders := by
  rw [recordedOrders, List.filterMap_map]
  exact List.filterMap_some

/-- Where messages are sent, no order is recorded. -/
@[simp] theorem recordedOrders_sent (messages : List FIX.NewOrderSingle) :
    recordedOrders (messages.map .sent) = [] := by
  rw [recordedOrders, List.filterMap_map]
  exact List.filterMap_eq_nil_iff.mpr fun _ _ => rfl

/-- Where messages are sent, these are the sent messages. -/
@[simp] theorem sentMessages_sent (messages : List FIX.NewOrderSingle) :
    sentMessages (messages.map .sent) = messages := by
  rw [sentMessages, List.filterMap_map]
  exact List.filterMap_some

/-- Where orders are recorded, no message is sent. -/
@[simp] theorem sentMessages_recorded (orders : List SubmitOrder) :
    sentMessages (orders.map .recorded) = [] := by
  rw [sentMessages, List.filterMap_map]
  exact List.filterMap_eq_nil_iff.mpr fun _ _ => rfl

/-- The messages on their way: popped and about to be sent, and in the queue. -/
def onTheWay (s : Outbound n capacity) : List FIX.NewOrderSingle :=
  s.sending.toList ++ s.outboundQueue.items

/-- If the step submits an order, there is room for its message. -/
def OrderFits (s : Outbound n capacity) : Action → Prop
  | .submitOrder => s.outboundQueue.items.length < capacity
  | _ => True

end Outbound

end Harjus
