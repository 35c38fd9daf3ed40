import Harjus.Application
import Harjus.Lib.Fifo

/-!
# `Harjus.Inbound`: from the FIX thread to the Worker

`main` runs the Worker and the FIX initiator in two threads, with two bounded queues between
them. The FIX thread runs `Application::onMessage`, which parses a message and pushes what it
got. The Worker's thread runs `Worker::run`, which pops from both queues in turn, and after a
stop request finishes the open executions.

`Inbound.machine` takes one atomic step of one thread at a time, so its runs are the
interleavings of the two threads. A queue is a FIFO of fixed capacity whose `push` and `pop`
are atomic. Its outputs are what is parsed, what is handed to the Worker and what the Worker
submits.
-/

set_option autoImplicit false

namespace Harjus

open Harjus.Lib

/-- `QUEUE_SIZE` in `main`. -/
def QUEUE_SIZE : ℕ := 1000

/-- Where `Worker::run` is: at the head of the first loop, before one of its two pops, in the
loop that finishes the executions, or at its end. -/
inductive RunPoint where
  | stopTest
  | popPriceUpdate
  | popReport
  | finishing
  | stopped
  deriving DecidableEq, Repr

/-- The two threads and their queues. `pushing` is what the running `onMessage` has parsed and
not pushed yet. -/
structure Inbound (n capacity : ℕ) where
  worker : Worker n
  priceUpdateQueue : Fifo PriceUpdate capacity
  executionReportQueue : Fifo ExecutionReport capacity
  pushing : List Worker.Event
  stopRequested : Bool
  runPoint : RunPoint

namespace Inbound

variable {n capacity : ℕ}

/-- The state when the two threads start. -/
def new (config : WorkerConfig n) : Inbound n capacity where
  worker := Worker.new config
  priceUpdateQueue := .empty
  executionReportQueue := .empty
  pushing := []
  stopRequested := false
  runPoint := .stopTest

/-- An atomic step: a call of `onMessage` up to the end of the parsing, its next push, the stop
request, or the next step of `Worker::run`. -/
inductive Action where
  | onMessage (message : FIX.Message)
  | push
  | requestStop
  | run

/-- What a step shows. -/
inductive Observation where
  | parsed (event : Worker.Event)
  | handed (event : Worker.Event)
  | submitted (order : SubmitOrder)

/-- The step is not the thread's next one, or an exception leaves the thread. -/
inductive InboundError where
  | notEnabled
  | application (e : ApplicationError)
  | worker (e : WorkerError)
  deriving DecidableEq, Repr

/-- `onMessage` up to the end of the parsing. The FIX engine catches `FIX::FieldNotFound` and
rejects the message. -/
def receive (app : Application) (s : Inbound n capacity) (message : FIX.Message) :
    Except InboundError (Inbound n capacity × List Observation) :=
  if s.pushing = [] then
    match app.onMessage message with
    -- All updates of a message are parsed before the first of them is pushed.
    | .ok events => .ok ({ s with pushing := events }, events.map .parsed)
    | .error (.fieldNotFound _) => .ok (s, [])
    | .error e => .error (.application e)
  else .error .notEnabled

/-- The next push of `onMessage`. Its result is not looked at. -/
def push (s : Inbound n capacity) : Except InboundError (Inbound n capacity × List Observation) :=
  match s.pushing with
  | [] => .error .notEnabled
  | .priceUpdate update :: pushing =>
    .ok ({ s with
      priceUpdateQueue := (s.priceUpdateQueue.push update).2, pushing := pushing }, [])
  | .report report :: pushing =>
    .ok ({ s with
      executionReportQueue := (s.executionReportQueue.push report).2, pushing := pushing }, [])

/-- Pop a report and process it, and go on at `next`. -/
def takeReport (s : Inbound n capacity) (next : RunPoint) :
    Except InboundError (Inbound n capacity × List Observation) :=
  match s.executionReportQueue.pop with
  | none => .ok ({ s with runPoint := next }, [])
  | some (report, queue) =>
    match s.worker.processReport report with
    | .error e => .error (.worker e)
    | .ok worker =>
      .ok ({ s with worker := worker, executionReportQueue := queue, runPoint := next },
        [.handed (.report report)])

/-- The next step of `Worker::run`. -/
def work (s : Inbound n capacity) : Except InboundError (Inbound n capacity × List Observation) :=
  match s.runPoint with
  | .stopTest =>
    .ok ({ s with runPoint := if s.stopRequested then .finishing else .popPriceUpdate }, [])
  | .popPriceUpdate =>
    match s.priceUpdateQueue.pop with
    -- An empty queue is no reason to wait: the round goes on to the reports.
    | none => .ok ({ s with runPoint := .popReport }, [])
    | some (update, queue) =>
      let (worker, orders) := s.worker.processPriceUpdate update
      .ok ({ s with worker := worker, priceUpdateQueue := queue, runPoint := .popReport },
        .handed (.priceUpdate update) :: orders.map .submitted)
  | .popReport => s.takeReport .stopTest
  | .finishing =>
    -- The second loop pops reports only: price updates stay in their queue.
    if s.worker.executionsMap.keys = ∅ then .ok ({ s with runPoint := .stopped }, [])
    else s.takeReport .finishing
  | .stopped => .error .notEnabled

/-- One atomic step of one thread. -/
def step (app : Application) (s : Inbound n capacity) :
    Action → Except InboundError (Inbound n capacity × List Observation)
  | .onMessage message => s.receive app message
  | .push => s.push
  | .requestStop => .ok ({ s with stopRequested := true }, [])
  | .run => s.work

/-- The two threads as a machine over their steps. -/
def machine (app : Application) (n capacity : ℕ) :
    Machine (Inbound n capacity) Action Observation InboundError := ⟨step app⟩

/-! ### What goes through the queues -/

/-- The report of an event. -/
def reportOf : Worker.Event → Option ExecutionReport
  | .report report => some report
  | .priceUpdate _ => none

/-- The price update of an event. -/
def updateOf : Worker.Event → Option PriceUpdate
  | .report _ => none
  | .priceUpdate update => some update

/-- The event that a step parsed. -/
def Observation.parsedEvent : Observation → Option Worker.Event
  | .parsed event => some event
  | _ => none

/-- The event that a step handed to the Worker. -/
def Observation.handedEvent : Observation → Option Worker.Event
  | .handed event => some event
  | _ => none

/-- The reports that `parseExecutionReport` returned. -/
def parsedReports (out : List Observation) : List ExecutionReport :=
  out.filterMap fun o => o.parsedEvent.bind reportOf

/-- The reports that `processReport` was called with. -/
def handedReports (out : List Observation) : List ExecutionReport :=
  out.filterMap fun o => o.handedEvent.bind reportOf

/-- The price updates that the parsers returned. -/
def parsedUpdates (out : List Observation) : List PriceUpdate :=
  out.filterMap fun o => o.parsedEvent.bind updateOf

/-- The price updates that `processPriceUpdate` was called with. -/
def handedUpdates (out : List Observation) : List PriceUpdate :=
  out.filterMap fun o => o.handedEvent.bind updateOf

/-- If the step pushes a report, there is room for it. -/
def ReportFits (s : Inbound n capacity) : Action → Prop
  | .push => (∃ report rest, s.pushing = .report report :: rest) →
      s.executionReportQueue.items.length < capacity
  | _ => True

/-- If the step pushes a price update, there is room for it. -/
def UpdateFits (s : Inbound n capacity) : Action → Prop
  | .push => (∃ update rest, s.pushing = .priceUpdate update :: rest) →
      s.priceUpdateQueue.items.length < capacity
  | _ => True

end Inbound

end Harjus
