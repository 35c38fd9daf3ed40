import Harjus.Inbound
import Harjus.Proofs.Refresh

/-!
# `Harjus.Proofs.Inbound`: what is parsed is handed to the Worker in order

* `Step`, `step_cases`: what each step of the two threads does.
* `reports_conserved`, `updates_conserved`: a step that does not push into a full queue keeps
  what is queued, with what is still to be pushed behind it, in step with what is parsed and
  what is handed over.
* `inbound_in_order`: in a run whose pushes find room, what was handed to the Worker is at
  every moment a prefix of what was parsed.
* `inbound_counterexample`: with a full queue a report is lost, and the next one is not.
-/

set_option autoImplicit false

namespace Harjus.Inbound

open Harjus.Lib

variable {n capacity : ℕ} {app : Application}

/-! ### The steps -/

/-- `Worker::run` pops a report and goes on at `next`. -/
def TakesReport (s : Inbound n capacity) (next : RunPoint) : Prop :=
  s.runPoint = .popReport ∧ next = .stopTest ∨
    s.runPoint = .finishing ∧ s.worker.executionsMap.keys ≠ ∅ ∧ next = .finishing

/-- What a step does. -/
inductive Step (app : Application) (s : Inbound n capacity) :
    Action → Inbound n capacity → List Observation → Prop
  | received {message : FIX.Message} {events : List Worker.Event} (hidle : s.pushing = [])
      (hparse : app.onMessage message = .ok events) :
      Step app s (.onMessage message) { s with pushing := events } (events.map .parsed)
  | rejected {message : FIX.Message} {field : ℕ} (hidle : s.pushing = [])
      (hparse : app.onMessage message = .error (.fieldNotFound field)) :
      Step app s (.onMessage message) s []
  | pushedUpdate {update : PriceUpdate} {rest : List Worker.Event}
      (hpushing : s.pushing = .priceUpdate update :: rest) :
      Step app s .push
        { s with priceUpdateQueue := (s.priceUpdateQueue.push update).2, pushing := rest } []
  | pushedReport {report : ExecutionReport} {rest : List Worker.Event}
      (hpushing : s.pushing = .report report :: rest) :
      Step app s .push
        { s with executionReportQueue := (s.executionReportQueue.push report).2
                 pushing := rest } []
  | stopRequested : Step app s .requestStop { s with stopRequested := true } []
  | tested (hpoint : s.runPoint = .stopTest) :
      Step app s .run
        { s with runPoint := if s.stopRequested then .finishing else .popPriceUpdate } []
  | noUpdate (hpoint : s.runPoint = .popPriceUpdate) (hpop : s.priceUpdateQueue.pop = none) :
      Step app s .run { s with runPoint := .popReport } []
  | tookUpdate {update : PriceUpdate} {queue : Fifo PriceUpdate capacity}
      (hpoint : s.runPoint = .popPriceUpdate)
      (hpop : s.priceUpdateQueue.pop = some (update, queue)) :
      Step app s .run
        { s with worker := (s.worker.processPriceUpdate update).1, priceUpdateQueue := queue
                 runPoint := .popReport }
        (.handed (.priceUpdate update) ::
          (s.worker.processPriceUpdate update).2.map .submitted)
  | noReport {next : RunPoint} (hpoint : s.TakesReport next)
      (hpop : s.executionReportQueue.pop = none) :
      Step app s .run { s with runPoint := next } []
  | tookReport {next : RunPoint} {report : ExecutionReport}
      {queue : Fifo ExecutionReport capacity} {worker : Worker n}
      (hpoint : s.TakesReport next) (hpop : s.executionReportQueue.pop = some (report, queue))
      (hprocess : s.worker.processReport report = .ok worker) :
      Step app s .run
        { s with worker := worker, executionReportQueue := queue, runPoint := next }
        [.handed (.report report)]
  | finished (hpoint : s.runPoint = .finishing) (hempty : s.worker.executionsMap.keys = ∅) :
      Step app s .run { s with runPoint := .stopped } []

/-- The step of a message that arrives. -/
private theorem receive_cases {s s' : Inbound n capacity} {message : FIX.Message}
    {os : List Observation} (h : s.receive app message = .ok (s', os)) :
    Step app s (.onMessage message) s' os := by
  unfold receive at h
  split at h
  · rename_i hidle
    split at h
    · rename_i events hparse
      cases h
      exact .received hidle hparse
    · rename_i field hparse
      cases h
      exact .rejected hidle hparse
    · cases h
  · cases h

/-- The step of a push, which fails where the queue is full. -/
private theorem push_cases {s s' : Inbound n capacity} {os : List Observation}
    (h : s.push = .ok (s', os)) : Step app s .push s' os := by
  unfold push at h
  split at h
  · cases h
  · rename_i update rest hpushing
    cases h
    exact .pushedUpdate hpushing
  · rename_i report rest hpushing
    cases h
    exact .pushedReport hpushing

/-- The step of the Worker that takes a report, or finds none. -/
private theorem takeReport_cases {s s' : Inbound n capacity} {next : RunPoint}
    {os : List Observation} (hpoint : s.TakesReport next)
    (h : s.takeReport next = .ok (s', os)) : Step app s .run s' os := by
  unfold takeReport at h
  split at h
  · rename_i hpop
    cases h
    exact .noReport hpoint hpop
  · rename_i report queue hpop
    split at h
    · cases h
    · rename_i worker hprocess
      cases h
      exact .tookReport hpoint hpop hprocess

/-- The step of the Worker, by where it is in its loop. -/
private theorem work_cases {s s' : Inbound n capacity} {os : List Observation}
    (h : s.work = .ok (s', os)) : Step app s .run s' os := by
  unfold work at h
  split at h
  · rename_i hpoint
    cases h
    exact .tested hpoint
  · rename_i hpoint
    split at h
    · rename_i hpop
      cases h
      exact .noUpdate hpoint hpop
    · rename_i update queue hpop
      cases h
      exact .tookUpdate hpoint hpop
  · rename_i hpoint
    exact takeReport_cases (.inl ⟨hpoint, rfl⟩) h
  · rename_i hpoint
    split at h
    · rename_i hempty
      cases h
      exact .finished hpoint hempty
    · rename_i hopen
      exact takeReport_cases (.inr ⟨hpoint, hopen, rfl⟩) h
  · cases h

/-- A step is one of the steps of the two threads. -/
theorem step_cases {s s' : Inbound n capacity} {action : Action} {os : List Observation}
    (h : (machine app n capacity).step s action = .ok (s', os)) : Step app s action s' os := by
  cases action with
  | onMessage message => exact receive_cases h
  | push => exact push_cases h
  | requestStop =>
    cases h
    exact .stopRequested
  | run => exact work_cases h

/-! ### Nothing is lost where there is room -/

section Selected
variable {α : Type} (select : Worker.Event → Option α)

/-- What is parsed in some parsed events are the events. -/
private theorem parsed_map_parsed (events : List Worker.Event) :
    (events.map Observation.parsed).filterMap (fun o => o.parsedEvent.bind select)
      = events.filterMap select := by
  rw [List.filterMap_map]
  rfl

/-- Parsing hands nothing to the Worker. -/
private theorem handed_map_parsed (events : List Worker.Event) :
    (events.map Observation.parsed).filterMap (fun o => o.handedEvent.bind select) = [] := by
  rw [List.filterMap_map]
  exact List.filterMap_eq_nil_iff.mpr fun _ _ => rfl

/-- Submitting an order parses nothing. -/
private theorem parsed_map_submitted (orders : List SubmitOrder) :
    (orders.map Observation.submitted).filterMap (fun o => o.parsedEvent.bind select) = [] := by
  rw [List.filterMap_map]
  exact List.filterMap_eq_nil_iff.mpr fun _ _ => rfl

/-- Submitting an order hands nothing to the Worker. -/
private theorem handed_map_submitted (orders : List SubmitOrder) :
    (orders.map Observation.submitted).filterMap (fun o => o.handedEvent.bind select) = [] := by
  rw [List.filterMap_map]
  exact List.filterMap_eq_nil_iff.mpr fun _ _ => rfl

end Selected

/-- The reports on their way: in the queue, and behind them those still to be pushed. -/
def reportsOnTheWay (s : Inbound n capacity) : List ExecutionReport :=
  s.executionReportQueue.items ++ s.pushing.filterMap reportOf

/-- The price updates on their way. -/
def updatesOnTheWay (s : Inbound n capacity) : List PriceUpdate :=
  s.priceUpdateQueue.items ++ s.pushing.filterMap updateOf

/-- A step loses, doubles and overtakes no report, unless it pushes one into a full queue. -/
theorem reports_conserved (s : Inbound n capacity) (action : Action) (s' : Inbound n capacity)
    (os : List Observation) (hfits : ReportFits s action)
    (h : (machine app n capacity).step s action = .ok (s', os)) :
    reportsOnTheWay s ++ parsedReports os = handedReports os ++ reportsOnTheWay s' := by
  unfold parsedReports handedReports
  cases step_cases h with
  | @received message events hidle _ =>
    -- Parsed and on their way at once: nothing waited to be pushed before.
    rw [parsed_map_parsed, handed_map_parsed]
    simp [reportsOnTheWay, hidle]
  | @pushedUpdate update rest hpushing =>
    simp [reportsOnTheWay, hpushing, List.filterMap_cons, reportOf]
  | @pushedReport report rest hpushing =>
    -- From the front of `pushing` to the back of the queue, if there is room.
    have hroom := hfits ⟨report, rest, hpushing⟩
    simp [reportsOnTheWay, hpushing, reportOf, Fifo.items_push hroom]
  | @tookUpdate update queue _ _ =>
    rw [List.filterMap_cons, List.filterMap_cons, parsed_map_submitted, handed_map_submitted]
    simp [reportsOnTheWay, Observation.parsedEvent, Observation.handedEvent, reportOf]
  | @tookReport next report queue worker _ hpop _ =>
    simp [reportsOnTheWay, Fifo.items_of_pop hpop, Observation.parsedEvent,
      Observation.handedEvent, reportOf]
  | rejected | stopRequested | tested | noUpdate | noReport | finished =>
    simp [reportsOnTheWay]

/-- A step loses, doubles and overtakes no price update, unless it pushes one into a full
queue. -/
theorem updates_conserved (s : Inbound n capacity) (action : Action) (s' : Inbound n capacity)
    (os : List Observation) (hfits : UpdateFits s action)
    (h : (machine app n capacity).step s action = .ok (s', os)) :
    updatesOnTheWay s ++ parsedUpdates os = handedUpdates os ++ updatesOnTheWay s' := by
  unfold parsedUpdates handedUpdates
  cases step_cases h with
  | @received message events hidle _ =>
    rw [parsed_map_parsed, handed_map_parsed]
    simp [updatesOnTheWay, hidle]
  | @pushedUpdate update rest hpushing =>
    have hroom := hfits ⟨update, rest, hpushing⟩
    simp [updatesOnTheWay, hpushing, updateOf, Fifo.items_push hroom]
  | @pushedReport report rest hpushing =>
    simp [updatesOnTheWay, hpushing, List.filterMap_cons, updateOf]
  | @tookUpdate update queue _ hpop =>
    rw [List.filterMap_cons, List.filterMap_cons, parsed_map_submitted, handed_map_submitted]
    simp [updatesOnTheWay, Fifo.items_of_pop hpop, Observation.parsedEvent,
      Observation.handedEvent, updateOf]
  | @tookReport next report queue worker _ _ _ =>
    simp [updatesOnTheWay, Observation.parsedEvent, Observation.handedEvent, updateOf]
  | rejected | stopRequested | tested | noUpdate | noReport | finished =>
    simp [updatesOnTheWay]

/-- In every run whose pushes of reports find room, the reports handed to the Worker are a
prefix of those parsed, and likewise for the price updates. -/
theorem inbound_in_order {config : WorkerConfig n} {actions : List Action}
    {s : Inbound n capacity} {out : List Observation}
    (hrun : (machine app n capacity).run (new config) actions = .ok (s, out)) :
    ((machine app n capacity).Along ReportFits (new config) actions →
      handedReports out <+: parsedReports out) ∧
    ((machine app n capacity).Along UpdateFits (new config) actions →
      handedUpdates out <+: parsedUpdates out) :=
  ⟨fun h => Machine.delivered_prefix reports_conserved rfl h hrun,
    fun h => Machine.delivered_prefix updates_conserved rfl h hrun⟩

/-! ### Samples: acknowledgements of unknown orders

The Worker has nothing in flight, so it does nothing with a report about an order. -/

/-- The acknowledgement of an order, as it comes over FIX. -/
def ackMessage (id : String) : FIX.ExecutionReport :=
  { clOrdID := some id, execType := some FIX.ExecType_NEW, text := none, cumQty := some "0"
    cumQuoteQty := some "0", side := some FIX.Side_BUY, noMiscFees := none }

/-- The acknowledgement of an order, as it is parsed. -/
def ack (id : String) : ExecutionReport := ⟨id, .NEW, 0, 0, ∅⟩

/-- The sample message is parsed as one report. -/
theorem onMessage_ackMessage (id : String) :
    Refresh.sampleApplication.onMessage (.executionReport (ackMessage id))
      = .ok [.report (ack id)] := by
  have hzero : Refresh.sampleApplication.number "0" = .ok 0 := by decide +kernel
  generalize Refresh.sampleApplication = app at hzero ⊢
  have hpush : app.onMessage (.executionReport (ackMessage id))
      = (app.parseExecutionReport (ackMessage id) >>= fun report => .ok [.report report]) := rfl
  have hparse : app.parseExecutionReport (ackMessage id)
      = (app.number "0" >>= fun base => app.number "0" >>= fun quote =>
          .ok ⟨id, .NEW, quote, base, ∅⟩) := rfl
  rw [hpush, hparse, hzero]
  rfl

/-- The two threads between two rounds of the Worker's loop, with nothing in flight and the
reports in the queue. -/
structure Waiting (s : Inbound 1 capacity) (reports : List ExecutionReport) : Prop where
  worker : s.worker = Worker.new Worker.sampleConfig
  updates : s.priceUpdateQueue.items = []
  reports : s.executionReportQueue.items = reports
  pushing : s.pushing = []
  stopRequested : s.stopRequested = false
  runPoint : s.runPoint = .stopTest

/-- The two threads of the samples. -/
abbrev sampleMachine (capacity : ℕ) :
    Machine (Inbound 1 capacity) Action Observation InboundError :=
  machine Refresh.sampleApplication 1 capacity

/-- An acknowledgement arrives and is pushed. -/
def arrival (id : String) : List Action := [.onMessage (.executionReport (ackMessage id)), .push]

/-- One round of the Worker's loop. -/
def round : List Action := [.run, .run, .run]

/-- At the start no report waits. -/
theorem waiting_new : Waiting (new Worker.sampleConfig : Inbound 1 capacity) [] :=
  ⟨rfl, rfl, rfl, rfl, rfl, rfl⟩

namespace Waiting

variable {s : Inbound 1 capacity} {reports : List ExecutionReport} {id : String}

/-- A sample message that arrives is parsed and is about to be pushed. -/
private theorem received (h : Waiting s reports) (id : String) :
    (sampleMachine capacity).step s (.onMessage (.executionReport (ackMessage id)))
      = .ok ({ s with pushing := [.report (ack id)] }, [.parsed (.report (ack id))]) := by
  change receive Refresh.sampleApplication s (.executionReport (ackMessage id)) = _
  rw [receive, if_pos h.pushing, onMessage_ackMessage]
  rfl

/-- There is room for the acknowledgement. -/
theorem arrival_room (h : Waiting s reports) (hroom : reports.length < capacity) (id : String) :
    ∃ s', (sampleMachine capacity).run s (arrival id)
        = .ok (s', [.parsed (.report (ack id))]) ∧ Waiting s' (reports ++ [ack id]) := by
  have hlength : s.executionReportQueue.items.length < capacity := by rwa [h.reports]
  refine ⟨_, (Machine.run_cons _).mpr ⟨_, _, [], h.received id,
    (Machine.run_cons _).mpr ⟨_, [], [], rfl, rfl, rfl⟩, rfl⟩, ?_⟩
  exact ⟨h.worker, h.updates, by rw [Fifo.items_push hlength, h.reports], rfl, h.stopRequested,
    h.runPoint⟩

/-- There is none. -/
theorem arrival_full (h : Waiting s reports) (hfull : ¬ reports.length < capacity)
    (id : String) :
    ∃ s', (sampleMachine capacity).run s (arrival id)
        = .ok (s', [.parsed (.report (ack id))]) ∧ Waiting s' reports := by
  have hlength : ¬ s.executionReportQueue.items.length < capacity := by rwa [h.reports]
  -- `push` leaves the queue, and `onMessage` returns as if it had stored the report.
  refine ⟨_, (Machine.run_cons _).mpr ⟨_, _, [], h.received id,
    (Machine.run_cons _).mpr ⟨_, [], [], rfl, rfl, rfl⟩, rfl⟩, ?_⟩
  exact ⟨h.worker, h.updates, by rw [Fifo.push_of_full hlength, h.reports], rfl,
    h.stopRequested, h.runPoint⟩

/-- The Worker takes the first acknowledgement. -/
theorem round_takes (h : Waiting s (ack id :: reports)) :
    ∃ s', (sampleMachine capacity).run s round = .ok (s', [.handed (.report (ack id))]) ∧
      Waiting s' reports := by
  obtain ⟨queue, hpop, hitems⟩ := Fifo.pop_of_items_cons h.reports
  have hignored : s.worker.processReport (ack id) = .ok s.worker := by
    rw [h.worker]
    rfl
  have htest : s.work = .ok ({ s with runPoint := .popPriceUpdate }, []) := by
    rw [work, h.runPoint, h.stopRequested]
    rfl
  have hupdate : work { s with runPoint := .popPriceUpdate }
      = .ok ({ s with runPoint := .popReport }, []) := by
    rw [work]
    simp only [Fifo.pop_of_items_nil h.updates]
  have hreport : work { s with runPoint := .popReport }
      = .ok ({ s with executionReportQueue := queue, runPoint := .stopTest },
          [.handed (.report (ack id))]) := by
    rw [work, takeReport]
    simp only [hpop, hignored]
  refine ⟨_, (Machine.run_cons _).mpr ⟨_, [], _, htest,
    (Machine.run_cons _).mpr ⟨_, [], _, hupdate,
      (Machine.run_cons _).mpr ⟨_, _, [], hreport, rfl, rfl⟩, rfl⟩, rfl⟩, ?_⟩
  exact ⟨h.worker, h.updates, hitems, h.pushing, h.stopRequested, rfl⟩

/-- Arrivals fill the queue. -/
theorem arrivals_fill (id : String) (k : ℕ) :
    ∀ {s : Inbound 1 capacity} {reports : List ExecutionReport}, Waiting s reports →
      reports.length + k ≤ capacity →
      ∃ s', (sampleMachine capacity).run s (List.replicate k (arrival id)).flatten
          = .ok (s', List.replicate k (.parsed (.report (ack id)))) ∧
        Waiting s' (reports ++ List.replicate k (ack id)) := by
  induction k with
  | zero =>
    intro s reports h _
    exact ⟨s, rfl, by rwa [List.replicate_zero, List.append_nil]⟩
  | succ k ih =>
    intro s reports h hk
    obtain ⟨t, hone, ht⟩ := h.arrival_room (by omega) id
    have hlength : (reports ++ [ack id]).length + k ≤ capacity := by
      rw [List.length_append, List.length_singleton]
      omega
    obtain ⟨s', hrun, hs'⟩ := ih ht hlength
    refine ⟨s', ?_, ?_⟩
    · rw [List.replicate_succ, List.flatten_cons]
      exact (Machine.run_append _).mpr ⟨t, _, _, hone, hrun, rfl⟩
    · rwa [List.append_assoc] at hs'

/-- Rounds empty the queue. -/
theorem rounds_drain (ids : List String) :
    ∀ {s : Inbound 1 capacity}, Waiting s (ids.map ack) →
      ∃ s', (sampleMachine capacity).run s (List.replicate ids.length round).flatten
          = .ok (s', ids.map fun id => .handed (.report (ack id))) ∧ Waiting s' [] := by
  induction ids with
  | nil => exact fun {s} h => ⟨s, rfl, h⟩
  | cons id ids ih =>
    intro s h
    obtain ⟨t, hone, ht⟩ := h.round_takes
    obtain ⟨s', hrun, hs'⟩ := ih ht
    refine ⟨s', ?_, hs'⟩
    rw [List.length_cons, List.replicate_succ, List.flatten_cons]
    exact (Machine.run_append _).mpr ⟨t, _, _, hone, hrun, rfl⟩

end Waiting

/-- The run that loses the acknowledgement of `b`: as many as the queue holds arrive for `a`,
then one for `b`, the Worker takes one, one for `c` arrives, and the Worker takes the rest. -/
def lossyRun (capacity : ℕ) : List Action :=
  (List.replicate capacity (arrival "a")).flatten ++ (arrival "b" ++ (round ++ (arrival "c" ++
    (List.replicate capacity round).flatten)))

/-- What the lossy run shows, for every positive capacity. -/
theorem run_lossyRun (k : ℕ) :
    ∃ s out, (sampleMachine (k + 1)).run (new Worker.sampleConfig) (lossyRun (k + 1))
        = .ok (s, out) ∧
      parsedReports out = List.replicate (k + 1) (ack "a") ++ [ack "b", ack "c"] ∧
      handedReports out = List.replicate (k + 1) (ack "a") ++ [ack "c"] := by
  have hnew : Waiting (new Worker.sampleConfig : Inbound 1 (k + 1)) [] := waiting_new
  obtain ⟨s₁, hrun₁, h₁⟩ := hnew.arrivals_fill "a" (k + 1) (by simp)
  obtain ⟨s₂, hrun₂, h₂⟩ := h₁.arrival_full (by simp) "b"
  obtain ⟨s₃, hrun₃, h₃⟩ := Waiting.round_takes (by rwa [List.nil_append] at h₂)
  obtain ⟨s₄, hrun₄, h₄⟩ := h₃.arrival_room (by simp) "c"
  obtain ⟨s₅, hrun₅, -⟩ := Waiting.rounds_drain (List.replicate k "a" ++ ["c"])
    (by rwa [List.map_append, List.map_replicate])
  -- After the first round `k` reports for `a` wait, and the one for `c` behind them.
  have hlength : (List.replicate k "a" ++ ["c"]).length = k + 1 := by simp
  rw [hlength] at hrun₅
  refine ⟨s₅, _, (Machine.run_append _).mpr ⟨s₁, _, _, hrun₁,
    (Machine.run_append _).mpr ⟨s₂, _, _, hrun₂,
      (Machine.run_append _).mpr ⟨s₃, _, _, hrun₃,
        (Machine.run_append _).mpr ⟨s₄, _, _, hrun₄, hrun₅, rfl⟩, rfl⟩, rfl⟩, rfl⟩, ?_, ?_⟩
  · simp [parsedReports, List.filterMap_replicate, Observation.parsedEvent, reportOf]
  · simp [handedReports, List.filterMap_replicate, Observation.handedEvent, reportOf,
      List.replicate_succ]

/-- In `main` the acknowledgement of `b` is lost when 1000 reports wait, and the one of `c`
after it is handed to the Worker. -/
theorem inbound_counterexample :
    ∃ s out, (sampleMachine QUEUE_SIZE).run (new Worker.sampleConfig) (lossyRun QUEUE_SIZE)
        = .ok (s, out) ∧
      ¬ handedReports out <+: parsedReports out := by
  obtain ⟨s, out, hrun, hparsed, hhanded⟩ := run_lossyRun 999
  refine ⟨s, out, hrun, fun hprefix => ?_⟩
  rw [hparsed, hhanded, List.prefix_append_right_inj] at hprefix
  have hid := congrArg ExecutionReport.id (List.cons_prefix_cons.mp hprefix).1
  exact absurd hid (by decide)

/-! ### A run with room -/

/-- A step lengthens the two queues by at most one element each. -/
private theorem length_of_step {s s' : Inbound n capacity} {action : Action}
    {os : List Observation} (h : (machine app n capacity).step s action = .ok (s', os)) :
    s'.executionReportQueue.items.length ≤ s.executionReportQueue.items.length + 1 ∧
      s'.priceUpdateQueue.items.length ≤ s.priceUpdateQueue.items.length + 1 := by
  have hpush : ∀ {α : Type} (q : Fifo α capacity) (a : α),
      (q.push a).2.items.length ≤ q.items.length + 1 := by
    intro α q a
    by_cases hroom : q.items.length < capacity
    · rw [Fifo.items_push hroom, List.length_append, List.length_singleton]
    · rw [Fifo.push_of_full hroom]
      exact Nat.le_succ _
  cases step_cases h with
  | pushedUpdate => exact ⟨Nat.le_succ _, hpush _ _⟩
  | pushedReport => exact ⟨hpush _ _, Nat.le_succ _⟩
  | tookUpdate hpoint hpop =>
    have hlength := congrArg List.length (Fifo.items_of_pop hpop)
    rw [List.length_cons] at hlength
    exact ⟨Nat.le_succ _, by dsimp only; omega⟩
  | tookReport htakes hpop =>
    have hlength := congrArg List.length (Fifo.items_of_pop hpop)
    rw [List.length_cons] at hlength
    exact ⟨by dsimp only; omega, Nat.le_succ _⟩
  | received | rejected | stopRequested | tested | noUpdate | noReport | finished =>
    exact ⟨Nat.le_succ _, Nat.le_succ _⟩

/-- A run with fewer steps than there are places finds room for every push. -/
theorem fits_of_length (actions : List Action) :
    ∀ {s : Inbound n capacity},
      s.executionReportQueue.items.length + actions.length ≤ capacity →
      s.priceUpdateQueue.items.length + actions.length ≤ capacity →
      (machine app n capacity).Along ReportFits s actions ∧
        (machine app n capacity).Along UpdateFits s actions := by
  induction actions with
  | nil => exact fun _ _ => ⟨trivial, trivial⟩
  | cons action actions ih =>
    intro s hreports hupdates
    rw [List.length_cons] at hreports hupdates
    have hrest : ∀ s' os, (machine app n capacity).step s action = .ok (s', os) →
        (machine app n capacity).Along ReportFits s' actions ∧
          (machine app n capacity).Along UpdateFits s' actions := by
      intro s' os hstep
      obtain ⟨hreport, hupdate⟩ := length_of_step hstep
      exact ih (by omega) (by omega)
    refine ⟨⟨?_, fun s' os hstep => (hrest s' os hstep).1⟩,
      ⟨?_, fun s' os hstep => (hrest s' os hstep).2⟩⟩
    · cases action with
      | push => exact fun _ => by omega
      | onMessage | requestStop | run => trivial
    · cases action with
      | push => exact fun _ => by omega
      | onMessage | requestStop | run => trivial

/-- A bid and an offer for `BTCUSDT`. -/
def snapshotMessage : FIX.MarketDataSnapshotFullRefresh where
  symbol := some "BTCUSDT"
  noMDEntries := some
    [⟨none, some FIX.MDEntryType_BID, some "98", some "7", none⟩,
      ⟨none, some FIX.MDEntryType_OFFER, some "101", some "3", none⟩]

/-- Two acknowledgements and a snapshot arrive, while the Worker goes through its loop. -/
def mixedRun : List Action :=
  [.onMessage (.executionReport (ackMessage "a")), .run, .push,
    .onMessage (.marketDataSnapshotFullRefresh snapshotMessage), .run, .push, .run, .run,
    .onMessage (.executionReport (ackMessage "b")), .run, .push, .run]

/-- The Worker is handed the first acknowledgement, the price update and the second
acknowledgement. -/
theorem inbound_in_order_ack :
    ∃ s out, (sampleMachine QUEUE_SIZE).run (new Worker.sampleConfig) mixedRun = .ok (s, out) ∧
      handedReports out <+: parsedReports out ∧ handedUpdates out <+: parsedUpdates out ∧
      (handedReports out).map (·.id) = ["a", "b"] ∧
      (handedUpdates out).map (·.symbol) = ["BTCUSDT"] := by
  obtain ⟨s, out, hrun, htest⟩ := (sampleMachine QUEUE_SIZE).exists_of_run
    (new Worker.sampleConfig) mixedRun
    (fun _ out => (handedReports out).map (·.id) = ["a", "b"] ∧
      (handedUpdates out).map (·.symbol) = ["BTCUSDT"])
    (by decide +kernel)
  obtain ⟨hreports, hupdates⟩ := of_decide_eq_true htest
  have hlength : 0 + mixedRun.length ≤ QUEUE_SIZE := by decide
  have hfits : (sampleMachine QUEUE_SIZE).Along ReportFits (new Worker.sampleConfig) mixedRun ∧
      (sampleMachine QUEUE_SIZE).Along UpdateFits (new Worker.sampleConfig) mixedRun :=
    fits_of_length mixedRun hlength hlength
  exact ⟨s, out, hrun, (inbound_in_order hrun).1 hfits.1, (inbound_in_order hrun).2 hfits.2,
    hreports, hupdates⟩

end Harjus.Inbound
