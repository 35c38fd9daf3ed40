import Harjus.Outbound
import Harjus.Proofs.Multiprecision
import Harjus.Proofs.Worker.Choice

/-!
# `Harjus.Proofs.Outbound`: no order is lost on the way out while there is room

* `Step`, `step_cases`: what each step of the two threads does.
* `Carries`: a message asks for an order, field by field. `carries_of_newOrderSingle` says it of
  the message that `submitOrder` builds.
* `Kept`: the messages on their way and those sent are, in order, messages of the recorded
  orders. `kept_step` is the step lemma for the steps that do not submit into a full queue,
  `kept_run` the run lemma.
* `Tracked`: the orders recorded so far and those still to be recorded have different ids and
  cover the order table of the Worker. `tracked_step` is the step lemma, `tracked_run` the run
  lemma.
* `orders_kept`: in a run whose submissions find room, what was sent is at every moment a
  prefix of what was recorded, and an outstanding order is about to be submitted, or its message
  is on its way or sent, once.
* `outbound_counterexample`: with a full queue an order is lost, and the next one is not.
-/

set_option autoImplicit false

namespace Harjus.Outbound

open Harjus.Lib

variable {n capacity : ℕ} {F : Type} {gateway : Gateway F}

/-! ### The steps -/

/-- What a step does. -/
inductive Step (gateway : Gateway F) (s : Outbound n capacity) :
    Action → Outbound n capacity → List Observation → Prop
  | called {event : Worker.Event} {worker : Worker n} {orders : List SubmitOrder}
      (hidle : s.submitting = []) (hnone : s.recorded = none)
      (hstep : s.worker.step event = .ok (worker, orders)) :
      Step gateway s (.call event) { s with worker := worker, submitting := orders } []
  | recorded {order : SubmitOrder} {rest : List SubmitOrder} (hnone : s.recorded = none)
      (hsubmitting : s.submitting = order :: rest) :
      Step gateway s .record { s with submitting := rest, recorded := some order }
        [.recorded order]
  | submitted {order : SubmitOrder} {message : FIX.NewOrderSingle}
      (hrecorded : s.recorded = some order)
      (hmessage : gateway.newOrderSingle order = some message) :
      Step gateway s .submitOrder
        { s with
          recorded := none
          outboundQueue :=
            if gateway.initiator then (s.outboundQueue.push message).2
            else s.outboundQueue } []
  | nothing (hnone : s.sending = none) (hpop : s.outboundQueue.pop = none) :
      Step gateway s .pop s []
  | popped {message : FIX.NewOrderSingle} {queue : Fifo FIX.NewOrderSingle capacity}
      (hnone : s.sending = none) (hpop : s.outboundQueue.pop = some (message, queue)) :
      Step gateway s .pop { s with outboundQueue := queue, sending := some message } []
  | sent {message : FIX.NewOrderSingle} (hsending : s.sending = some message) :
      Step gateway s .send { s with sending := none }
        (if gateway.orderEntrySession then [.sent message] else [])

/-- A step is one of the steps of the two threads. -/
theorem step_cases {s s' : Outbound n capacity} {action : Action} {os : List Observation}
    (h : (machine gateway n capacity).step s action = .ok (s', os)) :
    Step gateway s action s' os := by
  -- Every action has a guard, and one branch behind it that does not throw.
  cases action with
  | call event =>
    change s.call event = _ at h
    unfold call at h
    split at h
    · rename_i hidle
      split at h
      · cases h
      · rename_i worker orders hstep
        cases h
        exact .called hidle.1 hidle.2 hstep
    · cases h
  | record =>
    change s.record = _ at h
    unfold record at h
    split at h
    · rename_i order rest hnone hsubmitting
      cases h
      exact .recorded hnone hsubmitting
    · cases h
  | submitOrder =>
    change s.submitOrder gateway = _ at h
    unfold submitOrder at h
    split at h
    · cases h
    · rename_i order hrecorded
      split at h
      · cases h
      · rename_i message hmessage
        cases h
        exact .submitted hrecorded hmessage
  | pop =>
    change s.pop = _ at h
    unfold pop at h
    split at h
    · cases h
    · rename_i hnone
      split at h
      · rename_i hpop
        cases h
        exact .nothing hnone hpop
      · rename_i message queue hpop
        cases h
        exact .popped hnone hpop
  | send =>
    change s.send gateway = _ at h
    unfold send at h
    split at h
    · cases h
    · rename_i message hsending
      cases h
      exact .sent hsending

/-! ### The message of an order -/

/-- The message asks for the order: the same id, symbol and side, and texts that denote the
quantity and the price. Behind `10 ^ 50` the digits of the decimal float end. -/
structure Carries (message : FIX.NewOrderSingle) (order : SubmitOrder) : Prop where
  id : message.clOrdID = order.id
  symbol : message.symbol = order.symbol
  buys : order.position = .LONG → message.side = '1'
  sells : order.position = .SHORT → message.side = '2'
  qty : |order.qty.smallestUnit| < 10 ^ 50 →
    literalValue message.orderQty.toList = some order.qty.toRat
  price : |order.price.smallestUnit| < 10 ^ 50 →
    literalValue message.price.toList = some order.price.toRat

/-- A text of `toString` denotes its amount. -/
theorem literalValue_of_toString {boost : Multiprecision F} {value : F → ℚ}
    (hboost : boost.Documented value) {a : PreciseNumber} {text : List Char}
    (htext : a.toString boost = some text) (ha : |a.smallestUnit| < 10 ^ 50) :
    literalValue (String.ofList text).toList = some a.toRat := by
  obtain ⟨text', hcanonical, -, hvalue, -⟩ := (PreciseNumber.decimal_roundtrip hboost).1 a ha
  rw [htext, Option.some.injEq] at hcanonical
  rw [String.toList_ofList, hcanonical]
  exact hvalue

/-- The message that `submitOrder` builds asks for its order. -/
theorem carries_of_newOrderSingle {value : F → ℚ} (hboost : gateway.boost.Documented value)
    {order : SubmitOrder} {message : FIX.NewOrderSingle}
    (h : gateway.newOrderSingle order = some message) : Carries message order := by
  unfold Gateway.newOrderSingle at h
  obtain ⟨orderQty, hqty, h⟩ := Option.bind_eq_some_iff.mp h
  obtain ⟨price, hprice, h⟩ := Option.bind_eq_some_iff.mp h
  cases h
  exact
    { id := rfl
      symbol := rfl
      buys := fun hposition => by simp only [hposition]; rfl
      sells := fun hposition => by simp only [hposition]; rfl
      qty := literalValue_of_toString hboost hqty
      price := literalValue_of_toString hboost hprice }

/-! ### Nothing is lost where there is room -/

/-- The orders recorded so far are, in order, those whose messages were sent or are on their
way, and the one that is about to be submitted. -/
def Kept (s : Outbound n capacity) (out : List Observation) : Prop :=
  ∃ orders, recordedOrders out = orders ++ s.recorded.toList ∧
    List.Forall₂ Carries (sentMessages out ++ s.onTheWay) orders

/-- At the start nothing is recorded and nothing is on its way. -/
theorem kept_new (config : WorkerConfig n) : Kept (new config : Outbound n capacity) [] :=
  ⟨[], rfl, List.Forall₂.nil⟩

/-- A step loses, doubles and overtakes no message, unless it submits one into a full
queue. -/
theorem kept_step {value : F → ℚ} (hboost : gateway.boost.Documented value)
    (hopen : gateway.Open) (s : Outbound n capacity) (out : List Observation) (action : Action)
    (s' : Outbound n capacity) (os : List Observation) (hkept : Kept s out)
    (hfits : OrderFits s action)
    (h : (machine gateway n capacity).step s action = .ok (s', os)) : Kept s' (out ++ os) := by
  obtain ⟨orders, hrecorded, hcarries⟩ := hkept
  cases step_cases h with
  | called hidle hnone =>
    rw [List.append_nil]
    exact ⟨orders, hrecorded, hcarries⟩
  | @recorded order rest hnone hsubmitting =>
    refine ⟨orders, ?_, ?_⟩
    · rw [recordedOrders_append, hrecorded, hnone]
      simp [recordedOrders, Observation.recordedOrder]
    · rw [sentMessages_append, sentMessages_cons_recorded]
      simpa [onTheWay, sentMessages] using hcarries
  | @submitted order message hsome hmessage =>
    -- From the hands of the Worker to the back of the queue, if there is room.
    have hroom : s.outboundQueue.items.length < capacity := hfits
    refine ⟨orders ++ [order], ?_, ?_⟩
    · rw [List.append_nil, hrecorded, hsome]
      simp
    · have hone : List.Forall₂ Carries [message] [order] :=
        .cons (carries_of_newOrderSingle hboost hmessage) .nil
      have hmore := List.rel_append hcarries hone
      rw [List.append_nil]
      simpa [onTheWay, hopen.1, Fifo.items_push hroom, List.append_assoc] using hmore
  | nothing =>
    rw [List.append_nil]
    exact ⟨orders, hrecorded, hcarries⟩
  | popped hnone hpop =>
    rw [List.append_nil]
    refine ⟨orders, hrecorded, ?_⟩
    simpa [onTheWay, hnone, Fifo.items_of_pop hpop] using hcarries
  | sent hsending =>
    refine ⟨orders, ?_, ?_⟩
    · rw [recordedOrders_append, hrecorded]
      simp [hopen.2, recordedOrders, Observation.recordedOrder]
    · simpa [onTheWay, hsending, hopen.2, sentMessages, Observation.sentMessage] using hcarries

/-- In every run whose submissions find room, recorded and sent are in step. -/
theorem kept_run {value : F → ℚ} (hboost : gateway.boost.Documented value)
    (hopen : gateway.Open) {config : WorkerConfig n} {actions : List Action}
    {s : Outbound n capacity} {out : List Observation}
    (hrun : (machine gateway n capacity).run (new config) actions = .ok (s, out))
    (hfits : (machine gateway n capacity).Along OrderFits (new config) actions) : Kept s out :=
  Machine.run_tracks_along (kept_step hboost hopen) (kept_new config) hfits hrun

/-! ### The orders of the Worker -/

/-- The submission loop draws one id after the other. -/
theorem ids_submitOrders (e : String) (trades : List StaticTrade) (ids : IdSource)
    (m : Finmap fun _ : String => StaticTrade × String) :
    (Worker.submitOrders e trades ids m).2.2.map (·.id)
      = (List.range' ids.drawn trades.length).map ids.id := by
  induction trades generalizing ids m with
  | nil => rfl
  | cons t trades ih =>
    rw [Worker.submitOrders, List.map_cons, ih, List.length_cons, List.range'_succ,
      List.map_cons]
    rfl

/-- The orders of one price update have different ids. -/
theorem nodup_processPriceUpdate (w : Worker n) (update : PriceUpdate) :
    ((w.processPriceUpdate update).2.map (·.id)).Nodup := by
  unfold Worker.processPriceUpdate
  dsimp only
  split
  · exact List.nodup_nil
  · unfold Worker.startExecution
    dsimp only
    rw [ids_submitOrders]
    exact List.Nodup.map (IdSource.distinct _) List.nodup_range'

/-- What a call of the Worker does to the ids and the order table. -/
structure Draws (w w' : Worker n) (orders : List SubmitOrder) : Prop where
  id : w'.ids.id = w.ids.id
  drawn : w.ids.drawn ≤ w'.ids.drawn
  nodup : (orders.map (·.id)).Nodup
  new : ∀ order ∈ orders, ∃ k, w.ids.drawn ≤ k ∧ k < w'.ids.drawn ∧ order.id = w.ids.id k
  entries : ∀ o t e, w'.executionIdMap.lookup o = some (t, e) →
    w.executionIdMap.lookup o = some (t, e) ∨
      ∃ order ∈ orders, order.id = o ∧ Worker.SubmitOrder.For order t

/-- A step of the Worker draws new ids for its orders. -/
theorem draws_of_step {w w' : Worker n} {event : Worker.Event} {orders : List SubmitOrder}
    (hw : w.Invariant) (h : w.step event = .ok (w', orders)) : Draws w w' orders := by
  have hcall := Worker.call_of_step hw.tables h
  have hw' := Worker.invariant_call hw hcall
  cases hcall with
  | report hreport =>
    -- A report draws nothing, and takes at most its own order out of the table.
    have hsame : w'.ids = w.ids := by cases hreport <;> rfl
    refine ⟨by rw [hsame], by rw [hsame], List.nodup_nil,
      fun _ hmem => absurd hmem List.not_mem_nil, fun o t e hlookup => Or.inl ?_⟩
    cases hreport with
    | ignored => exact hlookup
    | settled | closed => exact (Finmap.lookup_erase_eq_some.mp hlookup).2
  | @update update _ _ hupdate =>
    have hextends := Worker.extends_update hw.tables hupdate
    have hnodup : (orders.map (·.id)).Nodup := by
      rw [Worker.step, Except.ok.injEq] at h
      have horders : orders = (w.processPriceUpdate update).2 := by rw [h]
      rw [horders]
      exact nodup_processPriceUpdate w update
    refine ⟨hextends.id, hextends.drawn, hnodup, ?_, ?_⟩
    · intro order hmem
      obtain ⟨htable, k, hk, hid⟩ := hextends.orders order hmem
      obtain ⟨k', hk', hid'⟩ := hw'.tables.drawnOrders _ htable
      have hkk : k = k' := w.ids.distinct (by rw [← hid, hid', hextends.id])
      exact ⟨k, hk, hkk ▸ hk', hid⟩
    · cases hupdate with
      | idle => exact fun _ _ _ hlookup => Or.inl hlookup
      | started list i opp budget result hpath haffected hopp hbudget hpos hprofit hfree
          hsubmits =>
        intro o t e hlookup
        refine (hsubmits.submitted o (t, e) hlookup).imp_right ?_
        rintro ⟨order, hmem, rfl⟩
        obtain ⟨t', -, hfor, hlookup'⟩ := hsubmits.of_mem hmem
        have hentry : some (t', _) = some (t, e) := hlookup'.symm.trans hlookup
        cases hentry
        exact ⟨order, hmem, rfl, hfor⟩

/-- The orders recorded so far and those that the running call has still to record. -/
def ordersSoFar (s : Outbound n capacity) (out : List Observation) : List SubmitOrder :=
  recordedOrders out ++ s.submitting

/-- The orders so far have different ids, all drawn, and cover the order table of the
Worker. -/
structure Tracked (s : Outbound n capacity) (out : List Observation) : Prop where
  worker : s.worker.Invariant
  nodup : ((s.ordersSoFar out).map (·.id)).Nodup
  drawn : ∀ order ∈ s.ordersSoFar out, ∃ k < s.worker.ids.drawn,
    order.id = s.worker.ids.id k
  entries : ∀ o t e, s.worker.executionIdMap.lookup o = some (t, e) →
    ∃ order ∈ s.ordersSoFar out, order.id = o ∧ Worker.SubmitOrder.For order t

/-- At the start there are no orders. -/
theorem tracked_new (config : WorkerConfig n) :
    Tracked (new config : Outbound n capacity) [] where
  worker := Worker.invariant_new config
  nodup := List.nodup_nil
  drawn _ h := absurd h List.not_mem_nil
  entries o t e h := by simp [new, Worker.new] at h

/-- A step that leaves the Worker and the orders so far leaves the rest. -/
private theorem Tracked.of_eq {s s' : Outbound n capacity} {out out' : List Observation}
    (h : Tracked s out) (hworker : s'.worker = s.worker)
    (horders : s'.ordersSoFar out' = s.ordersSoFar out) : Tracked s' out' := by
  obtain ⟨hinv, hnodup, hdrawn, hentries⟩ := h
  rw [← hworker] at hinv hdrawn hentries
  rw [← horders] at hnodup hdrawn hentries
  exact ⟨hinv, hnodup, hdrawn, hentries⟩

/-- A call of the Worker draws new ids for its orders. -/
private theorem Tracked.call {s : Outbound n capacity} {out : List Observation}
    {event : Worker.Event} {worker : Worker n} {orders : List SubmitOrder}
    (h : Tracked s out) (hidle : s.submitting = [])
    (hstep : s.worker.step event = .ok (worker, orders)) :
    Tracked { s with worker := worker, submitting := orders } out := by
  have hdraws := draws_of_step h.worker hstep
  have hold : s.ordersSoFar out = recordedOrders out := by
    rw [ordersSoFar, hidle, List.append_nil]
  have hnodup := h.nodup
  have hdrawn := h.drawn
  have hentries := h.entries
  rw [hold] at hnodup hdrawn hentries
  refine ⟨Worker.invariant_call h.worker (Worker.call_of_step h.worker.tables hstep), ?_, ?_, ?_⟩
  · rw [ordersSoFar, List.map_append, List.nodup_append]
    refine ⟨hnodup, hdraws.nodup, ?_⟩
    -- An old id was drawn before the call, and a new one is drawn in it.
    intro id hmem id' hmem' heq
    obtain ⟨order, horder, rfl⟩ := List.mem_map.mp hmem
    obtain ⟨order', horder', rfl⟩ := List.mem_map.mp hmem'
    obtain ⟨k, hk, hid⟩ := hdrawn order horder
    obtain ⟨k', hk', -, hid'⟩ := hdraws.new order' horder'
    have hkk : k = k' := s.worker.ids.distinct (by rw [← hid, ← hid', heq])
    omega
  · intro order hmem
    show ∃ k < worker.ids.drawn, order.id = worker.ids.id k
    rw [hdraws.id]
    rcases List.mem_append.mp hmem with hmem | hmem
    · obtain ⟨k, hk, hid⟩ := hdrawn order hmem
      exact ⟨k, hk.trans_le hdraws.drawn, hid⟩
    · obtain ⟨k, -, hk, hid⟩ := hdraws.new order hmem
      exact ⟨k, hk, hid⟩
  · intro o t e hlookup
    rcases hdraws.entries o t e hlookup with hlookup | ⟨order, hmem, hfor⟩
    · obtain ⟨order, hmem, hfor⟩ := hentries o t e hlookup
      exact ⟨order, List.mem_append_left _ hmem, hfor⟩
    · exact ⟨order, List.mem_append_right _ hmem, hfor⟩

/-- A step of either thread keeps track of the orders so far. Only a call of the Worker changes
them. -/
theorem tracked_step (s : Outbound n capacity) (out : List Observation) (action : Action)
    (s' : Outbound n capacity) (os : List Observation) (h : Tracked s out)
    (hstep : (machine gateway n capacity).step s action = .ok (s', os)) :
    Tracked s' (out ++ os) := by
  cases step_cases hstep with
  | called hidle hnone hcall =>
    rw [List.append_nil]
    exact h.call hidle hcall
  | recorded hnone hsubmitting =>
    refine h.of_eq rfl ?_
    simp [ordersSoFar, recordedOrders, hsubmitting, Observation.recordedOrder]
  | submitted | nothing | popped => exact h.of_eq rfl (by simp [ordersSoFar])
  | sent hsending =>
    refine h.of_eq rfl ?_
    unfold ordersSoFar recordedOrders
    split <;> simp [Observation.recordedOrder]

/-- In every run the orders so far have different ids and cover the order table. -/
theorem tracked_run {config : WorkerConfig n} {actions : List Action}
    {s : Outbound n capacity} {out : List Observation}
    (hrun : (machine gateway n capacity).run (new config) actions = .ok (s, out)) :
    Tracked s out :=
  Machine.run_tracks tracked_step (tracked_new config) hrun

/-! ### The orders are kept -/

/-- No order is lost: what was sent carries the first of the recorded orders, in their order.
Each order in `_executionIdMap` is recorded, and either it is about to be submitted and has no
message yet, or exactly one message with its id is on its way or sent, and carries it. -/
structure OrdersKept (s : Outbound n capacity) (out : List Observation) : Prop where
  in_order : ∃ orders, orders <+: recordedOrders out ∧
    List.Forall₂ Carries (sentMessages out) orders
  pending : ∀ o t e, s.executionIdMap.lookup o = some (t, e) →
    ∃ order ∈ recordedOrders out, order.id = o ∧ Worker.SubmitOrder.For order t ∧
      (s.recorded = some order ∧
          (sentMessages out ++ s.onTheWay).filter (·.clOrdID = o) = [] ∨
        s.recorded ≠ some order ∧ ∃ message, Carries message order ∧
          (sentMessages out ++ s.onTheWay).filter (·.clOrdID = o) = [message])

/-- An entry of `_executionIdMap` is one of the Worker whose order has been recorded. -/
theorem lookup_executionIdMap {s : Outbound n capacity} {o : String} {t : StaticTrade}
    {e : String} (h : s.executionIdMap.lookup o = some (t, e)) :
    s.worker.executionIdMap.lookup o = some (t, e) ∧ ∀ order ∈ s.submitting, order.id ≠ o := by
  have hfold : ∀ (orders : List SubmitOrder)
      (m : Finmap fun _ : String => StaticTrade × String),
      (orders.foldl (fun m order => m.erase order.id) m).lookup o = some (t, e) →
      m.lookup o = some (t, e) ∧ ∀ order ∈ orders, order.id ≠ o := by
    intro orders
    induction orders with
    | nil => exact fun m h => ⟨h, fun _ hmem => absurd hmem List.not_mem_nil⟩
    | cons order orders ih =>
      intro m h
      obtain ⟨hlookup, hrest⟩ := ih _ h
      obtain ⟨hne, hlookup⟩ := Finmap.lookup_erase_eq_some.mp hlookup
      exact ⟨hlookup, List.forall_mem_cons.mpr ⟨hne.symm, hrest⟩⟩
  exact hfold s.submitting _ h

/-- Messages that carry orders with other ids have other ids. -/
private theorem filter_of_notMem {messages : List FIX.NewOrderSingle}
    {orders : List SubmitOrder} (h : List.Forall₂ Carries messages orders) {o : String}
    (ho : o ∉ orders.map (·.id)) : messages.filter (·.clOrdID = o) = [] := by
  induction h with
  | nil => rfl
  | cons hcarries _ ih =>
    rw [List.map_cons, List.mem_cons, not_or] at ho
    rw [List.filter_cons_of_neg, ih ho.2]
    rw [hcarries.id, decide_eq_true_eq]
    exact fun heq => ho.1 heq.symm

/-- Among messages that carry orders with different ids, one has the id of an order. -/
private theorem filter_of_mem {messages : List FIX.NewOrderSingle} {orders : List SubmitOrder}
    (h : List.Forall₂ Carries messages orders) (hnodup : (orders.map (·.id)).Nodup)
    {order : SubmitOrder} (hmem : order ∈ orders) :
    ∃ message, Carries message order ∧
      messages.filter (·.clOrdID = order.id) = [message] := by
  induction h with
  | nil => exact absurd hmem List.not_mem_nil
  | @cons message first messages orders hcarries hrest ih =>
    rw [List.map_cons, List.nodup_cons] at hnodup
    rcases List.mem_cons.mp hmem with rfl | hmem
    · refine ⟨message, hcarries, ?_⟩
      rw [List.filter_cons_of_pos (by rw [hcarries.id]; exact decide_eq_true rfl),
        filter_of_notMem hrest hnodup.1]
    · have hne : first.id ≠ order.id := fun heq =>
        hnodup.1 (heq ▸ List.mem_map_of_mem hmem)
      rw [List.filter_cons_of_neg (by rw [hcarries.id, decide_eq_true_eq]; exact hne)]
      exact ih hnodup.2 hmem

/-- In every run whose submissions find room, no order is lost on the way out. -/
theorem orders_kept {value : F → ℚ} (hboost : gateway.boost.Documented value)
    (hopen : gateway.Open) {config : WorkerConfig n} {actions : List Action}
    {s : Outbound n capacity} {out : List Observation}
    (hrun : (machine gateway n capacity).run (new config) actions = .ok (s, out))
    (hfits : (machine gateway n capacity).Along OrderFits (new config) actions) :
    OrdersKept s out := by
  have htracked := tracked_run hrun
  obtain ⟨orders, hrecorded, hcarries⟩ := kept_run hboost hopen hrun hfits
  refine ⟨?_, fun o t e hlookup => ?_⟩
  · -- The sent messages come first among those that carry the orders.
    have hsent := List.forall₂_take (sentMessages out).length hcarries
    rw [List.take_left] at hsent
    refine ⟨_, ?_, hsent⟩
    rw [hrecorded]
    exact (List.take_prefix _ orders).trans (List.prefix_append _ _)
  · obtain ⟨hentry, hnot⟩ := lookup_executionIdMap hlookup
    obtain ⟨order, hmem, hid, hfor⟩ := htracked.entries o t e hentry
    have hmem' : order ∈ recordedOrders out :=
      (List.mem_append.mp hmem).resolve_right fun hsubmitting => hnot order hsubmitting hid
    have hnodup : ((recordedOrders out).map (·.id)).Nodup :=
      (List.nodup_append.mp (List.map_append ▸ htracked.nodup)).1
    rw [hrecorded, List.map_append, List.nodup_append] at hnodup
    refine ⟨order, hmem', hid, hfor, ?_⟩
    rw [hrecorded] at hmem'
    rw [← hid]
    by_cases hhand : s.recorded = some order
    · refine Or.inl ⟨hhand, filter_of_notMem hcarries fun hearlier => ?_⟩
      exact hnodup.2.2 _ hearlier order.id (by simp [hhand]) rfl
    · refine Or.inr ⟨hhand, filter_of_mem hcarries hnodup.1 ?_⟩
      refine (List.mem_append.mp hmem').resolve_right fun hlast => hhand ?_
      exact Option.mem_toList.mp hlast

/-! ### Submitting and delivering

The two threads with nothing in their hands: what the running call has still to submit, and
what the queue holds. -/

/-- Between two rounds of either loop. -/
structure Between (s : Outbound n capacity) (orders : List SubmitOrder)
    (messages : List FIX.NewOrderSingle) : Prop where
  submitting : s.submitting = orders
  recorded : s.recorded = none
  items : s.outboundQueue.items = messages
  sending : s.sending = none

/-- The Worker records and submits its next order. -/
def submission : List Action := [.record, .submitOrder]

/-- The F-Stack thread pops and sends the next message. -/
def delivery : List Action := [.pop, .send]

/-- As many orders as the queue holds are submitted and one more, a message is sent, one more
order is submitted, and the queue is emptied. -/
def lossyActions (capacity : ℕ) : List Action :=
  (List.replicate capacity submission).flatten ++ (submission ++ (delivery ++ (submission ++
    (List.replicate capacity delivery).flatten)))

namespace Between

variable {s : Outbound n capacity} {order : SubmitOrder} {orders rest : List SubmitOrder}
variable {message : FIX.NewOrderSingle} {messages : List FIX.NewOrderSingle}
variable {messageOf : SubmitOrder → FIX.NewOrderSingle}

/-- The Worker's thread submits an order whose message can be built. -/
private theorem run_submission (hopen : gateway.Open)
    (hbuilds : gateway.newOrderSingle order = some message)
    (h : Between s (order :: rest) messages) :
    (machine gateway n capacity).run s submission
      = .ok ({ s with
          submitting := rest
          recorded := none
          outboundQueue := (s.outboundQueue.push message).2 },
        [.recorded order]) := by
  have hrecord : (machine gateway n capacity).step s .record
      = .ok ({ s with submitting := rest, recorded := some order }, [.recorded order]) := by
    show s.record = _
    rw [record, h.recorded, h.submitting]
  refine (Machine.run_cons _).mpr ⟨_, _, [], hrecord,
    (Machine.run_cons _).mpr ⟨_, [], [], ?_, rfl, rfl⟩, rfl⟩
  show submitOrder gateway { s with submitting := rest, recorded := some order } = _
  rw [submitOrder]
  simp only [hbuilds, hopen.1, if_true]
  rfl

/-- There is room for the message. -/
theorem submission_room (hopen : gateway.Open)
    (hbuilds : gateway.newOrderSingle order = some message)
    (h : Between s (order :: rest) messages) (hroom : messages.length < capacity) :
    ∃ s', (machine gateway n capacity).run s submission = .ok (s', [.recorded order]) ∧
      Between s' rest (messages ++ [message]) := by
  have hlength : s.outboundQueue.items.length < capacity := by rwa [h.items]
  exact ⟨_, h.run_submission hopen hbuilds, rfl, rfl, by rw [Fifo.items_push hlength, h.items],
    h.sending⟩

/-- There is none: `submitOrder` returns as if it had stored the message. -/
theorem submission_full (hopen : gateway.Open)
    (hbuilds : gateway.newOrderSingle order = some message)
    (h : Between s (order :: rest) messages) (hfull : ¬ messages.length < capacity) :
    ∃ s', (machine gateway n capacity).run s submission = .ok (s', [.recorded order]) ∧
      Between s' rest messages := by
  have hlength : ¬ s.outboundQueue.items.length < capacity := by rwa [h.items]
  exact ⟨_, h.run_submission hopen hbuilds, rfl, rfl, by rw [Fifo.push_of_full hlength, h.items],
    h.sending⟩

/-- A submission with room keeps to `OrderFits`. -/
theorem along_submission (h : Between s orders messages) (hroom : messages.length < capacity) :
    (machine gateway n capacity).Along OrderFits s submission := by
  refine ⟨trivial, fun s' os hstep => ⟨?_, fun _ _ _ => trivial⟩⟩
  show s'.outboundQueue.items.length < capacity
  cases step_cases hstep with
  | recorded => rwa [h.items]

/-- The oldest message is sent. -/
theorem delivery_sends (hopen : gateway.Open) (h : Between s orders (message :: messages)) :
    ∃ s', (machine gateway n capacity).run s delivery = .ok (s', [.sent message]) ∧
      Between s' orders messages := by
  obtain ⟨queue, hpop, hitems⟩ := Fifo.pop_of_items_cons h.items
  have hpopped : (machine gateway n capacity).step s .pop
      = .ok ({ s with outboundQueue := queue, sending := some message }, []) := by
    show s.pop = _
    rw [pop, h.sending]
    simp only [hpop]
  refine ⟨_, (Machine.run_cons _).mpr ⟨_, [], [.sent message], hpopped,
    (Machine.run_cons _).mpr ⟨{ s with outboundQueue := queue, sending := none },
      [.sent message], [], ?_, rfl, rfl⟩, rfl⟩, h.submitting, h.recorded, hitems, rfl⟩
  show send gateway { s with outboundQueue := queue, sending := some message } = _
  rw [send]
  simp only [hopen.2, if_true]

/-- Submissions fill the queue. -/
theorem submissions_fill (hopen : gateway.Open)
    (hbuilds : ∀ order, gateway.newOrderSingle order = some (messageOf order)) :
    ∀ {s : Outbound n capacity} {messages : List FIX.NewOrderSingle},
      Between s (orders ++ rest) messages → messages.length + orders.length ≤ capacity →
      ∃ s', (machine gateway n capacity).run s
            (List.replicate orders.length submission).flatten
          = .ok (s', orders.map .recorded) ∧
        Between s' rest (messages ++ orders.map messageOf) := by
  induction orders with
  | nil =>
    intro s messages h _
    exact ⟨s, rfl, by rwa [List.map_nil, List.append_nil]⟩
  | cons order orders ih =>
    intro s messages h hroom
    rw [List.length_cons] at hroom
    obtain ⟨t, hone, ht⟩ := h.submission_room hopen (hbuilds order) (by omega)
    obtain ⟨s', hrun, hs'⟩ := ih ht (by rw [List.length_append, List.length_singleton]; omega)
    refine ⟨s', ?_, ?_⟩
    · rw [List.length_cons, List.replicate_succ, List.flatten_cons]
      exact (Machine.run_append _).mpr ⟨t, _, _, hone, hrun, rfl⟩
    · rwa [List.append_assoc] at hs'

/-- Deliveries empty the queue. -/
theorem deliveries_drain (hopen : gateway.Open) (messages : List FIX.NewOrderSingle) :
    ∀ {s : Outbound n capacity}, Between s orders messages →
      ∃ s', (machine gateway n capacity).run s
            (List.replicate messages.length delivery).flatten
          = .ok (s', messages.map .sent) ∧
        Between s' orders [] := by
  induction messages with
  | nil => exact fun {s} h => ⟨s, rfl, h⟩
  | cons message messages ih =>
    intro s h
    obtain ⟨t, hone, ht⟩ := h.delivery_sends hopen
    obtain ⟨s', hrun, hs'⟩ := ih ht
    refine ⟨s', ?_, hs'⟩
    rw [List.length_cons, List.replicate_succ, List.flatten_cons]
    exact (Machine.run_append _).mpr ⟨t, _, _, hone, hrun, rfl⟩

/-- In the lossy actions the message of the order behind the full queue is lost, and the one
of the next order is sent. -/
theorem lossy (hopen : gateway.Open)
    (hbuilds : ∀ order, gateway.newOrderSingle order = some (messageOf order))
    {first : SubmitOrder} {lost late : SubmitOrder}
    (h : Between s ((first :: orders) ++ lost :: late :: rest) [])
    (hcapacity : (first :: orders).length = capacity) :
    ∃ s' out, (machine gateway n capacity).run s (lossyActions capacity) = .ok (s', out) ∧
      recordedOrders out = (first :: orders) ++ [lost, late] ∧
      sentMessages out = ((first :: orders) ++ [late]).map messageOf := by
  obtain ⟨s₁, hrun₁, h₁⟩ := h.submissions_fill hopen hbuilds (by rw [List.length_nil]; omega)
  rw [List.nil_append] at h₁
  obtain ⟨s₂, hrun₂, h₂⟩ := h₁.submission_full hopen (hbuilds lost) (by rw [List.length_map]; omega)
  obtain ⟨s₃, hrun₃, h₃⟩ := delivery_sends hopen (by rwa [List.map_cons] at h₂)
  rw [List.length_cons] at hcapacity
  obtain ⟨s₄, hrun₄, h₄⟩ := h₃.submission_room hopen (hbuilds late) (by rw [List.length_map]; omega)
  obtain ⟨s₅, hrun₅, -⟩ := h₄.deliveries_drain hopen
  rw [List.length_append, List.length_map, List.length_singleton, hcapacity] at hrun₅
  rw [List.length_cons, hcapacity] at hrun₁
  refine ⟨s₅, _, (Machine.run_append _).mpr ⟨s₁, _, _, hrun₁,
    (Machine.run_append _).mpr ⟨s₂, _, _, hrun₂,
      (Machine.run_append _).mpr ⟨s₃, _, _, hrun₃,
        (Machine.run_append _).mpr ⟨s₄, _, _, hrun₄, hrun₅, rfl⟩, rfl⟩, rfl⟩, rfl⟩, ?_, ?_⟩
  · simp only [recordedOrders_append, recordedOrders_recorded, recordedOrders_sent,
      recordedOrders_cons_recorded, recordedOrders_cons_sent, List.cons_append, List.nil_append]
  · simp only [sentMessages_append, sentMessages_recorded, sentMessages_sent,
      sentMessages_cons_recorded, sentMessages_cons_sent, List.nil_append, List.map_append,
      List.map_cons, List.cons_append]
    rfl

end Between

/-! ### A long path

Round trips through one market at par, and a triangle with a profit at the end. The path is
as long as the configuration makes it, and all its orders are submitted at once. -/

section RoundTrips

/-- A trade at par on `ETHBTC`. -/
def atPar (position : Position) : Trade := ⟨⟨"ETHBTC", "ETH", "BTC", 0, 0⟩, position, 0⟩

/-- The sale on `ETHUSDT`. -/
def saleUSDT : Trade := ⟨⟨"ETHUSDT", "ETH", "USDT", 0, 0⟩, .SHORT, 0⟩

/-- The purchase on `BTCUSDT`. -/
def purchaseBTC : Trade := ⟨⟨"BTCUSDT", "BTC", "USDT", 0, 0⟩, .LONG, 0⟩

/-- `k` round trips from `BTC` to `ETH` and back. -/
def roundTrips (k : ℕ) : List Trade := (List.replicate k [atPar .LONG, atPar .SHORT]).flatten

/-- `k` round trips, and then `BTC`, `ETH`, `USDT`, `BTC`. -/
def roundTripPath (k : ℕ) : TradingPath where
  trades := roundTrips k ++ [atPar .LONG, saleUSDT, purchaseBTC]
  nonempty := by simp

/-- One `BTC`, no commission, and no quotes yet. -/
def roundTripConfig (k : ℕ) : WorkerConfig 1 where
  tradingPaths _ := roundTripPath k
  relativeValues := Finmap.singleton "BTC" .one
  balance := Finmap.singleton "BTC" .one
  commission := 0
  book := Book.empty
  hashOrder := Worker.sampleConfig.hashOrder
  ids := Worker.sampleIds

/-- `symbol` is bid and asked for at `price`. -/
def quote (symbol : String) (price : PreciseNumber) : PriceUpdate :=
  ⟨symbol, price, price, .ofCount 10, .ofCount 10⟩

/-- The book after the quotes of the three markets. -/
def quotedBook : Book :=
  ((Book.empty.apply (quote "ETHBTC" .one)).apply (quote "BTCUSDT" .one)).apply
    (quote "ETHUSDT" (.ofCount 2))

/-- A leg that takes one and gives one. -/
structure Steady (t : Trade) : Prop where
  forth : forth quotedBook t .one = .one
  back : back quotedBook t .one = .one
  gives : (t.recalculateOrderQty quotedBook .one).recvQty quotedBook = .one

/-- At a price of one a trade passes on what it is given. -/
theorem steady_atPar (position : Position) : Steady (atPar position) := by
  cases position <;> constructor <;> decide

/-- A round trip trades at a price of one. -/
theorem mem_roundTrips {k : ℕ} {t : Trade} (h : t ∈ roundTrips k) :
    ∃ position, t = atPar position := by
  obtain ⟨l, hl, ht⟩ := List.mem_flatten.mp h
  rw [(List.mem_replicate.mp hl).2] at ht
  rcases List.mem_cons.mp ht with rfl | ht
  · exact ⟨_, rfl⟩
  · exact ⟨_, List.mem_singleton.mp ht⟩

/-- Steady legs carry one forth and back, and the trades behind them are sized with one. -/
theorem passes_steady (rest : List Trade) {trades : List Trade}
    (h : ∀ t ∈ trades, Steady t) :
    trades.foldl (fun acc t => forth quotedBook t acc) .one = .one ∧
      trades.foldr (back quotedBook) .one = .one ∧
      updateTrades quotedBook (trades ++ rest) .one
        = trades.map (fun t => t.recalculateOrderQty quotedBook .one)
          ++ updateTrades quotedBook rest .one := by
  induction trades with
  | nil => exact ⟨rfl, rfl, rfl⟩
  | cons t trades ih =>
    obtain ⟨hforth, hback, hsized⟩ := ih fun t' ht' => h t' (List.mem_cons_of_mem _ ht')
    have ht := h t List.mem_cons_self
    refine ⟨?_, ?_, ?_⟩
    · rw [List.foldl_cons, ht.forth, hforth]
    · rw [List.foldr_cons, hback, ht.back]
    · rw [List.cons_append, updateTrades, ht.gives, hsized, List.map_cons, List.cons_append]

/-- A quote with a price that is not negative has no negative entry. -/
theorem nonNeg_quote {symbol : String} {price : PreciseNumber} (h : 0 ≤ price) :
    (quote symbol price).NonNeg :=
  have hqty : (0 : PreciseNumber) ≤ .ofCount 10 := by decide
  ⟨h, h, hqty, hqty⟩

/-- The quoted book has no negative entry. -/
theorem nonNeg_quotedBook : quotedBook.NonNeg :=
  ((Book.nonNeg_empty.apply (nonNeg_quote (by decide))).apply (nonNeg_quote (by decide))).apply
    (nonNeg_quote (by decide))

/-- The path turns one into two. -/
theorem sizeTrades_roundTripPath (k : ℕ) :
    sizeTrades quotedBook (roundTripPath k).trades .one
      = (roundTrips k ++ [atPar .LONG]).map (fun t => t.recalculateOrderQty quotedBook .one)
        ++ updateTrades quotedBook [saleUSDT, purchaseBTC] .one := by
  have hsteady : ∀ t ∈ roundTrips k ++ [atPar .LONG], Steady t := by
    intro t ht
    rcases List.mem_append.mp ht with ht | ht
    · obtain ⟨position, rfl⟩ := mem_roundTrips ht
      exact steady_atPar position
    · rw [List.mem_singleton.mp ht]
      exact steady_atPar .LONG
  obtain ⟨hforth, hback, hsized⟩ := passes_steady [saleUSDT, purchaseBTC] hsteady
  have htrades : (roundTripPath k).trades
      = (roundTrips k ++ [atPar .LONG]) ++ [saleUSDT, purchaseBTC] := by
    rw [List.append_assoc]
    rfl
  -- Two come out at the end, and one is needed at the start.
  have hend : [saleUSDT, purchaseBTC].foldl (fun acc t => forth quotedBook t acc) .one
      = .ofCount 2 := by decide
  have hstart : [saleUSDT, purchaseBTC].foldr (back quotedBook) (.ofCount 2) = .one := by decide
  have hqty : startingAssetQty quotedBook (roundTripPath k).trades .one = .one := by
    rw [startingAssetQty_eq nonNeg_quotedBook, htrades, List.foldl_append, hforth, hend,
      List.foldr_append, hstart, hback]
  calc sizeTrades quotedBook (roundTripPath k).trades .one
      = updateTrades quotedBook
          (calculateMaxQtyAfterTrades quotedBook (roundTripPath k).trades .one).2
          (startingAssetQty quotedBook (roundTripPath k).trades .one) := rfl
    _ = updateTrades quotedBook (roundTripPath k).trades .one := by
        rw [hqty, updateTrades_eq_of_legs (legs_calculateMaxQtyAfterTrades _ _ _)]
    _ = _ := by rw [htrades, hsized]

/-- The Worker with the three quotes still to come, or some of them. -/
structure Ready (k : ℕ) (book : Book) (s : Outbound 1 capacity) : Prop where
  reachable : Worker.Reachable (roundTripConfig k) s.worker
  book : s.worker.book = book
  balance : s.worker.balance = (roundTripConfig k).balance
  reservedTrades : s.worker.reservedTrades = ∅
  between : Between s [] []

/-- The constructed Worker is ready for the quotes. -/
theorem ready_new (k : ℕ) :
    Ready k Book.empty (new (roundTripConfig k) : Outbound 1 capacity) :=
  ⟨⟨[], [], rfl⟩, rfl, rfl, rfl, ⟨rfl, rfl, rfl, rfl⟩⟩

/-- A call of the Worker between two submissions. -/
theorem run_call {s : Outbound n capacity} (h : Between s [] []) (update : PriceUpdate) :
    (machine gateway n capacity).run s [.call (.priceUpdate update)]
      = .ok ({ s with worker := (s.worker.processPriceUpdate update).1
                      submitting := (s.worker.processPriceUpdate update).2 }, []) := by
  refine (Machine.run_cons _).mpr ⟨_, [], [], ?_, rfl, rfl⟩
  show s.call (.priceUpdate update) = _
  rw [call, if_pos ⟨h.submitting, h.recorded⟩]
  rfl

/-- Without a bid for `ETHUSDT` a quote changes the book and nothing else. -/
theorem Ready.quoted {k : ℕ} {book : Book} {s : Outbound 1 capacity} (h : Ready k book s)
    (gateway : Gateway F) (update : PriceUpdate) (hb : (book.apply update).NonNeg)
    (hunpriced : saleUSDT.orderPrice (book.apply update) = 0) :
    ∃ s', (machine gateway 1 capacity).run s [.call (.priceUpdate update)] = .ok (s', []) ∧
      Ready k (book.apply update) s' := by
  have hvalues : ∀ asset, 0 ≤ (roundTripConfig k).relativeValues.amount asset := by
    intro asset
    show 0 ≤ Finmap.amount (Finmap.singleton "BTC" PreciseNumber.one) asset
    rw [Finmap.amount_singleton]
    split <;> decide
  have hmem : saleUSDT ∈ (roundTripPath k).trades := by simp [roundTripPath]
  have hnot : ¬ ∃ i, Worker.EligiblePath (roundTripConfig k) s.worker update i := by
    rintro ⟨i, hi⟩
    rw [← h.book] at hb hunpriced
    exact Worker.not_eligible_of_unpriced hb hvalues hmem hunpriced hi
  have hidles := Worker.idles_of_not_eligible h.reachable hnot
  refine ⟨_, run_call h.between update, ?_⟩
  exact ⟨h.reachable.priceUpdate update, by rw [← h.book]; exact Worker.book_processPriceUpdate _ _,
    hidles.balance.trans h.balance, hidles.reservedTrades.trans h.reservedTrades,
    ⟨hidles.orders, h.between.recorded, h.between.items, h.between.sending⟩⟩

/-- The path starts with `BTC`. -/
theorem startingAsset_roundTrip (k : ℕ) :
    ((Worker.new (roundTripConfig k)).opportunityList 0).startingAsset = "BTC" := by
  cases k with
  | zero => rfl
  | succ k => rfl

/-- With the three quotes the path has a profit. -/
theorem profit_roundTrip (k : ℕ) :
    0 < (((Worker.new (roundTripConfig k)).opportunityList 0).update quotedBook
      .one).totalProfit := by
  have hvalue : ((Worker.new (roundTripConfig k)).opportunityList 0).relativeValue = .one := by
    show Finmap.amount (Finmap.singleton "BTC" PreciseNumber.one)
      ((Worker.new (roundTripConfig k)).opportunityList 0).startingAsset = _
    rw [startingAsset_roundTrip, Finmap.amount_singleton, if_pos rfl]
  have hcommission : ((Worker.new (roundTripConfig k)).opportunityList 0).commission = 0 := rfl
  have hsized : (((Worker.new (roundTripConfig k)).opportunityList 0).update quotedBook
      .one).trades = _ := sizeTrades_roundTripPath k
  generalize (Worker.new (roundTripConfig k)).opportunityList 0 = opp at *
  have hprofit : (opp.update quotedBook .one).totalProfit
      = opp.profit
        (((opp.update quotedBook .one).trades.getLast
          (opp.update quotedBook .one).nonempty).recvQty quotedBook)
        ((opp.update quotedBook .one).getCapacity quotedBook)
        (opp.update quotedBook .one).trades.length := rfl
  have hused : (opp.update quotedBook .one).getCapacity quotedBook ≤ .one :=
    opp.getCapacity_update_le nonNeg_quotedBook (by decide)
  have hrecv : ((opp.update quotedBook .one).trades.getLast
      (opp.update quotedBook .one).nonempty).recvQty quotedBook = .ofCount 2 := by
    have hend : ∀ hne, ((updateTrades quotedBook [saleUSDT, purchaseBTC] .one).getLast
        hne).recvQty quotedBook = .ofCount 2 := by decide
    simp only [hsized]
    rw [List.getLast_append_of_ne_nil _ (by decide), hend]
  -- Two come out, at most one goes in, and there is no commission.
  rw [hprofit, Opportunity.profit, hrecv, hcommission, hvalue, PreciseNumber.zero_mul,
    sub_zero, PreciseNumber.mul_one, PreciseNumber.mul_one]
  exact sub_pos.mpr (hused.trans_lt (by decide))

/-- The last quote starts the path: its orders are those of the sized trades, in order. -/
theorem Ready.starts {k : ℕ} {s : Outbound 1 capacity}
    (h : Ready k ((Book.empty.apply (quote "ETHBTC" .one)).apply (quote "BTCUSDT" .one)) s)
    (gateway : Gateway F) :
    ∃ s' orders, (machine gateway 1 capacity).run s
          [.call (.priceUpdate (quote "ETHUSDT" (.ofCount 2)))] = .ok (s', []) ∧
      Between s' orders [] ∧
      List.Forall₂ Worker.SubmitOrder.For orders
        ((sizeTrades quotedBook (roundTripPath k).trades .one).map
          (StaticTrade.ofTrade quotedBook)) := by
  have hbook : s.worker.book.apply (quote "ETHUSDT" (.ofCount 2)) = quotedBook := by
    rw [h.book]
    rfl
  have hbudget : s.worker.balance.amount
      ((Worker.new (roundTripConfig k)).opportunityList 0).startingAsset = .one := by
    rw [h.balance, startingAsset_roundTrip]
    show Finmap.amount (Finmap.singleton "BTC" PreciseNumber.one) "BTC" = _
    rw [Finmap.amount_singleton, if_pos rfl]
  have hsized : ∀ i, Worker.sized (roundTripConfig k) s.worker (quote "ETHUSDT" (.ofCount 2)) i
      = ((Worker.new (roundTripConfig k)).opportunityList 0).update quotedBook .one := by
    intro i
    rw [Subsingleton.elim i 0, Worker.sized, hbook, hbudget]
  -- The only path is eligible, so it is the one that starts.
  have heligible : Worker.EligiblePath (roundTripConfig k) s.worker
      (quote "ETHUSDT" (.ofCount 2)) 0 :=
    { contains := ⟨saleUSDT, by simp [roundTripConfig, roundTripPath], rfl⟩
      balance := by rw [hbudget]; decide
      free := fun trade _ => by rw [h.reservedTrades]; exact Finset.notMem_empty _
      profit := by rw [hsized]; exact profit_roundTrip k }
  obtain ⟨b, e, -, -, hstarts⟩ := Worker.starts_of_eligible h.reachable ⟨0, heligible⟩
  have horders := hstarts.orders
  rw [hsized, hbook] at horders
  exact ⟨_, _, run_call h.between _, ⟨rfl, h.between.recorded, h.between.items,
    h.between.sending⟩, horders.imp fun _ _ hfor => hfor.1⟩

/-- The orders have the sides of the legs. -/
theorem positions_of_for {k : ℕ} {orders : List SubmitOrder}
    (h : List.Forall₂ Worker.SubmitOrder.For orders
      ((sizeTrades quotedBook (roundTripPath k).trades .one).map
        (StaticTrade.ofTrade quotedBook))) :
    orders.map (·.position) = (roundTripPath k).trades.map (·.position) := by
  have hpositions : ∀ {orders : List SubmitOrder} {trades : List StaticTrade},
      List.Forall₂ Worker.SubmitOrder.For orders trades →
      orders.map (·.position) = trades.map (·.position) := by
    intro orders trades hall
    induction hall with
    | nil => rfl
    | cons hfor _ ih => rw [List.map_cons, List.map_cons, hfor.position, ih]
  rw [hpositions h, List.map_map]
  -- Sizing keeps the legs, and with them the positions.
  have hlegs := legs_sizeTrades quotedBook (roundTripPath k).trades .one
  have hlegpositions := congrArg (List.map Prod.snd) hlegs
  rwa [List.map_map, List.map_map] at hlegpositions

/-- There are two trades in a round trip. -/
theorem length_roundTrips (k : ℕ) : (roundTrips k).length = 2 * k := by
  simp [roundTrips, Nat.mul_comm]

/-- A gateway that is open, with exact numbers. -/
def sampleGateway : Gateway ℚ where
  boost := PreciseNumber.exactBoost
  initiator := true
  orderEntrySession := true

/-- The sample gateway is open. -/
theorem open_sampleGateway : sampleGateway.Open := ⟨rfl, rfl⟩

/-- Exact numbers write every amount. -/
theorem toString_exactBoost (a : PreciseNumber) :
    ∃ text, a.toString PreciseNumber.exactBoost = some text := by
  have hread : PreciseNumber.exactBoost.decFloat
      (PreciseNumber.exactBoost.mpzStr a.smallestUnit) = some (a.smallestUnit : ℚ) :=
    literalValue_intText a.smallestUnit
  unfold PreciseNumber.toString
  rw [hread]
  exact ⟨_, rfl⟩

/-- So the sample gateway builds the message of every order. -/
theorem newOrderSingle_sampleGateway :
    ∃ messageOf : SubmitOrder → FIX.NewOrderSingle,
      ∀ order, sampleGateway.newOrderSingle order = some (messageOf order) := by
  have hbuilds : ∀ order, ∃ message, sampleGateway.newOrderSingle order = some message := ?_
  · exact Classical.skolem.mp hbuilds
  intro order
  obtain ⟨orderQty, hqty⟩ := toString_exactBoost order.qty
  obtain ⟨price, hprice⟩ := toString_exactBoost order.price
  unfold Gateway.newOrderSingle
  show ∃ message, ((order.qty.toString PreciseNumber.exactBoost).bind fun _ => _) = some message
  rw [hqty]
  show ∃ message, ((order.price.toString PreciseNumber.exactBoost).bind fun _ => _) = some message
  rw [hprice]
  exact ⟨_, rfl⟩

/-- The three quotes arrive, and then the lossy actions. -/
def lossyRun : List Action :=
  [.call (.priceUpdate (quote "ETHBTC" .one))] ++
    ([.call (.priceUpdate (quote "BTCUSDT" .one))] ++
      ([.call (.priceUpdate (quote "ETHUSDT" (.ofCount 2)))] ++
        lossyActions OutboundQueueCapacity))

/-- A path of 4099 legs is started: the message of its order 4097 is lost, and the one of its
order 4098 is sent. -/
theorem outbound_counterexample :
    sampleGateway.Open ∧
    ∃ s out, (machine sampleGateway 1 OutboundQueueCapacity).run (new (roundTripConfig 2048))
        lossyRun = .ok (s, out) ∧
      ¬ OrdersKept s out := by
  have hone : (0 : PreciseNumber) ≤ .one := by decide
  have h₀ : Ready 2048 Book.empty
      (new (roundTripConfig 2048) : Outbound 1 OutboundQueueCapacity) := ready_new 2048
  obtain ⟨s₁, hrun₁, h₁⟩ := h₀.quoted sampleGateway (quote "ETHBTC" .one)
    (Book.nonNeg_empty.apply (nonNeg_quote hone)) (by decide)
  obtain ⟨s₂, hrun₂, h₂⟩ := h₁.quoted sampleGateway (quote "BTCUSDT" .one)
    ((Book.nonNeg_empty.apply (nonNeg_quote hone)).apply (nonNeg_quote hone)) (by decide)
  obtain ⟨s₃, orders, hrun₃, h₃, hfor⟩ := h₂.starts sampleGateway
  have hpositions := positions_of_for hfor
  -- The orders are those of the round trips, and then of the last three legs.
  rw [roundTripPath, List.map_append, List.map_eq_append_iff] at hpositions
  obtain ⟨trips, last, rfl, htrips, hlast⟩ := hpositions
  have hlength : trips.length = OutboundQueueCapacity := by
    rw [← List.length_map (·.position), htrips, List.length_map, length_roundTrips]
    rfl
  obtain ⟨lost, last, rfl, hlost, hlast⟩ := List.map_eq_cons_iff.mp hlast
  obtain ⟨late, last, rfl, hlate, -⟩ := List.map_eq_cons_iff.mp hlast
  have hpos : 0 < trips.length := by rw [hlength]; decide
  obtain ⟨first, trips, rfl⟩ := List.exists_cons_of_length_pos hpos
  obtain ⟨messageOf, hbuilds⟩ := newOrderSingle_sampleGateway
  obtain ⟨s₄, out, hrun₄, hrecorded, hsent⟩ := h₃.lossy open_sampleGateway hbuilds hlength
  refine ⟨open_sampleGateway, s₄, _, (Machine.run_append _).mpr ⟨s₁, _, _, hrun₁,
    (Machine.run_append _).mpr ⟨s₂, _, _, hrun₂,
      (Machine.run_append _).mpr ⟨s₃, _, _, hrun₃, hrun₄, rfl⟩, rfl⟩, rfl⟩, fun hkept => ?_⟩
  obtain ⟨sent, hbefore, hcarries⟩ := hkept.in_order
  rw [List.nil_append, List.nil_append, List.nil_append] at hbefore hcarries
  rw [hsent] at hcarries
  rw [hrecorded] at hbefore
  -- As many orders are carried as messages are sent, so the last one is the lost order.
  have hcount : sent.length = ((first :: trips) ++ [lost]).length := by
    rw [← hcarries.length_eq, List.length_map, List.length_append, List.length_append]
    rfl
  have hcarried : sent = (first :: trips) ++ [lost] := by
    refine (List.prefix_of_prefix_length_le hbefore ?_ hcount.le).eq_of_length hcount
    exact ⟨[late], by rw [List.append_assoc]; rfl⟩
  have hlast := List.forall₂_drop (first :: trips).length hcarries
  rw [hcarried, List.map_append, List.drop_left, List.drop_left' (List.length_map _)] at hlast
  -- The lost order buys and the late one sells.
  have hlate' : Carries (messageOf late) late :=
    carries_of_newOrderSingle PreciseNumber.documented_exactBoost (hbuilds late)
  cases hlast with
  | cons hlost' _ =>
    have hside := (hlost'.buys hlost).symm.trans (hlate'.sells hlate)
    exact absurd hside (by decide)

/-- The three quotes arrive, and the first order is submitted and sent. -/
def keptRun : List Action :=
  [.call (.priceUpdate (quote "ETHBTC" .one))] ++
    ([.call (.priceUpdate (quote "BTCUSDT" .one))] ++
      ([.call (.priceUpdate (quote "ETHUSDT" (.ofCount 2)))] ++ (submission ++ delivery)))

/-- The first order of the triangle is sent: it buys 1 ETH for 1 BTC. -/
theorem orders_kept_triangle :
    ∃ s out message,
      (machine sampleGateway 1 OutboundQueueCapacity).run (new (roundTripConfig 0)) keptRun
        = .ok (s, out) ∧
      OrdersKept s out ∧ sentMessages out = [message] ∧ message.symbol = "ETHBTC" ∧
      message.side = '1' ∧ literalValue message.orderQty.toList = some 1 ∧
      literalValue message.price.toList = some 1 := by
  have hone : (0 : PreciseNumber) ≤ .one := by decide
  have h₀ : Ready 0 Book.empty
      (new (roundTripConfig 0) : Outbound 1 OutboundQueueCapacity) := ready_new 0
  obtain ⟨s₁, hrun₁, h₁⟩ := h₀.quoted sampleGateway (quote "ETHBTC" .one)
    (Book.nonNeg_empty.apply (nonNeg_quote hone)) (by decide)
  obtain ⟨s₂, hrun₂, h₂⟩ := h₁.quoted sampleGateway (quote "BTCUSDT" .one)
    ((Book.nonNeg_empty.apply (nonNeg_quote hone)).apply (nonNeg_quote hone)) (by decide)
  obtain ⟨s₃, orders, hrun₃, h₃, hfor⟩ := h₂.starts sampleGateway
  have hfirst : ((sizeTrades quotedBook (roundTripPath 0).trades .one).map
      (StaticTrade.ofTrade quotedBook)).head?
        = some ⟨"ETHBTC", .LONG, .one, .one, "ETH", "BTC"⟩ := by decide
  obtain ⟨trades, htrades⟩ := List.head?_eq_some_iff.mp hfirst
  rw [htrades] at hfor
  obtain ⟨order, rest, hbuys, -, rfl⟩ := List.forall₂_cons_right_iff.mp hfor
  obtain ⟨messageOf, hbuilds⟩ := newOrderSingle_sampleGateway
  obtain ⟨s₄, hrun₄, h₄⟩ :=
    h₃.submission_room open_sampleGateway (hbuilds order) (by decide)
  rw [List.nil_append] at h₄
  obtain ⟨s₅, hrun₅, -⟩ := h₄.delivery_sends open_sampleGateway
  have hrun := (Machine.run_append _).mpr ⟨s₁, _, _, hrun₁,
    (Machine.run_append _).mpr ⟨s₂, _, _, hrun₂,
      (Machine.run_append _).mpr ⟨s₃, _, _, hrun₃,
        (Machine.run_append _).mpr ⟨s₄, _, _, hrun₄, hrun₅, rfl⟩, rfl⟩, rfl⟩, rfl⟩
  -- The one submission finds an empty queue.
  have hcall : ∀ (s : Outbound 1 OutboundQueueCapacity) (event : Worker.Event),
      (machine sampleGateway 1 OutboundQueueCapacity).Along OrderFits s [.call event] :=
    fun _ _ => ⟨trivial, fun _ _ _ => trivial⟩
  have hdelivery : (machine sampleGateway 1 OutboundQueueCapacity).Along OrderFits s₄ delivery :=
    ⟨trivial, fun _ _ _ => ⟨trivial, fun _ _ _ => trivial⟩⟩
  have hkept := orders_kept PreciseNumber.documented_exactBoost open_sampleGateway hrun
    (Machine.along_append (hcall _ _) hrun₁ (Machine.along_append (hcall _ _) hrun₂
      (Machine.along_append (hcall _ _) hrun₃
        (Machine.along_append (h₃.along_submission (by decide)) hrun₄ hdelivery))))
  have hcarries : Carries (messageOf order) order :=
    carries_of_newOrderSingle PreciseNumber.documented_exactBoost (hbuilds order)
  have hvalue : PreciseNumber.one.toRat = 1 := by
    norm_num [PreciseNumber.toRat, PreciseNumber.one, PreciseNumber.kPrecision]
  have hqty := hcarries.qty (by rw [hbuys.qty]; decide)
  have hprice := hcarries.price (by rw [hbuys.price]; decide)
  rw [hbuys.qty, hvalue] at hqty
  rw [hbuys.price, hvalue] at hprice
  exact ⟨s₅, _, messageOf order, hrun, hkept, rfl, hcarries.symbol.trans hbuys.symbol,
    hcarries.buys hbuys.position, hqty, hprice⟩

end RoundTrips

end Harjus.Outbound
