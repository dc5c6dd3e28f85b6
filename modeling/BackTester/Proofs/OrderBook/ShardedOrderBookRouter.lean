import BackTester.Abstract.Routing
import BackTester.Model.OrderBook.ShardedOrderBookRouter
import Mathlib.Tactic

/-! # The invariant of the sharded router

What the queue of a shard was given is dealt with in order: first what its worker has visited, then
what it has in hand, then what is still in the queue. A promise is the last item of its queue until
the calling thread goes on, so once it is fulfilled the worker has caught up, and nothing moves
before the next call.
-/

namespace BackTester.ShardedOrderBookRouter

open Routing

variable {BookType : Type} {NumShards : ℕ} {state after : State BookType NumShards}
  {shard i : Fin NumShards} {item : ShardItem NumShards} {e : MarketDataEvent}

def eventsOf (items : List (ShardItem NumShards)) : List MarketDataEvent :=
  items.filterMap fun
    | .event e => some e
    | .promise _ _ => none

@[simp] theorem eventsOf_nil : eventsOf ([] : List (ShardItem NumShards)) = [] := rfl

@[simp] theorem eventsOf_append_event (items : List (ShardItem NumShards)) (e : MarketDataEvent) :
    eventsOf (items ++ [.event e]) = eventsOf items ++ [e] := by
  simp [eventsOf]

@[simp] theorem eventsOf_append_promise (items : List (ShardItem NumShards)) (round : ℕ) (shard : Fin NumShards) :
    eventsOf (items ++ [.promise round shard]) = eventsOf items := by
  simp [eventsOf]

/-- The state behind a push that is not refused. -/
def pushedTo (state : State BookType NumShards) (shard : Fin NumShards) (item : ShardItem NumShards) :
    State BookType NumShards :=
  { state with
    router.queues := Function.update state.router.queues shard
      { state.router.queues shard with queue := (state.router.queues shard).queue ++ [item] }
    pushed := Function.update state.pushed shard (state.pushed shard ++ [item]) }

theorem push_of_open (opened : (state.router.queues shard).closed = false) :
    push state shard item = .ok (pushedTo state shard item) := by
  simp only [push, BlockingQueue.pushImpl, pushedTo, opened]
  rfl

theorem push_of_closed (closed : (state.router.queues shard).closed = true) :
    push state shard item = .error "BlockingQueue::push: queue is closed" := by
  simp only [push, BlockingQueue.pushImpl, closed]
  rfl

/-- The item a worker has in hand. -/
def inHand : Worker NumShards → List (ShardItem NumShards)
  | .visiting item => [item]
  | _ => []

variable [OrderBook BookType]

/-- What a worker's step leaves alone. -/
structure Unmoved (state after : State BookType NumShards) : Prop where
  caller : after.caller = state.caller
  round : after.round = state.round
  applied : after.applied = state.applied
  pushed : after.pushed = state.pushed
  seen : after.router.orderToInstrument = state.router.orderToInstrument
  anomalies : after.router.anomalies = state.router.anomalies
  closed : after.router.closed = state.router.closed

theorem unmoved_work (step : work state shard = some after) : Unmoved state after := by
  unfold work at step
  split at step
  · obtain ⟨⟨item, queue⟩, -, rfl⟩ := Option.map_eq_some_iff.mp step
    exact ⟨rfl, rfl, rfl, rfl, rfl, rfl, rfl⟩
  · next item _ =>
    cases item <;> obtain rfl := Option.some.inj step <;> exact ⟨rfl, rfl, rfl, rfl, rfl, rfl, rfl⟩
  · contradiction

/-- The way of the items through the queues. -/
structure Flow (state : State BookType NumShards) : Prop where
  whole : ∀ i, state.pushed i = state.visited i ++ inHand (state.workers i) ++ (state.router.queues i).queue
  routers : ∀ i, state.router.shardRouters i = SimpleOrderBookRouter.run (eventsOf (state.visited i))
  fulfilled : ∀ round i, (round, i) ∈ state.fulfilled → .promise round i ∈ state.visited i
  own : ∀ i round j, .promise round j ∈ state.pushed i → j = i
  older : ∀ i round j, .promise round j ∈ state.pushed i → round ≤ state.round
  opened : state.router.closed = false → ∀ i, (state.router.queues i).closed = false
  finished : ∀ i, state.workers i = .finished → (state.router.queues i).queue = [] ∧
    (state.router.queues i).closed = true

/-- The worker has dealt with all that its queue was given. -/
def CaughtUp (state : State BookType NumShards) (i : Fin NumShards) : Prop := state.visited i = state.pushed i

/-- The promise of the last `sync_all` is the last item of the queue. -/
def Flushing (state : State BookType NumShards) (i : Fin NumShards) : Prop :=
  ∃ before, state.pushed i = before ++ [.promise state.round i] ∧ .promise state.round i ∉ before

namespace Flow

theorem initial : Flow ({} : State BookType NumShards) where
  whole _ := rfl
  routers _ := rfl
  fulfilled _ _ isIn := absurd isIn List.not_mem_nil
  own _ _ _ isIn := absurd isIn List.not_mem_nil
  older _ _ _ isIn := absurd isIn List.not_mem_nil
  opened _ _ := rfl
  finished _ isFinished := nomatch isFinished

theorem caughtUp_iff (flow : Flow state) :
    CaughtUp state i ↔ inHand (state.workers i) = [] ∧ (state.router.queues i).queue = [] := by
  rw [CaughtUp, flow.whole, List.append_assoc, List.self_eq_append_right, List.append_eq_nil_iff]

theorem caughtUp_of_finished (flow : Flow state) (isFinished : state.workers i = .finished) : CaughtUp state i := by
  rw [flow.caughtUp_iff, isFinished]
  exact ⟨rfl, (flow.finished i isFinished).1⟩

/-- A promise at the end of the queue is visited last. -/
theorem caughtUp_of_fulfilled (flow : Flow state) (flushing : Flushing state i)
    (isFulfilled : (state.round, i) ∈ state.fulfilled) : CaughtUp state i := by
  obtain ⟨before, isLast, notBefore⟩ := flushing
  have visited := flow.fulfilled _ _ isFulfilled
  have whole := flow.whole i
  rw [isLast, List.append_assoc] at whole
  rw [flow.caughtUp_iff, ← List.append_eq_nil_iff]
  rcases List.eq_nil_or_concat' (inHand (state.workers i) ++
    (state.router.queues i).queue) with none | ⟨rest, last, ends⟩
  · exact none
  · rw [ends, ← List.append_assoc] at whole
    obtain ⟨rfl, -⟩ := List.append_inj' whole rfl
    exact absurd (List.mem_append_left _ visited) notBefore

theorem push (flow : Flow state) (opened : (state.router.queues shard).closed = false)
    (named : ∀ round j, item = .promise round j → j = shard ∧ round ≤ state.round) :
    Flow (pushedTo state shard item) where
  whole i := by
    simp only [pushedTo, Function.update_apply]
    split
    · next here => rw [flow.whole, here, List.append_assoc]
    · exact flow.whole i
  routers := flow.routers
  fulfilled := flow.fulfilled
  own i round j isIn := by
    simp only [pushedTo, Function.update_apply] at isIn
    split at isIn
    · next here =>
      rcases List.mem_append.mp isIn with old | new
      · exact (flow.own _ _ _ old).trans here.symm
      · exact (named round j (List.mem_singleton.mp new).symm).1.trans here.symm
    · exact flow.own _ _ _ isIn
  older i round j isIn := by
    simp only [pushedTo, Function.update_apply] at isIn
    split at isIn
    · rcases List.mem_append.mp isIn with old | new
      · exact flow.older _ _ _ old
      · exact (named round j (List.mem_singleton.mp new).symm).2
    · exact flow.older _ _ _ isIn
  opened isOpen i := by
    simp only [pushedTo, Function.update_apply]
    split
    · exact opened
    · exact flow.opened isOpen i
  finished i isFinished := by
    obtain ⟨empty, isClosed⟩ := flow.finished i isFinished
    simp only [pushedTo, Function.update_apply]
    split
    · next here =>
      subst here
      rw [opened] at isClosed
      contradiction
    · exact ⟨empty, isClosed⟩

theorem mem_pushed_of_visiting (flow : Flow state) (isVisiting : state.workers shard = .visiting item) :
    item ∈ state.pushed shard := by
  rw [flow.whole, isVisiting]
  simp [inHand]

/-- The item in hand becomes the last one visited. -/
theorem visit (flow : Flow state) (isVisiting : state.workers shard = .visiting item)
    {shardRouters : Fin NumShards → SimpleOrderBookRouter BookType} {fulfilled : List (ℕ × Fin NumShards)}
    (routers : ∀ i, shardRouters i =
      SimpleOrderBookRouter.run (eventsOf (Function.update state.visited shard (state.visited shard ++ [item]) i)))
    (promised : ∀ round i, (round, i) ∈ fulfilled →
      .promise round i ∈ Function.update state.visited shard (state.visited shard ++ [item]) i) :
    Flow { state with
      router.shardRouters := shardRouters
      workers := Function.update state.workers shard .popping
      visited := Function.update state.visited shard (state.visited shard ++ [item])
      fulfilled := fulfilled } where
  whole i := by
    have whole := flow.whole i
    simp only [Function.update_apply]
    split
    · next here =>
      subst here
      rw [whole, isVisiting]
      simp [inHand]
    · exact whole
  routers := routers
  fulfilled := promised
  own := flow.own
  older := flow.older
  opened := flow.opened
  finished i isFinished := by
    simp only [Function.update_apply] at isFinished
    split at isFinished
    · contradiction
    · exact flow.finished i isFinished

/-- A worker takes an item out of its queue, or deals with the one it has. -/
theorem work (flow : Flow state) (step : work state shard = some after) : Flow after := by
  have unmoved := unmoved_work step
  unfold ShardedOrderBookRouter.work at step
  split at step
  · next isPopping =>
    obtain ⟨⟨item, queue⟩, popped, rfl⟩ := Option.map_eq_some_iff.mp step
    have answer : (state.router.queues shard).queue = item.toList ++ queue.queue ∧
        queue.closed = (state.router.queues shard).closed ∧
        (item = none → queue.queue = [] ∧ queue.closed = true) := by
      unfold BlockingQueue.popImpl at popped
      split at popped
      · next first rest isQueue =>
        obtain ⟨rfl, rfl⟩ := Prod.mk.inj (Option.some.inj popped)
        exact ⟨isQueue, rfl, nofun⟩
      · next isEmpty =>
        split at popped
        · next isClosed =>
          obtain ⟨rfl, rfl⟩ := Prod.mk.inj (Option.some.inj popped)
          exact ⟨rfl, rfl, fun _ => ⟨isEmpty, isClosed⟩⟩
        · contradiction
    obtain ⟨isQueue, sameFlag, stops⟩ := answer
    constructor
    · intro i
      have whole := flow.whole i
      simp only [Function.update_apply]
      split
      · next here =>
        subst here
        rw [whole, isPopping, isQueue]
        cases item <;> simp [inHand]
      · exact whole
    · exact flow.routers
    · exact flow.fulfilled
    · exact flow.own
    · exact flow.older
    · intro isOpen i
      simp only [Function.update_apply]
      split
      · rw [sameFlag]
        exact flow.opened isOpen shard
      · exact flow.opened isOpen i
    · intro i isFinished
      simp only [Function.update_apply] at isFinished ⊢
      split
      · next here =>
        rw [if_pos here] at isFinished
        cases item with
        | none => exact stops rfl
        | some item => contradiction
      · next apart =>
        rw [if_neg apart] at isFinished
        exact flow.finished i isFinished
  · next item isVisiting =>
    cases item with
    | event e =>
      obtain rfl := Option.some.inj step
      refine flow.visit isVisiting (fun i => ?_) fun round i isFulfilled => ?_
      · simp only [Function.update_apply]
        split
        · next here =>
          rw [eventsOf_append_event, SimpleOrderBookRouter.run_append_singleton, flow.routers]
        · exact flow.routers i
      · simp only [Function.update_apply]
        split
        · next here => exact List.mem_append_left _ (here ▸ flow.fulfilled round i isFulfilled)
        · exact flow.fulfilled round i isFulfilled
    | promise round j =>
      obtain rfl := Option.some.inj step
      obtain rfl := flow.own _ _ _ (flow.mem_pushed_of_visiting isVisiting)
      refine flow.visit isVisiting (fun i => ?_) fun round' i isFulfilled => ?_
      · simp only [Function.update_apply]
        split
        · next here => rw [eventsOf_append_promise, flow.routers, here]
        · exact flow.routers i
      · simp only [Function.update_apply]
        rcases List.mem_cons.mp isFulfilled with new | old
        · obtain ⟨rfl, rfl⟩ := Prod.mk.inj new
          rw [if_pos rfl]
          exact List.mem_append_right _ (List.mem_singleton_self _)
        · split
          · next here => exact List.mem_append_left _ (here ▸ flow.fulfilled round' i old)
          · exact flow.fulfilled round' i old
  · contradiction

/-- Having caught up, a worker has nothing to do until its queue is given something. -/
theorem caughtUp_work (flow : Flow state) (step : ShardedOrderBookRouter.work state shard = some after)
    (caughtUp : CaughtUp state i) : CaughtUp after i := by
  obtain ⟨empty, drained⟩ := flow.caughtUp_iff.mp caughtUp
  unfold ShardedOrderBookRouter.work at step
  split at step
  · obtain ⟨_, -, rfl⟩ := Option.map_eq_some_iff.mp step
    exact caughtUp
  · next item isVisiting =>
    have apart : i ≠ shard := by
      rintro rfl
      rw [isVisiting] at empty
      exact absurd empty (List.cons_ne_nil _ _)
    cases item <;> obtain rfl := Option.some.inj step <;> simpa [CaughtUp, Function.update_of_ne apart] using caughtUp
  · contradiction

end Flow

theorem finished_work (step : work state shard = some after) (isFinished : state.workers i = .finished) :
    after.workers i = .finished := by
  have apart : i ≠ shard := by
    rintro rfl
    simp [work, isFinished] at step
  unfold work at step
  split at step
  · obtain ⟨_, -, rfl⟩ := Option.map_eq_some_iff.mp step
    simpa [Function.update_of_ne apart] using isFinished
  · next item _ =>
    cases item <;> obtain rfl := Option.some.inj step <;> simpa [Function.update_of_ne apart] using isFinished
  · contradiction

/-- The instrument that the front finds for an event. -/
def found (prior : List MarketDataEvent) (e : MarketDataEvent) : UInt32 :=
  if e.orderId = 0 then e.instrumentId else instrumentOf prior e

/-- The front finds no instrument for the order id. -/
def lost (prior : List MarketDataEvent) (e : MarketDataEvent) : Bool := found prior e = 0 ∧ e.orderId ≠ 0

/-- The front hands the event to a shard. -/
def handed [NeZero NumShards] (shard : Fin NumShards) (prior : List MarketDataEvent) (e : MarketDataEvent) : Bool :=
  ¬lost prior e ∧ shardOf NumShards (found prior e) = shard

/-- The events of a sequence that the front hands to a shard. -/
def share [NeZero NumShards] (shard : Fin NumShards) (events : List MarketDataEvent) : List MarketDataEvent :=
  events.filterAlong (handed shard)

theorem share_append_singleton [NeZero NumShards] (shard : Fin NumShards) (events : List MarketDataEvent)
    (e : MarketDataEvent) :
    share shard (events ++ [e]) = share shard events ++ if handed shard events e then [e] else [] :=
  List.filterAlong_append_singleton _ _ _

/-- The front map knows under which instrument each order id was last seen. -/
def Knows (orderToInstrument : UnorderedMap UInt64 UInt32) (events : List MarketDataEvent) : Prop :=
  ∀ id, id ≠ 0 → (orderToInstrument.find? id).getD 0 = lastSeen events id

theorem Knows.see {orderToInstrument : UnorderedMap UInt64 UInt32} {events : List MarketDataEvent}
    (knows : Knows orderToInstrument events) (e : MarketDataEvent) :
    Knows (see orderToInstrument e) (events ++ [e]) := by
  intro id numbered
  rw [lastSeen_append_singleton, ShardedOrderBookRouter.see]
  split
  · next both =>
    rw [UnorderedMap.find?_assign]
    by_cases here : id = e.orderId
    · rw [if_pos here, if_pos ⟨here.symm, both.1⟩, Option.getD_some]
    · rw [if_neg here, if_neg fun same => here same.1.symm, knows id numbered]
  · next notBoth =>
    rw [if_neg, knows id numbered]
    rintro ⟨rfl, given⟩
    exact notBoth ⟨given, numbered⟩

theorem Knows.lookUp {orderToInstrument : UnorderedMap UInt64 UInt32} {events : List MarketDataEvent}
    (knows : Knows orderToInstrument events) (e : MarketDataEvent) :
    lookUp (ShardedOrderBookRouter.see orderToInstrument e) e = found events e := by
  rw [ShardedOrderBookRouter.lookUp, found]
  by_cases noId : e.orderId = 0
  · rw [if_pos noId, if_neg (not_not.mpr noId)]
    split
    · rfl
    · next none => exact (not_not.mp none).symm
  · rw [if_neg noId, if_pos noId, knows.see e e.orderId noId, lastSeen_append_self]
    split
    · next given => rw [instrumentOf, if_pos given]
    · rfl

/-- What the front has made of the events so far. -/
structure Front [NeZero NumShards] (state : State BookType NumShards) : Prop where
  shares : ∀ i, eventsOf (state.pushed i) = share i state.applied
  knows : Knows state.router.orderToInstrument state.applied
  log : state.router.anomalies = { router := (state.applied.filterAlong lost).map fun e => (.unresolvedInstrument, e) }

theorem Flow.other (flow : Flow state) (caller : Caller) (applied : List MarketDataEvent)
    (orderToInstrument : UnorderedMap UInt64 UInt32) (anomalies : BookAnomalyLog) :
    Flow { state with
      router.orderToInstrument := orderToInstrument
      router.anomalies := anomalies
      caller := caller
      applied := applied } :=
  ⟨flow.whole, flow.routers, flow.fulfilled, flow.own, flow.older, flow.opened, flow.finished⟩

/-- What the calling thread may rely on. -/
def Phase (state : State BookType NumShards) : Prop :=
  match state.caller with
  | .idle => state.router.closed = true → ∀ i, state.workers i = .finished
  | .syncing shard => state.router.closed = false ∧
    ∀ i, (i.val < shard → Flushing state i) ∧ (shard ≤ i.val → .promise state.round i ∉ state.pushed i)
  | .waiting shard => state.router.closed = false ∧ ∀ i, Flushing state i ∧ (i.val < shard → CaughtUp state i)
  | .reading _ => (∀ i, CaughtUp state i) ∧ (state.router.closed = true → ∀ i, state.workers i = .finished)
  | .closing _ => state.router.closed = true
  | .joining shard => ∀ i, i.val < shard → state.workers i = .finished
  | .threw _ => True

structure Invariant [NeZero NumShards] (state : State BookType NumShards) : Prop where
  flow : Flow state
  front : (∀ error, state.caller ≠ .threw error) → Front state
  phase : Phase state

namespace Invariant

variable [NeZero NumShards]

theorem initial : Invariant ({} : State BookType NumShards) where
  flow := .initial
  front _ := ⟨fun _ => rfl, fun _ _ => rfl, rfl⟩
  phase isClosed := by contradiction

theorem work (holds : Invariant state) (step : work state shard = some after) : Invariant after := by
  have unmoved := unmoved_work step
  refine ⟨holds.flow.work step, fun noError => ?_, ?_⟩
  · rw [unmoved.caller] at noError
    have front := holds.front noError
    refine ⟨fun i => ?_, ?_, ?_⟩
    · rw [unmoved.pushed, unmoved.applied]
      exact front.shares i
    · rw [unmoved.seen, unmoved.applied]
      exact front.knows
    · rw [unmoved.anomalies, unmoved.applied]
      exact front.log
  · have phase := holds.phase
    cases isCaller : state.caller <;>
      simp only [Phase, Flushing, isCaller, unmoved.caller, unmoved.closed, unmoved.round, unmoved.pushed] at phase ⊢
    case idle => exact fun isClosed i => finished_work step (phase isClosed i)
    case syncing => exact phase
    case waiting =>
      exact ⟨phase.1, fun i => ⟨(phase.2 i).1, fun before => holds.flow.caughtUp_work step ((phase.2 i).2 before)⟩⟩
    case reading =>
      exact ⟨fun i => holds.flow.caughtUp_work step (phase.1 i), fun isClosed i =>
        finished_work step (phase.2 isClosed i)⟩
    case closing => exact phase
    case joining => exact fun i before => finished_work step (phase i before)

/-- A call of `apply`: the event goes to its shard, or is lost, or the queue is closed. -/
theorem applyImpl (holds : Invariant state) (isIdle : state.caller = .idle) (e : MarketDataEvent) :
    Invariant (applyImpl state e) := by
  have phase := holds.phase
  have front := holds.front (by simp [isIdle])
  simp only [Phase, isIdle] at phase
  by_cases isLost : found state.applied e = 0 ∧ e.orderId ≠ 0
  · have stays : ShardedOrderBookRouter.applyImpl state e = { state with
        router.orderToInstrument := see state.router.orderToInstrument e
        router.anomalies := state.router.anomalies.logRouter .unresolvedInstrument e
        applied := state.applied ++ [e] } := by
      simp only [ShardedOrderBookRouter.applyImpl, front.knows.lookUp, if_pos isLost]
    have lostHere : lost state.applied e = true := decide_eq_true isLost
    rw [stays]
    refine ⟨holds.flow.other _ _ _ _, fun _ => ⟨fun i => ?_, front.knows.see e, ?_⟩, ?_⟩
    · have notHanded : handed i state.applied e = false := by simp [handed, lostHere]
      rw [share_append_singleton, notHanded, if_neg Bool.false_ne_true, List.append_nil]
      exact front.shares i
    · rw [List.filterAlong_append_singleton, if_pos lostHere, List.map_append, front.log]
      rfl
    · simpa only [Phase, isIdle] using phase
  · have isFound : lost state.applied e = false := decide_eq_false isLost
    let informed : State BookType NumShards := { state with
      router.orderToInstrument := see state.router.orderToInstrument e }
    cases isOpen : (state.router.queues (shardOf NumShards (found state.applied e))).closed with
    | false =>
      have accepted : push informed _ (.event e) = .ok _ := push_of_open isOpen
      have pushes : ShardedOrderBookRouter.applyImpl state e =
          { pushedTo informed (shardOf NumShards (found state.applied e)) (.event e) with
            applied := state.applied ++ [e] } := by
        simp only [informed] at accepted
        simp only [ShardedOrderBookRouter.applyImpl, front.knows.lookUp, if_neg isLost, accepted]
        rfl
      have flow : Flow (pushedTo informed _ (.event e)) :=
        (holds.flow.other state.caller state.applied _ state.router.anomalies).push isOpen nofun
      rw [pushes]
      refine ⟨flow.other _ _ _ _, fun _ => ⟨fun i => ?_, front.knows.see e, ?_⟩, ?_⟩
      · rw [share_append_singleton]
        simp only [pushedTo, Function.update_apply]
        split
        · next here =>
          have isHanded : handed i state.applied e = true := by simp [handed, isFound, here]
          rw [eventsOf_append_event, if_pos isHanded, ← here]
          exact congrArg (· ++ [e]) (front.shares i)
        · next apart =>
          have notHanded : handed i state.applied e = false := by simp [handed, isFound, Ne.symm apart]
          rw [notHanded, if_neg Bool.false_ne_true, List.append_nil]
          exact front.shares i
      · rw [List.filterAlong_append_singleton, isFound, if_neg Bool.false_ne_true, List.append_nil]
        exact front.log
      · simpa only [Phase, pushedTo, informed, isIdle] using phase
    | true =>
      have refused : push informed _ (.event e) = .error _ := push_of_closed isOpen
      have throws : ShardedOrderBookRouter.applyImpl state e =
          { informed with caller := .threw "BlockingQueue::push: queue is closed" } := by
        simp only [informed] at refused
        simp only [ShardedOrderBookRouter.applyImpl, front.knows.lookUp, if_neg isLost, refused, informed]
      rw [throws]
      exact ⟨holds.flow.other _ _ _ _, fun noError => absurd rfl (noError _), trivial⟩

/-- A snapshot begins its `sync_all`, or finds all workers at their end. -/
theorem snapshot (holds : Invariant state) (isIdle : state.caller = .idle) : Invariant (snapshot state) := by
  have phase := holds.phase
  have front := holds.front (by simp [isIdle])
  have flow := holds.flow
  simp only [Phase, isIdle] at phase
  unfold ShardedOrderBookRouter.snapshot
  split
  · next isClosed =>
    have finished := phase isClosed
    exact ⟨flow.other _ _ _ _, fun _ => ⟨front.shares, front.knows, front.log⟩,
      fun i => flow.caughtUp_of_finished (finished i), fun _ => finished⟩
  · next isOpen =>
    refine ⟨⟨flow.whole, flow.routers, flow.fulfilled, flow.own, ?_, flow.opened, flow.finished⟩,
      fun _ => ⟨front.shares, front.knows, front.log⟩, Bool.not_eq_true _ ▸ isOpen,
      fun i => ⟨fun before => ?_, fun _ isIn => ?_⟩⟩
    · exact fun i round j isIn => Nat.le_succ_of_le (flow.older i round j isIn)
    · exact absurd before (Nat.not_lt_zero _)
    · exact absurd (flow.older i _ _ isIn) (Nat.not_succ_le_self _)

theorem close (holds : Invariant state) (isIdle : state.caller = .idle) : Invariant (close state) := by
  have front := holds.front (by simp [isIdle])
  have flow := holds.flow
  unfold ShardedOrderBookRouter.close
  split
  · exact holds
  · exact ⟨⟨flow.whole, flow.routers, flow.fulfilled, flow.own, flow.older, nofun, flow.finished⟩,
      fun _ => ⟨front.shares, front.knows, front.log⟩, rfl⟩

/-- `sync_all` gives the next queue its promise. -/
theorem promise (holds : Invariant state) {next : ℕ} (isSyncing : state.caller = .syncing next)
    (inside : next < NumShards) :
    Invariant { pushedTo state ⟨next, inside⟩ (.promise state.round ⟨next, inside⟩) with
      caller := .syncing (next + 1) } := by
  have phase := holds.phase
  have front := holds.front (by simp [isSyncing])
  simp only [Phase, isSyncing] at phase
  obtain ⟨isOpen, phase⟩ := phase
  have named : ∀ round j, ShardItem.promise state.round ⟨next, inside⟩ = .promise round j →
      j = ⟨next, inside⟩ ∧ round ≤ state.round := by
    intro round j same
    injection same with sameRound sameShard
    exact ⟨sameShard.symm, sameRound.symm.le⟩
  have flow := holds.flow.push (holds.flow.opened isOpen ⟨next, inside⟩) named
  refine ⟨flow.other _ _ _ _, fun _ => ⟨fun i => ?_, front.knows, front.log⟩, isOpen, fun i => ?_⟩
  · refine Eq.trans ?_ (front.shares i)
    simp only [pushedTo, Function.update_apply]
    split
    · next here => rw [here, eventsOf_append_promise]
    · rfl
  · by_cases here : i = ⟨next, inside⟩
    · subst here
      refine ⟨fun _ => ⟨state.pushed _, ?_, (phase _).2 (Nat.le_refl _)⟩, fun past =>
        absurd past (Nat.not_succ_le_self _)⟩
      simp only [pushedTo, Function.update_self]
    · have apart : i.val ≠ next := fun same => here (Fin.ext same)
      have unchanged :
          (pushedTo state ⟨next, inside⟩ (.promise state.round ⟨next, inside⟩)).pushed i = state.pushed i := by
        simp only [pushedTo, Function.update_of_ne here]
      simp only [Flushing, unchanged]
      exact ⟨fun before => (phase i).1 (by omega), fun past => (phase i).2 (by omega)⟩

theorem call (holds : Invariant state) (step : call state = some after) : Invariant after := by
  have phase := holds.phase
  have flow := holds.flow
  unfold ShardedOrderBookRouter.call at step
  cases isCaller : state.caller <;> simp only [Phase, isCaller] at phase step
  case idle => contradiction
  case syncing next =>
    have front := holds.front (by simp [isCaller])
    split at step
    · next inside =>
      rw [push_of_open (flow.opened phase.1 ⟨next, inside⟩)] at step
      obtain rfl := Option.some.inj step
      exact holds.promise isCaller inside
    · next past =>
      obtain rfl := Option.some.inj step
      refine ⟨flow.other _ _ _ _, fun _ => ⟨front.shares, front.knows, front.log⟩, phase.1, fun i => ⟨?_, ?_⟩⟩
      · exact (phase.2 i).1 (Nat.lt_of_lt_of_le i.isLt (Nat.le_of_not_lt past))
      · exact fun before => absurd before (Nat.not_lt_zero _)
  case waiting next =>
    have front := holds.front (by simp [isCaller])
    split at step
    · next inside =>
      split at step
      · next isFulfilled =>
        obtain rfl := Option.some.inj step
        refine ⟨flow.other _ _ _ _, fun _ => ⟨front.shares, front.knows, front.log⟩,
          phase.1, fun i => ⟨(phase.2 i).1, ?_⟩⟩
        intro before
        rcases Nat.lt_succ_iff_lt_or_eq.mp before with earlier | here
        · exact (phase.2 i).2 earlier
        · obtain rfl : i = ⟨next, inside⟩ := Fin.ext here
          exact flow.caughtUp_of_fulfilled (phase.2 _).1 isFulfilled
      · contradiction
    · next past =>
      obtain rfl := Option.some.inj step
      refine ⟨flow.other _ _ _ _, fun _ => ⟨front.shares, front.knows, front.log⟩, fun i => ?_, fun isClosed => ?_⟩
      · exact (phase.2 i).2 (Nat.lt_of_lt_of_le i.isLt (Nat.le_of_not_lt past))
      · exact absurd (phase.1.symm.trans isClosed) Bool.false_ne_true
  case reading next =>
    have front := holds.front (by simp [isCaller])
    split at step <;> obtain rfl := Option.some.inj step
    · exact ⟨flow.other _ _ _ _, fun _ => ⟨front.shares, front.knows, front.log⟩, phase⟩
    · exact ⟨flow.other _ _ _ _, fun _ => ⟨front.shares, front.knows, front.log⟩, phase.2⟩
  case closing next =>
    have front := holds.front (by simp [isCaller])
    split at step <;> obtain rfl := Option.some.inj step
    · next inside =>
      refine ⟨⟨fun i => ?_, flow.routers, flow.fulfilled, flow.own, flow.older, ?_, fun i isFinished => ?_⟩,
        fun _ => ⟨front.shares, front.knows, front.log⟩, phase⟩
      · refine (flow.whole i).trans ?_
        simp only [Function.update_apply]
        split
        · next here => rw [here, BlockingQueue.closeImpl]
        · rfl
      · exact fun isOpen => absurd (isOpen.symm.trans phase) Bool.false_ne_true
      · simp only [Function.update_apply]
        split
        · next here => exact ⟨here ▸ (flow.finished i isFinished).1, rfl⟩
        · exact flow.finished i isFinished
    · exact ⟨flow.other _ _ _ _, fun _ => ⟨front.shares, front.knows, front.log⟩,
        fun _ before => absurd before (Nat.not_lt_zero _)⟩
  case joining next =>
    have front := holds.front (by simp [isCaller])
    split at step
    · next inside =>
      split at step
      · next isFinished =>
        obtain rfl := Option.some.inj step
        refine ⟨flow.other _ _ _ _, fun _ => ⟨front.shares, front.knows, front.log⟩, fun i before => ?_⟩
        rcases Nat.lt_succ_iff_lt_or_eq.mp before with earlier | here
        · exact phase i earlier
        · obtain rfl : i = ⟨next, inside⟩ := Fin.ext here
          exact isFinished
      · contradiction
    · next past =>
      obtain rfl := Option.some.inj step
      refine ⟨flow.other _ _ _ _, fun _ => ⟨front.shares, front.knows, front.log⟩, fun _ i => ?_⟩
      exact phase i (Nat.lt_of_lt_of_le i.isLt (Nat.le_of_not_lt past))
  case threw => contradiction

/-- Every step keeps the invariant. -/
theorem move (holds : Invariant state) {choice : Move NumShards} (step : move state choice = some after) :
    Invariant after := by
  cases choice <;> simp only [ShardedOrderBookRouter.move] at step
  case apply e =>
    split at step
    · next isIdle => exact Option.some.inj step ▸ holds.applyImpl isIdle e
    · contradiction
  case snapshot =>
    split at step
    · next isIdle => exact Option.some.inj step ▸ holds.snapshot isIdle
    · contradiction
  case close =>
    split at step
    · next isIdle => exact Option.some.inj step ▸ holds.close isIdle
    · contradiction
  case call => exact holds.call step
  case work shard => exact holds.work step

end Invariant

theorem invariant_reachable [NeZero NumShards] (reached : (system BookType NumShards).Reachable state) :
    Invariant state := by
  apply reached.invariant
  · rintro _ rfl
    exact .initial
  · rintro before after holds ⟨choice, step⟩
    exact holds.move step

end BackTester.ShardedOrderBookRouter
