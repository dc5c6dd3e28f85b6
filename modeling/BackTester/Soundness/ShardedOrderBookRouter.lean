import BackTester.Proofs.OrderBook.ShardedOrderBookRouter
import BackTester.Soundness.SimpleOrderBookRouter

/-! # The sharded router and the simple one

A shard sees a part of the events only, but of an order id that the front resolved to one of its
instruments it has seen the last event that named one. So it finds the instrument that the front
found, and the books of all shards together are those of the simple router.
-/

namespace BackTester.ShardedOrderBookRouter

open Routing SimpleOrderBookRouter

variable {BookType : Type} [OrderBook BookType] {NumShards : ℕ} [NeZero NumShards] {state : State BookType NumShards}
  {shard : Fin NumShards} {prior events : List MarketDataEvent} {e : MarketDataEvent} {id : UInt64} {X : UInt32}

theorem found_of_given (given : e.instrumentId ≠ 0) : found prior e = e.instrumentId := by
  rw [found, instrumentOf, if_pos given, ite_self]

theorem found_of_numbered (numbered : e.orderId ≠ 0) : found prior e = resolved prior e := by
  rw [found, resolved, if_neg numbered, if_neg numbered]

theorem handed_iff : handed shard prior e ↔ ¬(found prior e = 0 ∧ e.orderId ≠ 0) ∧
    shardOf NumShards (found prior e) = shard := by
  rw [handed, lost, decide_eq_true_iff, decide_eq_true_iff]

/-- The instrument of an order id was last named in the shard of the instrument. -/
theorem lastSeen_share (given : lastSeen prior id ≠ 0) (isShard : shardOf NumShards (lastSeen prior id) = shard) :
    lastSeen (share shard prior) id = lastSeen prior id := by
  induction prior using List.reverseRecOn with
  | nil => rfl
  | append_singleton prior e ih =>
    rw [lastSeen_append_singleton] at given isShard ⊢
    rw [share_append_singleton]
    by_cases here : e.orderId = id ∧ e.instrumentId ≠ 0
    · rw [if_pos here] at isShard ⊢
      have isHanded : handed shard prior e := by
        rw [handed_iff, found_of_given here.2]
        exact ⟨fun lost => here.2 lost.1, isShard⟩
      rw [if_pos isHanded, lastSeen_append_singleton, if_pos here]
    · rw [if_neg here] at given isShard ⊢
      split
      · rw [lastSeen_append_singleton, if_neg here, ih given isShard]
      · rw [List.append_nil, ih given isShard]

/-- A shard resolves the events that it is handed as a router that sees all events. -/
theorem resolved_share (numbered : e.orderId ≠ 0) (isHanded : handed shard prior e) :
    resolved (share shard prior) e = resolved prior e := by
  obtain ⟨notLost, isShard⟩ := handed_iff.mp isHanded
  rw [found_of_numbered numbered] at notLost isShard
  rw [resolved, if_neg numbered] at notLost isShard ⊢
  rw [resolved, if_neg numbered]
  unfold instrumentOf at notLost isShard ⊢
  split
  · rfl
  · next none =>
    rw [if_neg none] at notLost isShard
    exact lastSeen_share (fun zero => notLost ⟨zero, numbered⟩) isShard

theorem unresolved_share (numbered : e.orderId ≠ 0) (isHanded : handed shard prior e) :
    unresolved (share shard prior) e = false := by
  rw [unresolved, decide_eq_false_iff_not, resolved_share numbered isHanded, ← found_of_numbered numbered]
  exact (handed_iff.mp isHanded).1

theorem sent_share (numbered : e.orderId ≠ 0) (isHanded : handed shard prior e) :
    sent X (share shard prior) e = sent X prior e := by
  rw [sent, sent, unresolved, unresolved, resolved_share numbered isHanded]

/-- What is sent to a book is handed to the shard of its instrument. -/
theorem handed_of_sent (numbered : e.orderId ≠ 0) (isSent : sent X prior e) : handed (shardOf NumShards X) prior e := by
  rw [sent, unresolved, decide_eq_true_iff, decide_eq_true_iff] at isSent
  rw [handed_iff, found_of_numbered numbered]
  exact ⟨isSent.2, congrArg _ isSent.1⟩

theorem shardOf_of_sent (numbered : e.orderId ≠ 0) (isSent : sent X prior e) (isHanded : handed shard prior e) :
    shardOf NumShards X = shard := by
  rw [sent, decide_eq_true_iff] at isSent
  rw [handed_iff, found_of_numbered numbered, isSent.1] at isHanded
  exact isHanded.2

/-- Each book gets its events in the shard of its instrument, and none in the others. -/
theorem delivered_share (X : UInt32) (shard : Fin NumShards) (numbered : ∀ e ∈ events, e.orderId ≠ 0) :
    delivered X (share shard events) = if shardOf NumShards X = shard then delivered X events else [] := by
  induction events using List.reverseRecOn with
  | nil => exact (ite_self _).symm
  | append_singleton events e ih =>
    have ih := ih fun e isIn => numbered e (List.mem_append_left _ isIn)
    have numbered := numbered e (List.mem_append_right _ (List.mem_singleton_self e))
    rw [share_append_singleton, delivered_append_singleton]
    by_cases isHanded : handed shard events e
    · rw [if_pos isHanded, delivered_append_singleton, sent_share numbered isHanded, ih]
      split
      · rfl
      · next elsewhere =>
          rw [if_neg fun isSent => elsewhere (shardOf_of_sent numbered isSent isHanded), List.append_nil]
    · rw [if_neg isHanded, List.append_nil, ih]
      split
      · next here => rw [if_neg fun isSent => isHanded (here ▸ handed_of_sent numbered isSent), List.append_nil]
      · rfl

theorem unresolved_along_share (shard : Fin NumShards) (numbered : ∀ e ∈ events, e.orderId ≠ 0) :
    (share shard events).filterAlong unresolved = [] := by
  induction events using List.reverseRecOn with
  | nil => rfl
  | append_singleton events e ih =>
    have ih := ih fun e isIn => numbered e (List.mem_append_left _ isIn)
    have numbered := numbered e (List.mem_append_right _ (List.mem_singleton_self e))
    rw [share_append_singleton]
    split
    · next isHanded =>
      rw [List.filterAlong_append_singleton, ih, unresolved_share numbered isHanded]
      rfl
    · rw [List.append_nil, ih]

theorem lost_eq_unresolved (numbered : ∀ e ∈ events, e.orderId ≠ 0) :
    events.filterAlong lost = events.filterAlong unresolved := by
  apply List.filterAlong_congr
  intro n e here
  rw [lost, unresolved, found_of_numbered (numbered e (List.mem_of_getElem? here))]

/-- The maps of the shards are disjoint, and together they are one map. -/
structure Partition (shards : Fin NumShards → UnorderedMap UInt32 BookType)
    (whole : UnorderedMap UInt32 BookType) : Prop where
  disjoint : ∀ i j X book, (shards i).find? X = some book → j ≠ i → (shards j).find? X = none
  union : ∀ X book, whole.find? X = some book ↔ ∃ i, (shards i).find? X = some book

/-- The shards have the books of the simple router, and the front has logged what that one has. -/
structure Agrees (router : ShardedOrderBookRouter BookType NumShards)
    (simple : SimpleOrderBookRouter BookType) : Prop where
  books : Partition (fun i => (router.shardRouters i).orderBooks) simple.orderBooks
  log : router.anomalies = simple.anomalies
  silent : ∀ i, (router.shardRouters i).anomalies = {}

/-- The calling thread reads the shards for a snapshot, or `close` has returned. -/
def AtSnapshotOrClosed (state : State BookType NumShards) : Prop :=
  (∃ shard, state.caller = .reading shard) ∨ state.caller = .idle ∧ state.router.closed = true

theorem Invariant.caughtUp (holds : Invariant state) (still : AtSnapshotOrClosed state) (i : Fin NumShards) :
    CaughtUp state i := by
  have phase := holds.phase
  rcases still with ⟨next, isReading⟩ | ⟨isIdle, isClosed⟩
  · simp only [Phase, isReading] at phase
    exact phase.1 i
  · simp only [Phase, isIdle] at phase
    exact holds.flow.caughtUp_of_finished (phase isClosed i)

/-- At every snapshot and after `close` the shards agree with a simple router that has applied the same events. -/
theorem agrees_of_reachable (reached : (system BookType NumShards).Reachable state)
    (numbered : ∀ e ∈ state.applied, e.orderId ≠ 0) (still : AtSnapshotOrClosed state) :
    Agrees state.router (run state.applied) := by
  have holds := invariant_reachable reached
  have noError (error : String) : state.caller ≠ .threw error := by
    rcases still with ⟨next, isReading⟩ | ⟨isIdle, -⟩
    · simp [isReading]
    · simp [isIdle]
  have front := holds.front noError
  have simple : Follows (run state.applied : SimpleOrderBookRouter BookType) state.applied := follows_run _
  have shards (i : Fin NumShards) : Follows (state.router.shardRouters i) (share i state.applied) := by
    rw [holds.flow.routers, holds.caughtUp still i, front.shares]
    exact follows_run _
  have books (i : Fin NumShards) (X : UInt32) : (state.router.shardRouters i).orderBooks.find? X =
      if shardOf NumShards X = i then (run state.applied : SimpleOrderBookRouter BookType).orderBooks.find? X
      else none := by
    rw [(shards i).books, simple.books, delivered_share X i numbered]
    split
    · rfl
    · exact if_pos rfl
  refine ⟨⟨fun i j X book here apart => ?_, fun X book => ⟨fun here => ?_, ?_⟩⟩, ?_, fun i => ?_⟩
  · rw [books] at here ⊢
    split at here
    · next isShard => rw [if_neg fun isOther => apart (isOther.symm.trans isShard)]
    · contradiction
  · refine ⟨shardOf NumShards X, ?_⟩
    rw [books, if_pos rfl, here]
  · rintro ⟨i, here⟩
    rw [books] at here
    split at here
    · exact here
    · contradiction
  · rw [front.log, simple.log, lost_eq_unresolved numbered]
  · rw [(shards i).log, unresolved_along_share i numbered]
    rfl

/-- An order moves from a book of one shard to a book of the other, and is cancelled there by its id alone. -/
def movedAndCancelled : List MarketDataEvent :=
  [{ instrumentId := 7, orderId := 1, side := .buy, price := 100, size := 10, action := .add },
    { instrumentId := 8, orderId := 1, side := .buy, price := 100, size := 10, action := .add },
    { orderId := 1, action := .cancel }]

/-- One event is dealt with before the snapshot, the others during its `sync_all`. -/
def schedule : List (Move 2) :=
  List.append (movedAndCancelled.map Move.apply) [.work 0, .work 0, .snapshot, .call,
    .call, .call, .work 0, .work 0, .work 0, .work 0, .work 1, .work 1, .work 1, .work 1, .call, .call, .call]

theorem agrees_of_reachable_schedule : ∃ state : State AbseilOrderBook 2, state.applied = movedAndCancelled ∧
    state.caller = .reading 0 ∧ Agrees state.router (run state.applied) := by
  have run : (schedule.foldlM (fun state choice => move state choice) ({} : State AbseilOrderBook 2)).map
      (fun state => (state.applied, state.caller)) = some (movedAndCancelled, .reading 0) := by decide +kernel
  obtain ⟨state, reaches, ends⟩ := Option.map_eq_some_iff.mp run
  obtain ⟨applied, isReading⟩ := Prod.mk.inj ends
  have numbered : ∀ e ∈ movedAndCancelled, e.orderId ≠ 0 := by decide
  exact ⟨state, applied, isReading,
    agrees_of_reachable (TransitionSystem.reachable_ofMoves schedule reaches) (applied ▸ numbered)
    (.inl ⟨0, isReading⟩)⟩

end BackTester.ShardedOrderBookRouter
