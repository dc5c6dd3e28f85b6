import BackTester.Model.OrderBook.AnomalySummary
import BackTester.Soundness.AnomalyCounts
import BackTester.Soundness.RouterOutput

/-! # Soundness of the anomaly summary

What a router logs is a matter of the events: an event is an anomaly for the orders that rest in the
book of its instrument when it comes, or its instrument is unknown. The shards log the same,
whatever the schedule, and the summary counts it.
-/

namespace BackTester

open LimitOrderBook Routing SimpleOrderBookRouter

variable {events : List MarketDataEvent} {e : MarketDataEvent} {kind : BookAnomaly}
  {router : SimpleOrderBookRouter BookInOrder}

instance : LogsAnomalies BookInOrder := ⟨fun sound => LogsAnomalies.logged sound.book⟩

/-- The events of the calls of one kind. -/
def BookAnomalyLog.eventsOf (log : BookAnomalyLog) (kind : BookAnomaly) : List MarketDataEvent :=
  (log.book.filter fun line => line.1 = kind).map fun line => line.2.1

/-- The event reaches a book, and is an anomaly for the orders that rest there. -/
def anomalousBehind (kind : BookAnomaly) (prior : List MarketDataEvent) (e : MarketDataEvent) : Bool :=
  ¬unresolved prior e ∧ Anomalous (ReferenceBook.run (delivered (resolved prior e) prior)) e kind

/-- The log has the anomalies of the events: those of books up to order, those of the router as they came. -/
structure LogsAll (log : BookAnomalyLog) (events : List MarketDataEvent) : Prop where
  books : ∀ kind, (log.eventsOf kind).Perm (events.filterAlong (anomalousBehind kind))
  component : ∀ line ∈ log.book, line.2.2 = "LimitOrderBook"
  router : log.router = (events.filterAlong unresolved).map fun e => (.unresolvedInstrument, e)

theorem bookCount_eq_length (log : BookAnomalyLog) (kind : BookAnomaly) :
    log.bookCount kind = (log.eventsOf kind).length := by
  rw [BookAnomalyLog.eventsOf, List.length_map, BookAnomalyLog.bookCount, List.countP_eq_length_filter]

/-- The summary is a matter of the events. -/
theorem LogsAll.writeSummary_eq {log other : BookAnomalyLog} (all : LogsAll log events)
    (otherAll : LogsAll other events) :
    log.writeSummary = other.writeSummary := by
  have counts (kind : BookAnomaly) : log.bookCount kind = other.bookCount kind := by
    rw [bookCount_eq_length, bookCount_eq_length]
    exact ((all.books kind).trans (otherAll.books kind).symm).length_eq
  have routers (kind : RouterAnomaly) : log.routerCount kind = other.routerCount kind := by
    rw [BookAnomalyLog.routerCount, BookAnomalyLog.routerCount, all.router, otherAll.router]
  unfold BookAnomalyLog.writeSummary
  rw [counts, counts, counts, counts, routers]

/-- One more event logs at most one more line. -/
theorem logged_apply (events : List MarketDataEvent) (e : MarketDataEvent) :
    LogsAnomalies.logged (OrderBook.apply (OrderBook.fed BookInOrder events) e) =
      LogsAnomalies.logged (OrderBook.fed BookInOrder events) ++
        ((PriorityBook.run events).anomaly? e).toList.map fun kind => (kind, e, "LimitOrderBook") := by
  obtain ⟨book, run, -, log⟩ := run_applyImpl (holds_fed events) e
  have isBook : (OrderBook.apply (OrderBook.fed BookInOrder events) e).book = book := by
    change (((applyImpl e).run (OrderBook.fed BookInOrder events).book).get _).2 = book
    simp only [run, Option.get_some]
  change (OrderBook.apply (OrderBook.fed BookInOrder events) e).book.anomalies.book = _
  rw [isBook, log, PriorityBook.run]
  cases (events.foldl PriorityBook.step ∅).anomaly? e with
  | none => exact (List.append_nil _).symm
  | some kind => rfl

theorem orderBooks_applyImpl (follows : Follows router events) (e : MarketDataEvent) :
    (router.applyImpl e).orderBooks = if unresolved events e then router.orderBooks else
      router.orderBooks.assign (resolved events e) (OrderBook.apply (router.bookFor (resolved events e)) e) := by
  -- what the router has looked up is left in its map
  have looksUp := (follows.applyImpl e).seen e.orderId
  rw [lastSeen_append_self, ← resolved] at looksUp
  let seen := if e.instrumentId ≠ 0 ∧ e.orderId ≠ 0 then router.orderToInstrument.assign e.orderId e.instrumentId
    else router.orderToInstrument
  have unfolded : router.applyImpl e =
      if (seen.find? e.orderId).getD 0 = 0 ∧ e.orderId ≠ 0 then
        { router with
          orderToInstrument := seen.assign e.orderId ((seen.find? e.orderId).getD 0)
          anomalies := router.anomalies.logRouter .unresolvedInstrument e }
      else
        { router with
          orderToInstrument := seen.assign e.orderId ((seen.find? e.orderId).getD 0)
          orderBooks := router.orderBooks.assign ((seen.find? e.orderId).getD 0)
            (OrderBook.apply (router.bookFor ((seen.find? e.orderId).getD 0)) e) } := rfl
  have found : (seen.find? e.orderId).getD 0 = resolved events e := by
    rw [← looksUp, unfolded]
    split <;> rw [UnorderedMap.find?_assign, if_pos rfl, Option.getD_some]
  rw [unfolded, found, unresolved]
  simp only [decide_eq_true_iff]
  split <;> rfl

/-- The lines of a book and those of the books of other instruments. -/
theorem booksLogged_perm (router : SimpleOrderBookRouter BookInOrder) (X : UInt32) : router.booksLogged.Perm
    (LogsAnomalies.logged (router.bookFor X) ++ (router.orderBooks.remove X).values.flatMap LogsAnomalies.logged) := by
  cases found : router.orderBooks.find? X with
  | none =>
    rw [bookFor, found]
    exact ((UnorderedMap.values_perm_remove_of_none found).symm.flatMap_right _)
  | some book =>
    rw [bookFor, found]
    exact (UnorderedMap.values_perm_remove found).flatMap_right _

/-- One more event logs a line if it is an anomaly for its book. -/
theorem booksLogged_applyImpl (follows : Follows router events) (e : MarketDataEvent) :
    (router.applyImpl e).booksLogged.Perm
    (router.booksLogged ++ if unresolved events e then [] else
      ((PriorityBook.run (delivered (resolved events e) events)).anomaly? e).toList.map fun kind =>
        (kind, e, "LimitOrderBook")) := by
  rw [booksLogged, orderBooks_applyImpl follows]
  split
  · rw [List.append_nil]
    exact List.Perm.refl _
  · rw [UnorderedMap.values_assign, List.flatMap_cons, follows.bookFor, logged_apply, List.append_assoc]
    refine ((List.Perm.refl _).append List.perm_append_comm).trans ?_
    rw [← List.append_assoc, ← follows.bookFor]
    exact (booksLogged_perm router _).symm.append_right _

/-- The line is of this kind just where the event is an anomaly of this kind. -/
theorem line_iff (events : List MarketDataEvent) (e : MarketDataEvent) (kind : BookAnomaly) :
    (((if unresolved events e then [] else
      ((PriorityBook.run (delivered (resolved events e) events)).anomaly? e).toList.map fun kind =>
        (kind, e, "LimitOrderBook")).filter
        fun line => line.1 = kind).map fun line => line.2.1) = if anomalousBehind kind events e then [e] else [] := by
  have exactly := anomaly?_eq_some (PriorityBook.matches_run (delivered (resolved events e) events)) e kind
  rw [anomalousBehind]
  cases isLost : unresolved events e with
  | true => simp
  | false =>
    simp only [Bool.false_eq_true, not_false_eq_true, true_and, if_false, ← exactly]
    cases (PriorityBook.run (delivered (resolved events e) events)).anomaly? e with
    | none => simp
    | some logged => by_cases same : logged = kind <;> simp [same]

theorem logsAll_run (events : List MarketDataEvent) :
    LogsAll (run events : SimpleOrderBookRouter BookInOrder).anomalyLog events := by
  induction events using List.reverseRecOn with
  | nil => exact ⟨fun _ => List.Perm.refl _, fun line inside => absurd inside List.not_mem_nil, rfl⟩
  | append_singleton events e ih =>
    have follows : Follows (run events : SimpleOrderBookRouter BookInOrder) events := follows_run events
    have lines := booksLogged_applyImpl follows e
    rw [← run_append_singleton] at lines
    have log : (run (events ++ [e]) : SimpleOrderBookRouter BookInOrder).anomalies = _ :=
      (follows_run (events ++ [e])).log
    refine ⟨fun kind => ?_, fun line inside => ?_, congrArg BookAnomalyLog.router log⟩
    · have perm := (lines.filter fun line => line.1 = kind).map fun line => line.2.1
      rw [List.filter_append, List.map_append, line_iff] at perm
      rw [List.filterAlong_append_singleton]
      exact perm.trans ((ih.books kind).append_right _)
    · rcases List.mem_append.mp (lines.mem_iff.mp inside) with earlier | isNew
      · exact ih.component line earlier
      · split at isNew
        · contradiction
        · obtain ⟨kind, -, rfl⟩ := List.mem_map.mp isNew
          rfl

namespace ShardedOrderBookRouter

variable {NumShards : ℕ} [NeZero NumShards] {state : State BookInOrder NumShards}

/-- The front knows of the events without an instrument, and keeps them from the shards. -/
theorem unresolved_of_reachable (reached : (system BookInOrder NumShards).Reachable state)
    (numbered : ∀ e ∈ state.applied, e.orderId ≠ 0) (still : AtSnapshotOrClosed state) :
    state.router.anomalies.router = (state.applied.filterAlong unresolved).map (fun e => (.unresolvedInstrument, e)) ∧
      ∀ i, (state.router.shardRouters i).anomalies.router = [] := by
  have holds := invariant_reachable reached
  have noError (error : String) : state.caller ≠ .threw error := by
    rcases still with ⟨next, isReading⟩ | ⟨isIdle, -⟩
    · simp [isReading]
    · simp [isIdle]
  have front := holds.front noError
  refine ⟨?_, fun i => ?_⟩
  · rw [front.log, lost_eq_unresolved numbered]
  · have shard : Follows (state.router.shardRouters i) (share i state.applied) := by
      rw [holds.flow.routers, holds.caughtUp still i, front.shares]
      exact follows_run _
    rw [shard.log, unresolved_along_share i numbered]
    rfl

/-- At every snapshot and after `close` the shards have logged the anomalies of the events, and so
the summary is that of the simple router. -/
theorem logsAll_of_reachable (reached : (system BookInOrder NumShards).Reachable state)
    (numbered : ∀ e ∈ state.applied, e.orderId ≠ 0) (still : AtSnapshotOrClosed state) :
    LogsAll state.router.anomalyLog state.applied ∧
      state.router.anomalyLog.writeSummary =
        (run state.applied : SimpleOrderBookRouter BookInOrder).anomalyLog.writeSummary := by
  have all := logsAll_run state.applied
  obtain ⟨front, silent⟩ := unresolved_of_reachable reached numbered still
  have meets : (run state.applied : SimpleOrderBookRouter BookInOrder).Meets
      ((List.finRange NumShards).flatMap fun i => (state.router.shardRouters i).orderBooks.entries) :=
    perm_flatMap reached numbered still fun _ => List.Perm.refl _
  have lines :
      state.router.anomalyLog.book.Perm (run state.applied : SimpleOrderBookRouter BookInOrder).anomalyLog.book := by
    have books := (meets.map Sigma.snd).flatMap_right LogsAnomalies.logged
    rw [List.map_flatMap, List.flatMap_assoc] at books
    exact books
  have sharded : LogsAll state.router.anomalyLog state.applied := by
    refine ⟨fun kind => ?_, fun line inside => all.component line (lines.mem_iff.mp inside), ?_⟩
    · exact ((lines.filter _).map _).trans (all.books kind)
    · change state.router.anomalies.router ++ _ = _
      rw [front, List.flatMap_eq_nil_iff.mpr fun i _ => silent i, List.append_nil]
  exact ⟨sharded, sharded.writeSummary_eq all⟩

/-- The cancel of an order that one shard has and the other has not. -/
theorem logsAll_of_reachable_schedule : ∃ state : State BookInOrder 2, state.applied = movedAndCancelled ∧
    LogsAll state.router.anomalyLog state.applied ∧
      state.router.anomalyLog.writeSummary =
        (run state.applied : SimpleOrderBookRouter BookInOrder).anomalyLog.writeSummary := by
  have run : (schedule.foldlM (fun state choice => move state choice) ({} : State BookInOrder 2)).map
      (fun state => (state.applied, state.caller)) = some (movedAndCancelled, .reading 0) := by decide +kernel
  obtain ⟨state, reaches, ends⟩ := Option.map_eq_some_iff.mp run
  obtain ⟨applied, isReading⟩ := Prod.mk.inj ends
  have numbered : ∀ e ∈ movedAndCancelled, e.orderId ≠ 0 := by decide
  exact ⟨state, applied, logsAll_of_reachable (TransitionSystem.reachable_ofMoves schedule reaches) (applied ▸ numbered)
    (.inl ⟨0, isReading⟩)⟩

end ShardedOrderBookRouter

end BackTester
