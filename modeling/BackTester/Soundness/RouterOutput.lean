import BackTester.Model.OrderBook.RouterOutput
import BackTester.Soundness.BookAgreement
import BackTester.Soundness.ShardedOrderBookRouter

/-! # The output of the routers

At a snapshot the sharded router prints what the simple router would print that has applied the same
events, with its books in some order; only the best prices of each shard have a header and a footer
of their own. And routers whose books answer alike print alike: those of the limit order book and of
the map book on streams that are admissible for each instrument.
-/

namespace BackTester

open SimpleOrderBookRouter Routing

variable {BookType Other : Type} {NumShards : ℕ} {events : List MarketDataEvent} {X : UInt32} {groupByLevels : UInt64}

section Loops

variable {lines : UInt32 → BookType → Option String}

theorem printBooks_nil : printBooks lines [] = some "" := rfl

theorem printBooks_append (books more : Iteration BookType) :
    printBooks lines (books ++ more) = do return (← printBooks lines books) ++ (← printBooks lines more) := by
  unfold printBooks
  rw [List.mapM_append]
  cases books.mapM fun entry => lines entry.1 entry.2 with
  | none => rfl
  | some first =>
    cases more.mapM fun entry => lines entry.1 entry.2 with
    | none => rfl
    | some second => exact congrArg some String.join_append

/-- A loop over the books of one list after the other. -/
theorem printBooks_flatMap {ι : Type} (parts : List ι) (books : ι → Iteration BookType) :
    printBooks lines (parts.flatMap books) = (parts.mapM fun i => printBooks lines (books i)).map String.join := by
  induction parts with
  | nil => rfl
  | cons i parts ih =>
    rw [List.flatMap_cons, printBooks_append, ih, List.mapM_cons]
    cases printBooks lines (books i) with
    | none => rfl
    | some first =>
      cases parts.mapM fun i => printBooks lines (books i) with
      | none => rfl
      | some rest => exact congrArg some String.join_cons.symm

end Loops

namespace ShardedOrderBookRouter

variable [OrderBook BookType] [NeZero NumShards] {state : State BookType NumShards}
  {books : Fin NumShards → Iteration BookType}

/-- A shard has the books of its instruments. -/
theorem shardRouters_find? (reached : (system BookType NumShards).Reachable state)
    (numbered : ∀ e ∈ state.applied, e.orderId ≠ 0) (still : AtSnapshotOrClosed state)
    (i : Fin NumShards) (X : UInt32) :
    (state.router.shardRouters i).orderBooks.find? X =
      if shardOf NumShards X = i then (run state.applied : SimpleOrderBookRouter BookType).orderBooks.find? X
      else none := by
  have holds := invariant_reachable reached
  have noError (error : String) : state.caller ≠ .threw error := by
    rcases still with ⟨next, isReading⟩ | ⟨isIdle, -⟩
    · rw [isReading]
      nofun
    · rw [isIdle]
      nofun
  have shard : Follows (state.router.shardRouters i) (share i state.applied) := by
    rw [holds.flow.routers, holds.caughtUp still i, (holds.front noError).shares]
    exact follows_run _
  rw [shard.books, (follows_run state.applied).books, delivered_share X i numbered]
  split
  · rfl
  · exact if_pos rfl

/-- The books of all shards are those of the simple router. -/
theorem perm_flatMap (reached : (system BookType NumShards).Reachable state)
    (numbered : ∀ e ∈ state.applied, e.orderId ≠ 0)
    (still : AtSnapshotOrClosed state) (meets : state.router.Meets books) :
    (run state.applied : SimpleOrderBookRouter BookType).Meets ((List.finRange NumShards).flatMap books) := by
  have isIn (i : Fin NumShards) (X : UInt32) (book : BookType) : ⟨X, book⟩ ∈ books i ↔
      shardOf NumShards X = i ∧
      (run state.applied : SimpleOrderBookRouter BookType).orderBooks.find? X = some book := by
    rw [(meets i).mem_iff, UnorderedMap.mem_entries, shardRouters_find? reached numbered still]
    split
    · next here => exact (and_iff_right here).symm
    · next elsewhere => exact ⟨fun found => by contradiction, fun both => absurd both.1 elsewhere⟩
  have nodup : ((List.finRange NumShards).flatMap books).Nodup := by
    refine List.nodup_flatMap.mpr ⟨fun i _ => ?_, (List.nodup_finRange NumShards).imp fun {i j} apart => ?_⟩
    · exact (meets i).nodup_iff.mpr (state.router.shardRouters i).orderBooks.nodupKeys.nodup
    · rintro ⟨X, book⟩ here there
      exact apart (((isIn i X book).mp here).1.symm.trans ((isIn j X book).mp there).1)
  refine (List.perm_ext_iff_of_nodup nodup (run state.applied).orderBooks.nodupKeys.nodup).mpr ?_
  rintro ⟨X, book⟩
  rw [List.mem_flatMap, UnorderedMap.mem_entries]
  constructor
  · rintro ⟨i, -, here⟩
    exact ((isIn i X book).mp here).2
  · intro found
    exact ⟨shardOf NumShards X, List.mem_finRange _, (isIn _ X book).mpr ⟨rfl, found⟩⟩

end ShardedOrderBookRouter

namespace ShardedOrderBookRouter

variable [BookAnswers BookType] (books : Fin NumShards → Iteration BookType)

/-- The lines on the best prices of the books of each shard. -/
def shardBests : Option (List String) := (List.finRange NumShards).mapM fun i => printBooks bestBidAskLines (books i)

theorem snapshotAsString_flatMap : snapshotAsString groupByLevels books =
    SimpleOrderBookRouter.snapshotAsString groupByLevels ((List.finRange NumShards).flatMap books) := by
  unfold SimpleOrderBookRouter.snapshotAsString snapshotAsString printShards
  rw [printBooks_flatMap]
  exact Option.map_eq_bind.symm

theorem mapM_wrap {ι : Type} (parts : List ι) (print : ι → Option String) (wrap : String → String) :
    (parts.mapM fun i => (print i).map wrap) = (parts.mapM print).map (List.map wrap) := by
  induction parts with
  | nil => rfl
  | cons i parts ih =>
    rw [List.mapM_cons, List.mapM_cons, ih]
    cases print i with
    | none => rfl
    | some text => cases parts.mapM print <;> rfl

theorem printBestBidAsk_shards : printBestBidAsk books = (shardBests books).map fun bests =>
    bestHeader ++ String.join (bests.map fun best => bestHeader ++ best ++ bestFooter) ++ bestFooter := by
  have shards : (List.finRange NumShards).mapM (fun i => SimpleOrderBookRouter.printBestBidAsk (books i)) =
      (shardBests books).map (List.map fun best => bestHeader ++ best ++ bestFooter) := by
    refine Eq.trans ?_ (mapM_wrap _ _ _)
    refine congrArg (List.mapM · _) (funext fun i => ?_)
    exact Option.map_eq_bind.symm
  unfold printBestBidAsk printShards
  rw [shards]
  cases shardBests books <;> rfl

theorem printBestBidAsk_flatMap : SimpleOrderBookRouter.printBestBidAsk ((List.finRange NumShards).flatMap books) =
    (shardBests books).map fun bests => bestHeader ++ String.join bests ++ bestFooter := by
  unfold SimpleOrderBookRouter.printBestBidAsk
  rw [printBooks_flatMap]
  change ((shardBests books).map String.join).bind _ = _
  cases shardBests books <;> rfl

/-- What is printed of the shards is what the simple router prints that has applied the same events,
if it meets its books in some order. Of the best prices, what is between header and footer comes in
parts, each with a header and a footer of its own. -/
theorem prints_of_reachable [OrderBook BookType] [NeZero NumShards] {state : State BookType NumShards}
    (reached : (system BookType NumShards).Reachable state) (numbered : ∀ e ∈ state.applied, e.orderId ≠ 0)
    (still : AtSnapshotOrClosed state) (meets : state.router.Meets books) :
    ∃ whole : Iteration BookType, (run state.applied : SimpleOrderBookRouter BookType).Meets whole ∧
      (∀ groupByLevels,
        snapshotAsString groupByLevels books = SimpleOrderBookRouter.snapshotAsString groupByLevels whole) ∧
      ∃ bests : Option (List String),
        SimpleOrderBookRouter.printBestBidAsk whole =
          bests.map (fun bests => bestHeader ++ String.join bests ++ bestFooter) ∧
        printBestBidAsk books = bests.map fun bests =>
          bestHeader ++ String.join (bests.map fun best => bestHeader ++ best ++ bestFooter) ++ bestFooter :=
  ⟨_, perm_flatMap reached numbered still meets, fun _ => snapshotAsString_flatMap books,
    shardBests books, printBestBidAsk_flatMap books, printBestBidAsk_shards books⟩

theorem prints_of_reachable_schedule : ∃ state : State AbseilOrderBook 2, state.caller = .reading 0 ∧
    ∃ whole : Iteration AbseilOrderBook, (run movedAndCancelled : SimpleOrderBookRouter AbseilOrderBook).Meets whole ∧
      ∀ groupByLevels, snapshotAsString groupByLevels (fun i => (state.router.shardRouters i).orderBooks.entries) =
        SimpleOrderBookRouter.snapshotAsString groupByLevels whole := by
  have run : (schedule.foldlM (fun state choice => move state choice) ({} : State AbseilOrderBook 2)).map
      (fun state => (state.applied, state.caller)) = some (movedAndCancelled, .reading 0) := by decide +kernel
  obtain ⟨state, reaches, ends⟩ := Option.map_eq_some_iff.mp run
  obtain ⟨applied, isReading⟩ := Prod.mk.inj ends
  have numbered : ∀ e ∈ movedAndCancelled, e.orderId ≠ 0 := by decide
  obtain ⟨whole, meets, snapshots, -⟩ := prints_of_reachable (fun i => (state.router.shardRouters i).orderBooks.entries)
    (TransitionSystem.reachable_ofMoves schedule reaches) (applied ▸ numbered)
    (.inl ⟨0, isReading⟩) fun i => List.Perm.refl _
  exact ⟨state, isReading, whole, applied ▸ meets, snapshots⟩

end ShardedOrderBookRouter

section Alike

variable [BookAnswers BookType] [BookAnswers Other]

/-- The books give the same answers on either side. -/
structure Alike (book : BookType) (other : Other) : Prop where
  bestPrice : ∀ side ≠ .none, BookAnswers.bestPrice book side = BookAnswers.bestPrice other side
  volumeAt : ∀ side ≠ .none, ∀ price, BookAnswers.volumeAt book side price = BookAnswers.volumeAt other side price
  sideLevels : ∀ side ≠ .none, BookAnswers.sideLevels book side = BookAnswers.sideLevels other side

theorem Alike.bestBidAskLines {book : BookType} {other : Other} (alike : Alike book other) (X : UInt32) :
    bestBidAskLines X book = bestBidAskLines X other := by
  have line (side : Side) (sided : side ≠ .none) (title : String) (best : Option ScaledPrice) :
      bestLine book side title best = bestLine other side title best := by
    cases best with
    | none => rfl
    | some price => rw [bestLine, bestLine, alike.volumeAt side sided]
  unfold SimpleOrderBookRouter.bestBidAskLines
  rw [alike.bestPrice .buy (by decide), alike.bestPrice .sell (by decide)]
  simp only [line .buy (by decide), line .sell (by decide)]

theorem Alike.snapshotLines {book : BookType} {other : Other} (alike : Alike book other) (X : UInt32) :
    snapshotLines groupByLevels X book = snapshotLines groupByLevels X other := by
  unfold SimpleOrderBookRouter.snapshotLines Snapshot.printSnapshot
  rw [alike.bestPrice .buy (by decide), alike.bestPrice .sell (by decide), alike.sideLevels .buy (by decide),
    alike.sideLevels .sell (by decide)]

variable [OrderBook BookType] [OrderBook Other] {books : Iteration BookType}

/-- The books of another type, in the same order. -/
def exchange (Other : Type) [OrderBook Other] (events : List MarketDataEvent) (books : Iteration BookType) :
    Iteration Other :=
  books.map fun entry => ⟨entry.1, OrderBook.fed Other (delivered entry.1 events)⟩

omit [BookAnswers BookType] in
theorem mem_of_meets (meets : (run events : SimpleOrderBookRouter BookType).Meets books)
    {X : UInt32} {book : BookType} :
    ⟨X, book⟩ ∈ books ↔ delivered X events ≠ [] ∧ OrderBook.fed BookType (delivered X events) = book := by
  rw [meets.mem_iff, UnorderedMap.mem_entries, (follows_run events).books]
  split
  · next none => exact ⟨fun found => by contradiction, fun both => absurd none both.1⟩
  · next some => exact ⟨fun found => ⟨some, Option.some.inj found⟩, fun both => congrArg Option.some both.2⟩

omit [BookAnswers BookType] [BookAnswers Other] in
theorem meets_exchange (meets : (run events : SimpleOrderBookRouter BookType).Meets books) :
    (run events : SimpleOrderBookRouter Other).Meets (exchange Other events books) := by
  have keys : (exchange Other events books).map Sigma.fst = books.map Sigma.fst := List.map_map
  have nodup : (exchange Other events books).Nodup := by
    apply List.Nodup.of_map Sigma.fst
    rw [keys]
    exact (meets.map Sigma.fst).nodup_iff.mpr (run events).orderBooks.nodupKeys
  refine (List.perm_ext_iff_of_nodup nodup (run events).orderBooks.nodupKeys.nodup).mpr ?_
  rintro ⟨X, book⟩
  rw [UnorderedMap.mem_entries, (follows_run events).books, exchange, List.mem_map]
  constructor
  · rintro ⟨⟨Y, other⟩, isIn, same⟩
    obtain ⟨rfl, rfl⟩ := Sigma.mk.inj same
    exact if_neg ((mem_of_meets meets).mp isIn).1
  · intro found
    split at found
    · contradiction
    · next some =>
      obtain rfl := Option.some.inj found
      exact ⟨⟨X, _⟩, (mem_of_meets meets).mpr ⟨some, rfl⟩, rfl⟩

omit [BookAnswers BookType] [BookAnswers Other] in
theorem printBooks_exchange (meets : (run events : SimpleOrderBookRouter BookType).Meets books)
    {lines : UInt32 → BookType → Option String} {lines' : UInt32 → Other → Option String}
    (same : ∀ X, lines X (OrderBook.fed BookType (delivered X events)) =
      lines' X (OrderBook.fed Other (delivered X events))) :
    printBooks lines books = printBooks lines' (exchange Other events books) := by
  have texts : (books.map fun entry => lines entry.1 entry.2) =
      books.map fun entry => lines' entry.1 (OrderBook.fed Other (delivered entry.1 events)) := by
    refine List.map_congr_left ?_
    rintro ⟨X, book⟩ isIn
    rw [← ((mem_of_meets meets).mp isIn).2]
    exact same X
  have printed := congrArg (List.mapM (m := Option) id) texts
  rw [List.mapM_map, List.mapM_map] at printed
  unfold printBooks exchange
  rw [List.mapM_map]
  exact congrArg (· >>= fun texts => pure (String.join texts)) printed

/-- Routers over books that answer alike print alike. -/
theorem prints_alike
    (alike : ∀ X, Alike (OrderBook.fed BookType (delivered X events)) (OrderBook.fed Other (delivered X events)))
    (meets : (run events : SimpleOrderBookRouter BookType).Meets books) :
    (run events : SimpleOrderBookRouter Other).Meets (exchange Other events books) ∧
      (∀ groupByLevels,
        snapshotAsString groupByLevels books = snapshotAsString groupByLevels (exchange Other events books)) ∧
      printBestBidAsk books = printBestBidAsk (exchange Other events books) := by
  refine ⟨meets_exchange meets, fun groupByLevels => printBooks_exchange meets fun X => (alike X).snapshotLines X, ?_⟩
  unfold printBestBidAsk
  rw [printBooks_exchange meets fun X => (alike X).bestBidAskLines X]

end Alike

open LimitOrderBook

instance inOrderAnswers : BookAnswers BookInOrder where
  bestPrice sound := BookAnswers.bestPrice sound.book
  volumeAt sound := BookAnswers.volumeAt sound.book
  sideLevels sound := BookAnswers.sideLevels sound.book

/-- A book in order is in step with the priority book. -/
theorem holds_fed (events : List MarketDataEvent) :
    Holds (OrderBook.fed BookInOrder events).book (events.foldl PriorityBook.step ∅) := by
  induction events using List.reverseRecOn with
  | nil => exact holds_empty
  | append_singleton events e ih =>
    obtain ⟨book, run, holds, -⟩ := run_applyImpl ih e
    rw [OrderBook.fed_append_singleton, List.foldl_append]
    have isBook : (OrderBook.apply (OrderBook.fed BookInOrder events) e).book = book := by
      change (((applyImpl e).run (OrderBook.fed BookInOrder events).book).get _).2 = book
      simp only [run, Option.get_some]
    rw [isBook]
    exact holds

theorem alike_of_admissible
    (admissible : ∀ n e, events[n]? = some e → MapOrderBook.Admissible (MapOrderBook.run (events.take n)) e) :
    Alike (OrderBook.fed BookInOrder events) (OrderBook.fed MapOrderBook events) := by
  obtain ⟨aggregates, positive, tracks⟩ := MapOrderBook.tracks_run admissible events.length
  rw [List.take_length] at aggregates positive tracks
  obtain ⟨live, trees, represents, same⟩ := holds_fed events
  have sameOrders := sameOrders_run same
  constructor
  · intro side sided
    refine (represents.bestPrice sameOrders sided).trans (congrArg some ?_)
    exact (AggregateBook.bestPrice_eq aggregates positive tracks sided).symm
  · intro side sided price
    refine (represents.volumeAt sameOrders sided price).trans (congrArg some ?_)
    exact (AggregateBook.volumeAt_eq aggregates positive tracks sided price).symm
  · intro side sided
    refine (represents.sideLevels sameOrders sided).trans (congrArg some ?_)
    exact (AggregateBook.sideLevels_eq aggregates positive tracks sided).symm

/-- The router over limit order books and the router over map books print the same, if the events of
each instrument are admissible. -/
theorem limit_prints_as_map {books : Iteration BookInOrder}
    (admissible : ∀ X n e, (delivered X events)[n]? = some e →
      MapOrderBook.Admissible (MapOrderBook.run ((delivered X events).take n)) e)
    (meets : (run events : SimpleOrderBookRouter BookInOrder).Meets books) :
    ∃ others : Iteration MapOrderBook, (run events : SimpleOrderBookRouter MapOrderBook).Meets others ∧
      (∀ groupByLevels, snapshotAsString groupByLevels books = snapshotAsString groupByLevels others) ∧
      printBestBidAsk books = printBestBidAsk others :=
  ⟨_, prints_alike (fun X => alike_of_admissible (admissible X)) meets⟩

def addBid : MarketDataEvent :=
  { instrumentId := 7, orderId := 1, side := .buy, price := 100, size := 10, action := .add }
def addAsk : MarketDataEvent :=
  { instrumentId := 8, orderId := 2, side := .sell, price := 105, size := 6, action := .add }
def cutBid : MarketDataEvent := { orderId := 1, size := 4, action := .cancel }
def moveAsk : MarketDataEvent := { orderId := 2, price := 104, size := 3, action := .modify }

/-- Orders of two instruments, whose later events do not name the instrument. -/
def twoInstruments : List MarketDataEvent := [addBid, addAsk, cutBid, moveAsk]

theorem delivered_twoInstruments (X : UInt32) :
    delivered X twoInstruments = if X = 7 then [addBid, cutBid] else if X = 8 then [addAsk, moveAsk] else [] := by
  by_cases first : X = 7
  · rw [if_pos first, first]
    decide
  · rw [if_neg first]
    by_cases second : X = 8
    · rw [if_pos second, second]
      decide
    · rw [if_neg second]
      simp [delivered, List.filterAlong, List.filterBehind, twoInstruments, addBid,
        addAsk, cutBid, moveAsk, sent, resolved, instrumentOf, lastSeen, Ne.symm first, Ne.symm second]

theorem limit_prints_as_map_twoInstruments :
    ∃ others : Iteration MapOrderBook, (run twoInstruments : SimpleOrderBookRouter MapOrderBook).Meets others ∧
      (∀ groupByLevels,
        snapshotAsString groupByLevels
          (run twoInstruments : SimpleOrderBookRouter BookInOrder).orderBooks.entries.reverse =
          snapshotAsString groupByLevels others) ∧
      printBestBidAsk (run twoInstruments : SimpleOrderBookRouter BookInOrder).orderBooks.entries.reverse =
        printBestBidAsk others := by
  refine limit_prints_as_map (fun X n e here => ?_) (List.reverse_perm _)
  rw [delivered_twoInstruments] at here ⊢
  split_ifs at here ⊢
  · rcases n with _ | _ | n
    · cases here
      exact ⟨by decide, by decide, fun cancel => by contradiction⟩
    · cases here
      refine ⟨by decide, by decide, fun _ record found => ?_⟩
      cases (show some ⟨.buy, 100, 10⟩ = some record from found)
      decide
    · contradiction
  · rcases n with _ | _ | n
    · cases here
      exact ⟨by decide, by decide, fun cancel => by contradiction⟩
    · cases here
      exact ⟨by decide, by decide, fun cancel => by contradiction⟩
    · contradiction
  · contradiction

end BackTester
