import BackTester.Proofs.OrderBook.AggregateAnswers
import BackTester.Soundness.LimitOrderBook
import BackTester.Soundness.MapOrderBook

/-! # The limit order book and the map book

On streams without flags, without empty adds and modifies and without cancels that raise a size,
both books keep the orders of the reference book, so they answer alike.
-/

namespace BackTester

namespace AggregateBook

variable {book : AggregateBook} {reference : ReferenceBook} {id : UInt64}

theorem tracks_empty : Tracks {} ∅ where
  records id := by simp
  sizes id record found := by simp at found

/-- The same order is written into both. -/
theorem Tracks.assign (tracks : Tracks book reference) {book' : AggregateBook} (order : Resting)
    (some' : 1 ≤ order.quantity)
    (index : book'.orderIndex = book.orderIndex.assign id order.record) : Tracks book' (reference.assign id order) where
  records other := by
    rw [index, UnorderedMap.find?_assign, UnorderedMap.find?_assign, tracks.records]
    split <;> rfl
  sizes other record found := by
    rw [index, UnorderedMap.find?_assign] at found
    split at found
    · cases found
      exact some'
    · exact tracks.sizes other record found

/-- The same order is taken out of both. -/
theorem Tracks.remove (tracks : Tracks book reference) {book' : AggregateBook}
    (index : book'.orderIndex = book.orderIndex.remove id) : Tracks book' (reference.remove id) where
  records other := by
    rw [index, UnorderedMap.find?_remove, UnorderedMap.find?_remove, tracks.records]
    split <;> rfl
  sizes other record found := by
    rw [index, UnorderedMap.find?_remove] at found
    split at found
    · contradiction
    · exact tracks.sizes other record found

end AggregateBook

namespace MapOrderBook

open AggregateBook

variable {book : MapOrderBook} {reference : ReferenceBook} {e : MarketDataEvent}

/-- No skipped event, no empty add or modify, and no cancel that leaves more than is recorded. -/
structure Admissible (book : MapOrderBook) (e : MarketDataEvent) : Prop where
  kept : ¬(e.flags.hasFlag .badTsRecv ∨ e.flags.hasFlag .maybeBadBook)
  sized : e.action = .add ∨ e.action = .modify → 1 ≤ e.size
  within : WithinRecord book e

/-- The map book follows the reference book. -/
theorem tracks_applyImpl (tracks : Tracks book.toAggregateBook reference) (admissible : Admissible book e) :
    Tracks (book.applyImpl e).toAggregateBook (reference.step e) := by
  have notSkipped : ¬((e.flags.hasFlag .badTsRecv || e.flags.hasFlag .maybeBadBook) = true) := by
    simpa using admissible.kept
  have sized := admissible.sized
  unfold applyImpl
  rw [ReferenceBook.step, if_neg notSkipped]
  have added (some' : 1 ≤ e.size) {book' : AggregateBook}
      (index : book'.orderIndex = book.orderIndex.assign e.orderId ⟨e.side, e.price, e.size⟩) :
      Tracks book' (reference.assign e.orderId ⟨e.side, e.price, e.size⟩) :=
    tracks.assign ⟨e.side, e.price, e.size⟩ some' index
  cases action : e.action with
  | add =>
    have some' := sized (.inl action)
    dsimp only
    by_cases given : e.side = .none ∨ !e.isPriceDefined
    · have incomplete : ¬(e.side ≠ .none ∧ e.isPriceDefined) := by
        rintro ⟨here, defined⟩
        simp [here, defined] at given
      rw [if_pos given, ReferenceBook.add, if_neg incomplete]
      exact tracks
    · have complete : e.side ≠ .none ∧ e.isPriceDefined := by
        simpa [not_or] using given
      rw [if_neg given, ReferenceBook.add, if_pos complete]
      apply added some'
      split <;> simp [update, logBook]
  | cancel =>
    dsimp only
    rw [ReferenceBook.cancel]
    cases found : book.orderIndex.find? e.orderId with
    | none =>
      have unknown := tracks.records e.orderId
      rw [found, eq_comm, Option.map_eq_none_iff] at unknown
      rw [unknown]
      exact tracks
    | some record =>
      have known := tracks.records e.orderId
      rw [found, eq_comm, Option.map_eq_some_iff] at known
      obtain ⟨order, inReference, rfl⟩ := known
      rw [inReference]
      dsimp only
      split
      · next zero =>
        apply tracks.remove
        rw [update, orderIndex_cancelTracked, if_pos zero]
      · next notZero =>
        apply tracks.assign
        · exact UInt32.le_iff_toNat_le.mpr (Nat.one_le_iff_ne_zero.mpr fun zero => notZero (UInt32.toNat_inj.mp zero))
        · rw [update, orderIndex_cancelTracked, if_neg notZero]
          rfl
  | modify =>
    have some' := sized (.inr action)
    have notZero : e.size ≠ 0 := by
      rintro zero
      rw [zero] at some'
      contradiction
    dsimp only
    rw [ReferenceBook.modify]
    cases found : book.orderIndex.find? e.orderId with
    | none =>
      have unknown := tracks.records e.orderId
      rw [found, eq_comm, Option.map_eq_none_iff] at unknown
      rw [unknown]
      dsimp only
      rw [ReferenceBook.add]
      split
      · apply added some'
        simp [update, logBook]
      · exact tracks
    | some record =>
      have known := tracks.records e.orderId
      rw [found, eq_comm, Option.map_eq_some_iff] at known
      obtain ⟨order, inReference, rfl⟩ := known
      rw [inReference]
      dsimp only
      rw [if_neg fun both => notZero both.1]
      apply tracks.assign
      · exact some'
      · rw [update, orderIndex_modifyTracked]
        rfl
  | clear => exact tracks_empty
  | trade | fill | none | unnamed => exact tracks

theorem positive_applyImpl (positive : Positive book.toAggregateBook) (sided : Sided book.orderIndex)
    (sized : e.action = .add ∨ e.action = .modify → 1 ≤ e.size) : Positive (book.applyImpl e).toAggregateBook := by
  unfold applyImpl
  cases action : e.action with
  | add =>
    dsimp only
    split
    · exact positive
    · next given =>
      obtain ⟨here, _⟩ := not_or.mp given
      split
      · next found => exact (positive.removeFromLevel (sided _ _ found) _ _).track here (sized (.inl action))
      · exact positive.track here (sized (.inl action))
  | cancel =>
    dsimp only
    split
    · exact positive
    · next found => exact positive.cancelTracked (sided _ _ found) e
  | modify =>
    dsimp only
    split
    · split
      · next given => exact positive.track given.1 (sized (.inr action))
      · exact positive
    · next found => exact positive.modifyTracked (sided _ _ found) (sized (.inr action))
  | clear => exact positive_empty
  | trade | fill | none | unnamed => exact positive

/-- After every prefix of an admissible stream. -/
theorem tracks_run {events : List MarketDataEvent}
    (admissible : ∀ n e, events[n]? = some e → Admissible (run (events.take n)) e) (n : ℕ) :
    Aggregates (run (events.take n)).toAggregateBook ∧ Positive (run (events.take n)).toAggregateBook ∧
      Tracks (run (events.take n)).toAggregateBook (ReferenceBook.run (events.take n)) := by
  apply List.forall_prefix
    (fun prior => Aggregates (run prior).toAggregateBook ∧ Positive (run prior).toAggregateBook ∧
      Tracks (run prior).toAggregateBook (ReferenceBook.run prior))
    (fun prior => Admissible (run prior)) ⟨aggregates_empty, positive_empty, tracks_empty⟩ ?_ admissible
  rintro prior e ⟨aggregates, positive, tracks⟩ next
  have sided := sided_run prior
  have referenceStep : ReferenceBook.run (prior ++ [e]) = (ReferenceBook.run prior).step e := by
    simp [ReferenceBook.run, List.foldl_append]
  rw [run_append_singleton, referenceStep]
  refine ⟨?_, ?_, ?_⟩
  · exact (aggregates_applyImpl aggregates sided e).mpr next.within
  · exact positive_applyImpl positive sided next.sized
  · exact tracks_applyImpl tracks next

end MapOrderBook

namespace LimitOrderBook

/-- Side, price and quantity of the entry under an id. -/
def liveOrder (book : LimitOrderBook) (id : UInt64) : Option (Side × ScaledPrice × ℤ) := do
  let oe ← book.orders.find? id
  let entry ← book.orderEntries.read oe
  return (entry.side, entry.price, entry.quantity)

/-- The live orders of a book that is in order. -/
theorem liveOrder_of_holds {book : LimitOrderBook} {resting : PriorityBook} (holds : Holds book resting) (id : UInt64) :
    book.liveOrder id = (resting.find? id).map fun order => (order.side, order.price, (order.quantity.toNat : ℤ)) := by
  obtain ⟨live, trees, represents, same⟩ := holds
  cases found : resting.find? id with
  | none =>
    have unknown := (represents.find?_resting same).mpr found
    simp [liveOrder, unknown]
  | some order =>
    obtain ⟨inOrders, rfl⟩ := PriorityBook.find?_eq_some.mp found
    rw [← same] at inOrders
    obtain ⟨slot, member, rfl⟩ := List.mem_map.mp inOrders
    obtain ⟨a, level, entry, _, _, _, _, read, stands⟩ := represents.locate member
    have known : book.orders.find? slot.2.id = some slot.1 := (represents.orders _ _).mpr ⟨slot, member, rfl, rfl⟩
    simp [liveOrder, known, read, stands.side, stands.price, stands.quantity]

end LimitOrderBook

/-- After every event of an admissible stream the books have the same live orders and answer alike. -/
theorem books_agree {events : List MarketDataEvent}
    (admissible : ∀ n e, events[n]? = some e → MapOrderBook.Admissible (MapOrderBook.run (events.take n)) e) (n : ℕ) :
    ∃ book, (LimitOrderBook.applyAll (events.take n)).run {} = some ((), book) ∧
      (∀ id, book.liveOrder id = ((MapOrderBook.run (events.take n)).orderIndex.find? id).map fun record =>
        (record.side, record.price, (record.size.toNat : ℤ))) ∧
      ∀ side ≠ .none, book.bestPrice side = some ((MapOrderBook.run (events.take n)).bestPrice side) ∧
        (∀ price, book.volumeAt side price = some ((MapOrderBook.run (events.take n)).volumeAt side price)) ∧
        book.empty side = (MapOrderBook.run (events.take n)).empty side ∧
        book.sideLevels side = some ((MapOrderBook.run (events.take n)).sideLevels side) := by
  obtain ⟨aggregates, positive, tracks⟩ := MapOrderBook.tracks_run admissible n
  obtain ⟨book, run, holds⟩ := LimitOrderBook.run_applyAll LimitOrderBook.holds_empty (events.take n)
  refine ⟨book, run, fun id => ?_, fun side sided => ?_⟩
  · have matches' := PriorityBook.matches_run (events.take n) id
    rw [LimitOrderBook.liveOrder_of_holds holds, tracks.records, matches', Option.map_map, Option.map_map]
    rfl
  · obtain ⟨live, trees, represents, same⟩ := holds
    have sameOrders := LimitOrderBook.sameOrders_run same
    rw [represents.bestPrice sameOrders sided, represents.empty sameOrders sided,
      represents.sideLevels sameOrders sided, AggregateBook.bestPrice_eq aggregates positive tracks sided,
      AggregateBook.empty_eq aggregates positive tracks sided,
      AggregateBook.sideLevels_eq aggregates positive tracks sided]
    refine ⟨rfl, fun price => ?_, rfl, rfl⟩
    rw [represents.volumeAt sameOrders sided, AggregateBook.volumeAt_eq aggregates positive tracks sided]

/-- An order is added, cancelled in part and moved. -/
def movedOrder : List MarketDataEvent :=
  [{ orderId := 1, side := .buy, price := 100, size := 10, action := .add },
    { orderId := 1, size := 4, action := .cancel },
    { orderId := 1, price := 101, size := 5, action := .modify }]

theorem books_agree_movedOrder :
    ∃ book, (LimitOrderBook.applyAll movedOrder).run {} = some ((), book) ∧ book.bestPrice .buy = some (some 101) := by
  have admissible : ∀ n e, movedOrder[n]? = some e →
      MapOrderBook.Admissible (MapOrderBook.run (movedOrder.take n)) e := by
    intro n e here
    rcases n with _ | _ | _ | n
    · cases here
      exact ⟨by decide, by decide, by intro cancel; contradiction⟩
    · cases here
      refine ⟨by decide, by decide, fun _ record found => ?_⟩
      cases (show some ⟨.buy, 100, 10⟩ = some record from found)
      decide
    · cases here
      exact ⟨by decide, by decide, by intro cancel; contradiction⟩
    · contradiction
  obtain ⟨book, run, _, answers⟩ := books_agree admissible 3
  exact ⟨book, run, (answers .buy (by decide)).1⟩

end BackTester
