import BackTester.Soundness.BookAgreement

/-! # Integers of the books

The heights, counts and totals that the books keep are integers here and of 32 and 64 bits in the
source. The heights of a balanced tree grow slowly, counts and totals by no more than one order with
each event, so no run of fewer than `2 ^ 31` events takes one of them out of its range.
-/

namespace BackTester

open BinaryTree Heap PriceLevel

namespace LimitOrderBook

variable {book : LimitOrderBook} {live : List Slot} {trees : Side → BinaryTree ℕ} {a : ℕ} {level : PriceLevel}

/-- Every level has an order of its own. -/
theorem Represents.length_tree_le (represents : Represents book live trees none) {side : Side} (sided : side ≠ .none) :
    (trees side).inorder.length ≤ live.length := by
  have tree := represents.tree side sided
  have covered : (trees side).inorder.map (priceAt book.priceLevels) ⊆ live.map fun slot => slot.2.price := by
    intro price isIn
    obtain ⟨a, inTree, rfl⟩ := List.mem_map.mp isIn
    have occupied := ((represents.queues side sided).occupied a inTree).resolve_right (by simp)
    obtain ⟨slot, member⟩ := List.exists_mem_of_ne_nil _ occupied
    obtain ⟨inLive, -, isPrice⟩ := mem_members.mp member
    exact List.mem_map.mpr ⟨slot, inLive, isPrice⟩
  have nodup : ((trees side).inorder.map (priceAt book.priceLevels)).Nodup :=
    List.pairwise_map.mpr (tree.ascending.imp fun less => ne_of_lt less)
  simpa using (nodup.subperm covered).length_le

/-- What the levels of a book count and total, after this many events. -/
structure LevelsWithin (book : LimitOrderBook) (n : ℕ) : Prop where
  height : ∀ a level, book.priceLevels.read a = some level → 1 ≤ level.height ∧ Nat.fib (level.height.toNat + 2) ≤ n + 1
  orderCount : ∀ a level, book.priceLevels.read a = some level → 1 ≤ level.orderCount ∧ level.orderCount ≤ n
  totalQuantity : ∀ a level, book.priceLevels.read a = some level → 0 ≤ level.totalQuantity ∧
    level.totalQuantity ≤ n * (2 ^ 32 - 1)

theorem Represents.levelsWithin (represents : Represents book live trees none) : LevelsWithin book live.length := by
  have located {a : ℕ} {level : PriceLevel} (read : book.priceLevels.read a = some level) :
      ∃ side ≠ .none, a ∈ (trees side).inorder := (represents.levels a).mp ⟨level, read⟩
  constructor
  · intro a level read
    obtain ⟨side, sided, inTree⟩ := located read
    have tree := represents.tree side sided
    obtain ⟨positive, le⟩ := tree.linked.height_le inTree read
    refine ⟨positive, ?_⟩
    calc Nat.fib (level.height.toNat + 2) ≤ Nat.fib ((trees side).height + 2) := Nat.fib_mono (by omega)
      _ ≤ (trees side).inorder.length + 1 := tree.balanced.fib_le
      _ ≤ live.length + 1 := Nat.succ_le_succ (represents.length_tree_le sided)
  · intro a level read
    obtain ⟨side, sided, inTree⟩ := located read
    have queues := represents.queues side sided
    have occupied := (queues.occupied a inTree).resolve_right (by simp)
    rw [priceAt_of_read read] at occupied
    have some := List.length_pos_iff.mpr occupied
    have atMost : (members live side level.price).length ≤ live.length := List.length_filter_le _ _
    rw [(queues.holds a inTree level read).count]
    omega
  · intro a level read
    obtain ⟨side, sided, inTree⟩ := located read
    have small :
        ∀ quantity ∈ (members live side level.price).map fun slot => slot.2.quantity.toNat, quantity ≤ 2 ^ 32 - 1 := by
      intro quantity member
      obtain ⟨slot, -, rfl⟩ := List.mem_map.mp member
      exact Nat.le_pred_of_lt slot.2.quantity.toNat_lt
    have sum := List.sum_le_card_nsmul _ _ small
    have atMost : (members live side level.price).length ≤ live.length := List.length_filter_le _ _
    rw [List.length_map, smul_eq_mul] at sum
    rw [((represents.queues side sided).holds a inTree level read).total]
    omega

end LimitOrderBook

namespace AggregateBook

variable {book : AggregateBook} {n : ℕ} {record : OrderRecord} {side : Side} {price : ScaledPrice} {delta : ℤ}

/-- What the levels of a book total, after this many events. -/
def TotalsWithin (book : AggregateBook) (n : ℕ) : Prop :=
  ∀ side ≠ .none, ∀ price total, book.level side price = some total → 0 ≤ total ∧ total ≤ n * (2 ^ 32 - 1)

theorem TotalsWithin.mono (within : TotalsWithin book n) : TotalsWithin book (n + 1) := by
  intro side sided price total found
  obtain ⟨nonneg, le⟩ := within side sided price total found
  exact ⟨nonneg, by omega⟩

theorem TotalsWithin.addToLevel (within : TotalsWithin book n) (sided : side ≠ .none) (size : UInt32) :
    TotalsWithin (book.addToLevel side price size.toNat) (n + 1) := by
  intro other otherSided q total found
  have small := size.toNat_lt
  rw [level_addToLevel sided otherSided] at found
  split at found
  · obtain rfl := Option.some.inj found
    unfold AggregateBook.total
    cases level : book.level side price with
    | none =>
      rw [Option.getD_none]
      omega
    | some before =>
      obtain ⟨nonneg, le⟩ := within side sided price before level
      rw [Option.getD_some]
      omega
  · exact within.mono other otherSided q total found

theorem TotalsWithin.removeFromLevel (within : TotalsWithin book n) (sided : side ≠ .none) (nonneg : 0 ≤ delta) :
    TotalsWithin (book.removeFromLevel side price delta) n := by
  intro other otherSided q total found
  rw [level_removeFromLevel sided otherSided] at found
  split at found
  · obtain ⟨before, level, found⟩ := Option.bind_eq_some_iff.mp found
    obtain ⟨-, le⟩ := within side sided price before level
    split at found
    · contradiction
    · obtain rfl := Option.some.inj found
      omega
  · exact within other otherSided q total found

/-- Every record is on a side, and the totals are what this many events can come to. -/
structure Bounded (book : AggregateBook) (n : ℕ) : Prop where
  sided : Sided book.orderIndex
  totals : TotalsWithin book n

theorem bounded_empty : Bounded {} n := by
  refine ⟨sided_empty, fun side _ price total found => ?_⟩
  simp [level] at found

theorem Bounded.mono (bounded : Bounded book n) : Bounded book (n + 1) := ⟨bounded.sided, bounded.totals.mono⟩

theorem Bounded.track (bounded : Bounded book n) {e : MarketDataEvent} (sided : e.side ≠ .none) :
    Bounded (book.track e) (n + 1) :=
  ⟨sided_track bounded.sided sided, bounded.totals.addToLevel sided e.size⟩

theorem Bounded.removeFromLevel (bounded : Bounded book n) {id : UInt64}
    (found : book.orderIndex.find? id = some record)
    (nonneg : 0 ≤ delta) : Bounded (book.removeFromLevel record.side record.price delta) n := by
  refine ⟨?_, bounded.totals.removeFromLevel (bounded.sided _ _ found) nonneg⟩
  rw [orderIndex_removeFromLevel]
  exact bounded.sided

theorem Bounded.cancelTracked (bounded : Bounded book n) {e : MarketDataEvent}
    (found : book.orderIndex.find? e.orderId = some record) :
    Bounded (book.cancelTracked record e) n := by
  refine ⟨sided_cancelTracked bounded.sided found, ?_⟩
  have removed : TotalsWithin (if 0 < (record.size.toNat : ℤ) - e.size.toNat then
      book.removeFromLevel record.side record.price (record.size.toNat - e.size.toNat) else book) n := by
    split
    · next positive => exact bounded.totals.removeFromLevel (bounded.sided _ _ found) positive.le
    · exact bounded.totals
  unfold AggregateBook.cancelTracked
  dsimp only
  split <;> exact removed

theorem Bounded.modifyTracked (bounded : Bounded book n) {e : MarketDataEvent}
    (found : book.orderIndex.find? e.orderId = some record) :
    Bounded (book.modifyTracked record e) (n + 1) := by
  refine ⟨sided_modifyTracked bounded.sided found, ?_⟩
  have removed : TotalsWithin (book.removeFromLevel record.side record.price record.size.toNat) n :=
    bounded.totals.removeFromLevel (bounded.sided _ _ found) (Int.natCast_nonneg _)
  exact removed.addToLevel (newSide_sided (bounded.sided _ _ found) e) e.size

end AggregateBook

open AggregateBook

theorem MapOrderBook.bounded_applyImpl {book : MapOrderBook} {n : ℕ} (bounded : Bounded book.toAggregateBook n)
    (e : MarketDataEvent) :
    Bounded (book.applyImpl e).toAggregateBook (n + 1) := by
  unfold applyImpl
  split
  · split
    · exact bounded.mono
    · next given =>
      obtain ⟨sided, -⟩ := not_or.mp given
      dsimp only
      split
      · next found => exact (bounded.removeFromLevel found (Int.natCast_nonneg _)).track sided
      · exact bounded.track sided
  · split
    · exact bounded.mono
    · next found => exact (bounded.cancelTracked found).mono
  · split
    · split
      · next given => exact bounded.track given.1
      · exact bounded.mono
    · next found => exact bounded.modifyTracked found
  · exact bounded_empty
  · exact bounded.mono

theorem AbseilOrderBook.bounded_applyImpl {book : AbseilOrderBook} {n : ℕ} (bounded : Bounded book.toAggregateBook n)
    (e : MarketDataEvent) : Bounded (book.applyImpl e).toAggregateBook (n + 1) := by
  unfold applyImpl
  split
  · split
    · exact bounded.mono
    · next given => exact bounded.track (not_or.mp given).1
  · split
    · exact bounded.mono
    · next found => exact (bounded.cancelTracked found).mono
  · split
    · split
      · next given => exact bounded.track given.1
      · exact bounded.mono
    · next found => exact bounded.modifyTracked found
  · exact bounded_empty
  · exact bounded.mono

theorem MapOrderBook.bounded_run (events : List MarketDataEvent) :
    Bounded (run events).toAggregateBook events.length := by
  induction events using List.reverseRecOn with
  | nil => exact bounded_empty
  | append_singleton events e ih =>
    rw [run_append_singleton, List.length_append, List.length_singleton]
    exact bounded_applyImpl ih e

theorem AbseilOrderBook.bounded_run (events : List MarketDataEvent) :
    Bounded (run events).toAggregateBook events.length := by
  induction events using List.reverseRecOn with
  | nil => exact bounded_empty
  | append_singleton events e ih =>
    rw [run_append_singleton, List.length_append, List.length_singleton]
    exact bounded_applyImpl ih e

/-- The integers of each of the three books are in their ranges after some events. -/
structure IntegersFit (events : List MarketDataEvent) : Prop where
  levels : ∃ book, (LimitOrderBook.applyAll events).run {} = some ((), book) ∧
    ∀ a level, book.priceLevels.read a = some level →
    (1 ≤ level.height ∧ level.height < 45) ∧ (1 ≤ level.orderCount ∧ level.orderCount < 2 ^ 63) ∧
      0 ≤ level.totalQuantity ∧ level.totalQuantity < 2 ^ 63
  mapTotals : ∀ side ≠ .none,
    ∀ price total, (MapOrderBook.run events).level side price = some total → 0 ≤ total ∧ total < 2 ^ 63
  abseilTotals : ∀ side ≠ .none, ∀ price total, (AbseilOrderBook.run events).level side price = some total →
    0 ≤ total ∧ total < 2 ^ 63

/-- After every run of fewer than `2 ^ 31` events, the trees are lower than 45, and counts and
totals in the range of `int64_t`. -/
theorem integersFit_run {events : List MarketDataEvent} (few : events.length < 2 ^ 31) : IntegersFit events := by
  have small {total : ℤ} (within : 0 ≤ total ∧ total ≤ events.length * (2 ^ 32 - 1)) : 0 ≤ total ∧ total < 2 ^ 63 :=
    ⟨within.1, by omega⟩
  refine ⟨?_, ?_, ?_⟩
  · obtain ⟨book, run, live, trees, represents, same⟩ := LimitOrderBook.run_applyAll LimitOrderBook.holds_empty events
    have within := represents.levelsWithin
    have fewOrders : live.length ≤ events.length := by
      rw [← List.length_map Prod.snd, same]
      exact PriorityBook.length_run_le events
    refine ⟨book, run, fun a level read => ⟨⟨(within.height a level read).1, ?_⟩, ?_, ?_⟩⟩
    · have nodes := (within.height a level read).2
      by_contra high
      have fib : Nat.fib 47 ≤ Nat.fib (level.height.toNat + 2) := Nat.fib_mono (by omega)
      have isFib : Nat.fib 47 = 2971215073 := by norm_num [Nat.fib]
      omega
    · obtain ⟨positive, le⟩ := within.orderCount a level read
      exact ⟨positive, by omega⟩
    · obtain ⟨nonneg, le⟩ := within.totalQuantity a level read
      exact ⟨nonneg, by omega⟩
  · exact fun side sided price total found =>
      small ((MapOrderBook.bounded_run events).totals side sided price total found)
  · exact fun side sided price total found =>
      small ((AbseilOrderBook.bounded_run events).totals side sided price total found)

def twoOrders : List MarketDataEvent :=
  [{ orderId := 1, action := .add, side := .buy, price := 100, size := 7 },
    { orderId := 2, action := .add, side := .buy, price := 100, size := 5 }]

theorem integersFit_run_twoOrders : IntegersFit twoOrders := by
  have few : twoOrders.length < 2 ^ 31 := by decide
  exact integersFit_run few

end BackTester
