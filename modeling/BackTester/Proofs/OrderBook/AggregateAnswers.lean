import BackTester.Abstract.ReferenceBook
import BackTester.Proofs.OrderBook.AggregateBook
import BackTester.Proofs.OrderBook.Queries

/-! # Answers of the map-based books

Where every level is positive and every total is the sum of the records there, a book over ordered
maps answers as the reference book with the same records does.
-/

namespace BackTester

/-- The record of a resting order. -/
def Resting.record (order : Resting) : OrderRecord := ⟨order.side, order.price, order.quantity⟩

namespace AggregateBook

variable {book : AggregateBook} {side other : Side} {price q : ScaledPrice} {reference : ReferenceBook}
  {record : OrderRecord} {e : MarketDataEvent}

/-- The map of a side. -/
def onSide (book : AggregateBook) : (side : Side) → PriceMap side
  | .buy => book.bids
  | .sell => book.asks
  | .none => ∅

theorem getElem?_onSide (sided : side ≠ .none) (price : ScaledPrice) :
    (book.onSide side)[price]? = book.level side price := by
  cases side with
  | none => contradiction
  | buy | sell => rfl

/-- No level is empty. -/
def Positive (book : AggregateBook) : Prop :=
  ∀ side ≠ .none, ∀ price level, book.level side price = some level → 0 < level

theorem positive_empty : Positive {} := by
  intro side _ price level found
  simp [AggregateBook.level] at found

theorem Positive.total_nonneg (positive : Positive book) (sided : side ≠ .none) (price : ScaledPrice) :
    0 ≤ book.total side price := by
  unfold total
  cases found : book.level side price with
  | none => exact le_refl _
  | some level => exact (positive side sided price level found).le

theorem Positive.removeFromLevel (positive : Positive book) (sided : side ≠ .none) (price : ScaledPrice) (delta : ℤ) :
    Positive (book.removeFromLevel side price delta) := by
  intro other otherSided q level found
  rw [level_removeFromLevel sided otherSided] at found
  split at found
  · obtain ⟨old, _, left⟩ := Option.bind_eq_some_iff.mp found
    split at left
    · contradiction
    · cases left
      omega
  · exact positive other otherSided q level found

theorem Positive.addToLevel (positive : Positive book) (sided : side ≠ .none) (price : ScaledPrice) {delta : ℤ}
    (more : 0 < delta) : Positive (book.addToLevel side price delta) := by
  intro other otherSided q level found
  rw [level_addToLevel sided otherSided] at found
  split at found
  · have := positive.total_nonneg sided price
    cases found
    omega
  · exact positive other otherSided q level found

theorem Positive.track (positive : Positive book) (sided : e.side ≠ .none) (some' : 1 ≤ e.size) :
    Positive (book.track e) := by
  have more : 1 ≤ e.size.toNat := UInt32.le_iff_toNat_le.mp some'
  exact positive.addToLevel sided e.price (by omega)

theorem Positive.cancelTracked (positive : Positive book) (sided : record.side ≠ .none) (e : MarketDataEvent) :
    Positive (book.cancelTracked record e) := by
  have lowered (delta : ℤ) :
      Positive (if 0 < delta then book.removeFromLevel record.side record.price delta else book) := by
    split
    · exact positive.removeFromLevel sided _ _
    · exact positive
  unfold AggregateBook.cancelTracked
  dsimp only
  split
  · exact lowered _
  · exact lowered _

theorem Positive.modifyTracked (positive : Positive book) (sided : record.side ≠ .none) (some' : 1 ≤ e.size) :
    Positive (book.modifyTracked record e) := by
  have more : 1 ≤ e.size.toNat := UInt32.le_iff_toNat_le.mp some'
  exact (positive.removeFromLevel sided record.price _).addToLevel (newSide_sided sided e) _ (by omega)

/-- The records are the orders of the reference book, none of size zero. -/
structure Tracks (book : AggregateBook) (reference : ReferenceBook) : Prop where
  records : ∀ id, book.orderIndex.find? id = (reference.find? id).map Resting.record
  sizes : ∀ id record, book.orderIndex.find? id = some record → 1 ≤ record.size

theorem Tracks.stored (tracks : Tracks book reference) (side : Side) (price : ScaledPrice) :
    stored book.orderIndex side price = reference.volumeAt side price := by
  have same :=
    (UnorderedMap.values_perm_map tracks.records).filter fun record => record.side = side ∧ record.price = price
  rw [AggregateBook.stored, (same.map _).sum_nat, List.filter_map, List.map_map, ReferenceBook.volumeAt,
    ReferenceBook.onSide, List.filter_filter]
  congr 2
  apply List.filter_congr
  intro order _
  rw [Bool.eq_iff_iff]
  simp only [Resting.record, Function.comp_apply, decide_eq_true_iff, Bool.and_eq_true]
  exact decide_eq_true_iff.trans and_comm

/-- A price has orders just where the sizes recorded there do not add up to zero. -/
theorem Tracks.volumeAt_eq_zero (tracks : Tracks book reference) :
    reference.volumeAt side price = 0 ↔ ¬∃ order ∈ reference.onSide side, order.price = price := by
  rw [ReferenceBook.volumeAt, List.sum_eq_zero_iff, not_exists]
  constructor
  · rintro allZero order ⟨member, isPrice⟩
    have zero :=
      allZero order.quantity.toNat (List.mem_map_of_mem (List.mem_filter.mpr ⟨member, by simpa using isPrice⟩))
    obtain ⟨id, found⟩ := (UnorderedMap.mem_values _ _).mp (List.mem_filter.mp member).1
    have sized := tracks.sizes id order.record (by rw [tracks.records, found, Option.map_some])
    have positive : 1 ≤ order.quantity.toNat := UInt32.le_iff_toNat_le.mp sized
    omega
  · intro noOrder quantity member
    obtain ⟨order, inside, _⟩ := List.mem_map.mp member
    obtain ⟨onSide, isPrice⟩ := List.mem_filter.mp inside
    exact absurd ⟨onSide, by simpa using isPrice⟩ (noOrder order)

section Answers

variable (aggregates : Aggregates book) (positive : Positive book) (tracks : Tracks book reference)
  (sided : side ≠ .none)

include aggregates positive tracks sided

/-- A level is there just where orders are, and holds their volume. -/
theorem level_eq (price : ScaledPrice) : book.level side price =
    if reference.volumeAt side price = 0 then none else some (reference.volumeAt side price : ℤ) := by
  have same := aggregates side sided price
  rw [tracks.stored, total] at same
  cases found : book.level side price with
  | none =>
    rw [found, Option.getD_none] at same
    rw [if_pos (by omega)]
  | some level =>
    have := positive side sided price level found
    rw [found, Option.getD_some] at same
    rw [if_neg (by omega), same]

theorem keys_eq : reference.prices side = (book.onSide side).keys := by
  have ordered : (book.onSide side).keys.Pairwise fun p q => side.order p q = .lt := Std.ExtTreeMap.ordered_keys
  apply ReferenceBook.prices_eq
  · exact Std.ExtTreeMap.nodup_keys
  · apply ordered.imp
    intro p q before
    cases side with
    | none => contradiction
    | buy => exact ReferenceBook.better_buy.mpr (Std.compare_eq_lt.mp before).le
    | sell => exact (ReferenceBook.better_of_ne_buy (by simp)).mpr (Std.compare_eq_lt.mp before).le
  · intro price
    rw [Std.ExtTreeMap.mem_keys, Std.ExtTreeMap.mem_iff_isSome_getElem?, getElem?_onSide sided,
      level_eq aggregates positive tracks sided, ← not_iff_not, ← tracks.volumeAt_eq_zero]
    split <;> simp_all

theorem bestPrice_eq : book.bestPrice side = reference.bestPrice side := by
  rw [ReferenceBook.bestPrice_eq_head? sided, keys_eq aggregates positive tracks sided]
  cases side with
  | none => contradiction
  | buy | sell => rfl

theorem volumeAt_eq (price : ScaledPrice) :
    book.volumeAt side price = UInt64.ofNat (reference.volumeAt side price) := by
  have unfolded : book.volumeAt side price = ((book.level side price).map UInt64.ofInt).getD 0 := by
    cases side with
    | none => contradiction
    | buy | sell => rfl
  rw [unfolded, level_eq aggregates positive tracks sided]
  split
  · next zero => rw [zero]; rfl
  · exact LimitOrderBook.ofInt_natCast _

theorem empty_eq : book.empty side = reference.empty side := by
  have unfolded : book.empty side = (book.onSide side).keys.isEmpty := by
    rw [Std.ExtTreeMap.isEmpty_keys]
    cases side with
    | none => contradiction
    | buy | sell => rfl
  rw [unfolded, ← keys_eq aggregates positive tracks sided, ReferenceBook.isEmpty_prices,
    ReferenceBook.empty_of_sided sided]

theorem sideLevels_eq :
    book.sideLevels side = (reference.sideLevels side).map fun (price, volume) => (price, (volume : ℤ)) := by
  have unfolded : book.sideLevels side = (book.onSide side).toList := by
    cases side with
    | none => contradiction
    | buy | sell => rfl
  have entry : ∀ entry ∈ (book.onSide side).toList, entry = (entry.1, (reference.volumeAt side entry.1 : ℤ)) := by
    rintro ⟨price, level⟩ member
    rw [Std.ExtTreeMap.mem_toList_iff_getElem?_eq_some, getElem?_onSide sided,
      level_eq aggregates positive tracks sided] at member
    split at member
    · contradiction
    · cases member
      rfl
  rw [unfolded, ReferenceBook.sideLevels, keys_eq aggregates positive tracks sided, List.map_map,
    ← Std.ExtTreeMap.map_fst_toList_eq_keys, List.map_map]
  calc (book.onSide side).toList = (book.onSide side).toList.map fun entry => entry := (List.map_id' _).symm
    _ = _ := List.map_congr_left entry

end Answers

end AggregateBook

end BackTester
