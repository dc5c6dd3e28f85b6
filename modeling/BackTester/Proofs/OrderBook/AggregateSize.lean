import BackTester.Proofs.OrderBook.AggregateBook

/-! # How many levels a map book has

No event adds more than one level to a side.
-/

namespace BackTester

theorem PriceMap.size_insert_of_some {side : Side} {map : PriceMap side} {price : ScaledPrice} {level : ℤ}
    (found : map[price]? = some level) (total : ℤ) : (map.insert price total).size = map.size := by
  have isIn : map.contains price := by rw [Std.ExtTreeMap.contains_eq_isSome_getElem?, found, Option.isSome_some]
  rw [Std.ExtTreeMap.size_insert, if_pos isIn]

namespace AggregateBook

variable {book : AggregateBook} {n : ℕ}

/-- No side has more levels than this. -/
def Within (book : AggregateBook) (n : ℕ) : Prop := book.bids.size ≤ n ∧ book.asks.size ≤ n

theorem within_addToLevel (within : book.Within n) (side : Side) (price : ScaledPrice) (delta : ℤ) :
    (book.addToLevel side price delta).Within (n + 1) := by
  unfold addToLevel
  split
  · exact ⟨Std.ExtTreeMap.size_insert_le.trans (Nat.succ_le_succ within.1), Nat.le_succ_of_le within.2⟩
  · exact ⟨Nat.le_succ_of_le within.1, Std.ExtTreeMap.size_insert_le.trans (Nat.succ_le_succ within.2)⟩

theorem within_removeFromLevel (within : book.Within n) (side : Side) (price : ScaledPrice) (delta : ℤ) :
    (book.removeFromLevel side price delta).Within n := by
  unfold removeFromLevel
  split
  · split
    · exact within
    · next found =>
      split
      · exact ⟨Std.ExtTreeMap.size_erase_le.trans within.1, within.2⟩
      · exact ⟨(PriceMap.size_insert_of_some found _).le.trans within.1, within.2⟩
  · split
    · exact within
    · next found =>
      split
      · exact ⟨within.1, Std.ExtTreeMap.size_erase_le.trans within.2⟩
      · exact ⟨within.1, (PriceMap.size_insert_of_some found _).le.trans within.2⟩

theorem Within.mono (within : book.Within n) {m : ℕ} (le : n ≤ m) : book.Within m :=
  ⟨within.1.trans le, within.2.trans le⟩

theorem within_cancelTracked (within : book.Within n) (record : OrderRecord) (e : MarketDataEvent) :
    (book.cancelTracked record e).Within n := by
  have removed : (if 0 < (record.size.toNat : ℤ) - e.size.toNat then
      book.removeFromLevel record.side record.price (record.size.toNat - e.size.toNat) else book).Within n := by
    split
    · exact within_removeFromLevel within _ _ _
    · exact within
  unfold cancelTracked
  dsimp only
  split
  · exact removed
  · exact removed

theorem within_modifyTracked (within : book.Within n) (record : OrderRecord) (e : MarketDataEvent) :
    (book.modifyTracked record e).Within (n + 1) :=
  within_addToLevel (within_removeFromLevel within _ _ _) _ _ _

end AggregateBook

namespace AbseilOrderBook

open AggregateBook

theorem within_applyImpl {book : AbseilOrderBook} {n : ℕ} (within : book.Within n) (e : MarketDataEvent) :
    (book.applyImpl e).Within (n + 1) := by
  have stays := within.mono (Nat.le_succ n)
  unfold applyImpl
  split
  · split
    · exact stays
    · exact within_addToLevel within _ _ _
  · split
    · exact stays
    · exact (within_cancelTracked within _ e).mono (Nat.le_succ n)
  · split
    · split
      · exact within_addToLevel within _ _ _
      · exact stays
    · exact within_modifyTracked within _ e
  · exact ⟨Nat.zero_le _, Nat.zero_le _⟩
  · exact stays

theorem within_run (events : List MarketDataEvent) : (run events).Within events.length := by
  induction events using List.reverseRecOn with
  | nil => exact ⟨Nat.zero_le _, Nat.zero_le _⟩
  | append_singleton events e ih =>
    rw [run_append_singleton, List.length_append, List.length_singleton]
    exact within_applyImpl ih e

/-- A side has at most as many levels as there were events. -/
theorem length_sideLevels_run (events : List MarketDataEvent) (side : Side) :
    ((run events).sideLevels side).length ≤ events.length := by
  have within := within_run events
  unfold sideLevels
  split
  · rw [Std.ExtTreeMap.length_toList]
    exact within.1
  · rw [Std.ExtTreeMap.length_toList]
    exact within.2

end AbseilOrderBook

end BackTester
