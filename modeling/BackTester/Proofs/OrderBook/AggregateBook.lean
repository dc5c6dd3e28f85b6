import BackTester.Model.OrderBook.MapOrderBook

/-! # Totals by price

What the shared functions of the map-based books do to the total at a price, and what they keep:
the total is the sum of the recorded sizes there. Between taking an order off its level and
recording it anew the totals count every order but that one.
-/

namespace BackTester

theorem PriceMap.getElem?_insert {side : Side} (map : PriceMap side) (price q : ScaledPrice) (total : ℤ) :
    (map.insert price total)[q]? = if q = price then some total else map[q]? := by
  rw [Std.ExtTreeMap.getElem?_insert]
  simp only [Std.LawfulEqCmp.compare_eq_iff_eq, @eq_comm _ price]

theorem PriceMap.getElem?_erase {side : Side} (map : PriceMap side) (price q : ScaledPrice) :
    (map.erase price)[q]? = if q = price then none else map[q]? := by
  rw [Std.ExtTreeMap.getElem?_erase]
  simp only [Std.LawfulEqCmp.compare_eq_iff_eq, @eq_comm _ price]

namespace AggregateBook

variable {book : AggregateBook} {side other : Side} {price q : ScaledPrice} {id : UInt64} {record : OrderRecord}
  {e : MarketDataEvent}

/-- The entry of the map of a side. -/
def level (book : AggregateBook) (side : Side) (price : ScaledPrice) : Option ℤ :=
  if side = .buy then book.bids[price]? else book.asks[price]?

/-- The level quantity, 0 where the level is absent. -/
def total (book : AggregateBook) (side : Side) (price : ScaledPrice) : ℤ := (book.level side price).getD 0

/-- The sizes recorded at a side and price. -/
def stored (index : UnorderedMap UInt64 OrderRecord) (side : Side) (price : ScaledPrice) : ℕ :=
  ((index.values.filter fun record => record.side = side ∧ record.price = price).map fun record =>
    record.size.toNat).sum

/-- What one record contributes there. -/
def share (record : OrderRecord) (side : Side) (price : ScaledPrice) : ℕ :=
  if record.side = side ∧ record.price = price then record.size.toNat else 0

@[simp] theorem level_assign (book : AggregateBook) (id : UInt64) (record : OrderRecord) :
    (book.assign id record).level = book.level := rfl

@[simp] theorem total_assign (book : AggregateBook) (id : UInt64) (record : OrderRecord) :
    (book.assign id record).total = book.total := rfl

@[simp] theorem orderIndex_assign (book : AggregateBook) (id : UInt64) (record : OrderRecord) :
    (book.assign id record).orderIndex = book.orderIndex.assign id record := rfl

@[simp] theorem orderIndex_addToLevel (book : AggregateBook) (side : Side) (price : ScaledPrice) (delta : ℤ) :
    (book.addToLevel side price delta).orderIndex = book.orderIndex := by
  unfold addToLevel
  split <;> rfl

@[simp] theorem orderIndex_removeFromLevel (book : AggregateBook) (side : Side) (price : ScaledPrice) (delta : ℤ) :
    (book.removeFromLevel side price delta).orderIndex = book.orderIndex := by
  unfold removeFromLevel
  split <;> split <;> first | rfl | split <;> rfl

@[simp] theorem orderIndex_track (book : AggregateBook) (e : MarketDataEvent) :
    (book.track e).orderIndex = book.orderIndex.assign e.orderId ⟨e.side, e.price, e.size⟩ := by
  rw [track, orderIndex_assign, orderIndex_addToLevel]

/-- A cancel sets the recorded size to what remains. -/
@[simp] theorem orderIndex_cancelTracked (book : AggregateBook) (record : OrderRecord) (e : MarketDataEvent) :
    (book.cancelTracked record e).orderIndex =
      if e.size = 0 then book.orderIndex.remove e.orderId
      else book.orderIndex.assign e.orderId { record with size := e.size } := by
  have zero : (e.size.toNat : ℤ) = 0 ↔ e.size = 0 := by
    rw [Int.natCast_eq_zero, ← UInt32.toNat_inj]
    rfl
  simp only [cancelTracked, zero, Int.toNat_natCast, UInt32.ofNat_toNat]
  split <;> split <;> simp

@[simp] theorem orderIndex_modifyTracked (book : AggregateBook) (record : OrderRecord) (e : MarketDataEvent) :
    (book.modifyTracked record e).orderIndex = book.orderIndex.assign e.orderId
      ⟨if e.side ≠ .none then e.side else record.side, if e.isPriceDefined then e.price else record.price, e.size⟩ := by
  simp [modifyTracked]

/-- Only the level itself changes, and it is there afterwards. -/
theorem level_addToLevel (sided : side ≠ .none) (otherSided : other ≠ .none) (delta : ℤ) :
    (book.addToLevel side price delta).level other q =
      if other = side ∧ q = price then some (book.total side price + delta) else book.level other q := by
  cases side with
  | none => contradiction
  | buy | sell =>
    cases other with
    | none => contradiction
    | buy | sell =>
      simp [addToLevel, level, total, PriceMap.getElem?_insert, Std.ExtTreeMap.getD_eq_getD_getElem?]

/-- Only the level itself changes; it is gone once nothing is left. -/
theorem level_removeFromLevel (sided : side ≠ .none) (otherSided : other ≠ .none) (delta : ℤ) :
    (book.removeFromLevel side price delta).level other q =
      if other = side ∧ q = price then
        (book.level side price).bind fun level => if level - delta ≤ 0 then none else some (level - delta)
      else book.level other q := by
  cases side with
  | none => contradiction
  | buy | sell =>
    cases found : book.level _ price with
    | none =>
      simp only [level, reduceCtorEq, if_true, if_false] at found
      cases other <;> simp_all [removeFromLevel, level]
    | some level =>
      simp only [AggregateBook.level, reduceCtorEq, if_true, if_false] at found
      simp only [removeFromLevel, AggregateBook.level, reduceCtorEq, if_true, if_false, found, Option.bind_some]
      cases other with
      | none => contradiction
      | buy | sell =>
        by_cases used : level - delta ≤ 0 <;> simp [used, PriceMap.getElem?_insert, PriceMap.getElem?_erase]

/-- An addition. -/
theorem total_addToLevel (sided : side ≠ .none) (otherSided : other ≠ .none) (delta : ℤ) :
    (book.addToLevel side price delta).total other q =
      book.total other q + if other = side ∧ q = price then delta else 0 := by
  unfold total
  rw [level_addToLevel sided otherSided]
  split
  · next here =>
    obtain ⟨rfl, rfl⟩ := here
    rfl
  · simp

/-- A subtraction, where it stays above zero. -/
theorem total_removeFromLevel (sided : side ≠ .none) (otherSided : other ≠ .none) {delta : ℤ}
    (enough : delta ≤ book.total side price) (nonneg : 0 ≤ delta) :
    (book.removeFromLevel side price delta).total other q =
      book.total other q - if other = side ∧ q = price then delta else 0 := by
  unfold total at *
  rw [level_removeFromLevel sided otherSided]
  split
  · next here =>
    obtain ⟨rfl, rfl⟩ := here
    cases found : book.level other q with
    | none =>
      rw [found] at enough
      simp only [Option.getD_none, Option.bind_none] at *
      omega
    | some level =>
      rw [found] at enough
      simp only [Option.getD_some, Option.bind_some] at *
      split
      · rw [Option.getD_none]
        omega
      · rfl
  · simp

theorem stored_eq_sum (index : UnorderedMap UInt64 OrderRecord) (side : Side) (price : ScaledPrice) :
    stored index side price = (index.values.map fun record => share record side price).sum := by
  unfold stored
  induction index.values with
  | nil => rfl
  | cons record records ih =>
    rw [List.map_cons, List.sum_cons, ← ih, List.filter_cons]
    by_cases here : record.side = side ∧ record.price = price <;> simp [here, share]

theorem stored_assign (index : UnorderedMap UInt64 OrderRecord) (id : UInt64) (record : OrderRecord) (side : Side)
    (price : ScaledPrice) :
    stored (index.assign id record) side price = share record side price + stored (index.remove id) side price := by
  rw [stored_eq_sum, stored_eq_sum, UnorderedMap.values_assign, List.map_cons, List.sum_cons]

theorem stored_of_find? {index : UnorderedMap UInt64 OrderRecord} (found : index.find? id = some record) (side : Side)
    (price : ScaledPrice) :
    stored index side price = share record side price + stored (index.remove id) side price := by
  rw [stored_eq_sum, stored_eq_sum, ((UnorderedMap.values_perm_remove found).map _).sum_nat,
    List.map_cons, List.sum_cons]

theorem stored_remove_of_none {index : UnorderedMap UInt64 OrderRecord} (unknown : index.find? id = none) (side : Side)
    (price : ScaledPrice) : stored (index.remove id) side price = stored index side price := by
  rw [stored_eq_sum, stored_eq_sum, ((UnorderedMap.values_perm_remove_of_none unknown).map _).sum_nat]

/-- Every record is on one of the two sides. -/
def Sided (index : UnorderedMap UInt64 OrderRecord) : Prop :=
  ∀ id record, index.find? id = some record → record.side ≠ .none

theorem sided_empty : Sided ∅ := by
  intro id record found
  simp at found

theorem Sided.remove {index : UnorderedMap UInt64 OrderRecord} (sided : Sided index) (id : UInt64) :
    Sided (index.remove id) := by
  intro other record found
  rw [UnorderedMap.find?_remove] at found
  split at found
  · contradiction
  · exact sided other record found

theorem Sided.assign {index : UnorderedMap UInt64 OrderRecord} (sided : Sided index)
    (id : UInt64) {record : OrderRecord} (here : record.side ≠ .none) : Sided (index.assign id record) := by
  intro other found? found
  rw [UnorderedMap.find?_assign] at found
  split at found
  · exact Option.some.inj found ▸ here
  · exact sided other found? found

/-- A side that an event leaves out is the recorded one. -/
theorem newSide_sided (sided : record.side ≠ .none) (e : MarketDataEvent) :
    (if e.side ≠ .none then e.side else record.side) ≠ .none := by
  split
  · assumption
  · exact sided

theorem sided_track (sided : Sided book.orderIndex) (here : e.side ≠ .none) : Sided (book.track e).orderIndex := by
  rw [orderIndex_track]
  exact sided.assign _ here

theorem sided_cancelTracked (sided : Sided book.orderIndex) (found : book.orderIndex.find? e.orderId = some record) :
    Sided (book.cancelTracked record e).orderIndex := by
  rw [orderIndex_cancelTracked]
  split
  · exact sided.remove _
  · exact sided.assign _ (sided _ record found)

theorem sided_modifyTracked (sided : Sided book.orderIndex) (found : book.orderIndex.find? e.orderId = some record) :
    Sided (book.modifyTracked record e).orderIndex := by
  rw [orderIndex_modifyTracked]
  exact sided.assign _ (newSide_sided (sided _ record found) e)

/-- Every total is the sum of the sizes recorded there. -/
def Aggregates (book : AggregateBook) : Prop :=
  ∀ side ≠ .none, ∀ price, book.total side price = stored book.orderIndex side price

/-- Every total is the sum of the sizes recorded there under other ids. -/
def AggregatesWithout (book : AggregateBook) (id : UInt64) : Prop :=
  ∀ side ≠ .none, ∀ price, book.total side price = stored (book.orderIndex.remove id) side price

theorem aggregates_empty : Aggregates {} := by
  intro side _ price
  simp [total, level, stored, UnorderedMap.values]

theorem Aggregates.unknown (holds : Aggregates book) (unknown : book.orderIndex.find? id = none) :
    AggregatesWithout book id := by
  intro side sided price
  rw [stored_remove_of_none unknown]
  exact holds side sided price

/-- A level covers each of its records. -/
theorem Aggregates.covers (holds : Aggregates book) (sided : record.side ≠ .none)
    (found : book.orderIndex.find? id = some record) : record.size.toNat ≤ book.total record.side record.price := by
  rw [holds record.side sided, stored_of_find? found, share, if_pos ⟨rfl, rfl⟩]
  omega

/-- A record is taken off its level. -/
theorem Aggregates.removeFromLevel (holds : Aggregates book) (sided : record.side ≠ .none)
    (found : book.orderIndex.find? id = some record) :
    AggregatesWithout (book.removeFromLevel record.side record.price record.size.toNat) id := by
  intro side sided' price
  have counted := holds side sided' price
  rw [stored_of_find? found, share] at counted
  rw [total_removeFromLevel sided sided' (holds.covers sided found) (by omega), orderIndex_removeFromLevel, counted]
  by_cases here : side = record.side ∧ price = record.price
  · rw [if_pos here, if_pos ⟨here.1.symm, here.2.symm⟩]
    omega
  · rw [if_neg here, if_neg fun same => here ⟨same.1.symm, same.2.symm⟩]
    omega

/-- A record is added to its level. -/
theorem AggregatesWithout.assign (holds : AggregatesWithout book id) (record : OrderRecord)
    (sided : record.side ≠ .none) :
    Aggregates ((book.addToLevel record.side record.price record.size.toNat).assign id record) := by
  intro side sided' price
  rw [total_assign, total_addToLevel sided sided', holds side sided', orderIndex_assign, orderIndex_addToLevel,
    stored_assign, share]
  by_cases here : side = record.side ∧ price = record.price
  · rw [if_pos here, if_pos ⟨here.1.symm, here.2.symm⟩]
    omega
  · rw [if_neg here, if_neg fun same => here ⟨same.1.symm, same.2.symm⟩]
    omega

theorem AggregatesWithout.track (holds : AggregatesWithout book e.orderId) (sided : e.side ≠ .none) :
    Aggregates (book.track e) := holds.assign ⟨e.side, e.price, e.size⟩ sided

theorem Aggregates.modifyTracked (holds : Aggregates book) (sided : record.side ≠ .none)
    (found : book.orderIndex.find? e.orderId = some record) : Aggregates (book.modifyTracked record e) := by
  exact (holds.removeFromLevel sided found).assign ⟨_, if e.isPriceDefined then e.price else record.price, e.size⟩
    (newSide_sided sided e)

/-- A cancel changes record and total by the same amount just where it does not raise the size. -/
theorem Aggregates.cancelTracked (holds : Aggregates book) (sided : record.side ≠ .none)
    (found : book.orderIndex.find? e.orderId = some record) :
    Aggregates (book.cancelTracked record e) ↔ e.size.toNat ≤ record.size.toNat := by
  have covers := holds.covers sided found
  let delta : ℤ := record.size.toNat - e.size.toNat
  let lowered := if 0 < delta then book.removeFromLevel record.side record.price delta else book
  have isLowered (side : Side) (sided' : side ≠ .none) (price : ScaledPrice) : lowered.total side price =
      stored (book.orderIndex.remove e.orderId) side price + share record side price -
        if side = record.side ∧ price = record.price then max delta 0 else 0 := by
    have counted := holds side sided' price
    rw [stored_of_find? found] at counted
    dsimp only [lowered]
    by_cases less : 0 < delta
    · rw [if_pos less, total_removeFromLevel sided sided' (by omega) less.le, counted, max_eq_left less.le]
      omega
    · rw [if_neg less, counted, max_eq_right (not_lt.mp less), ite_self]
      omega
  let kept : OrderRecord := { record with size := e.size }
  have cancelled : (book.cancelTracked record e).total = lowered.total ∧ ∀ side price,
      stored (book.cancelTracked record e).orderIndex side price =
        share kept side price + stored (book.orderIndex.remove e.orderId) side price := by
    refine ⟨?_, fun side price => ?_⟩
    · simp only [AggregateBook.cancelTracked]
      split <;> rfl
    · rw [orderIndex_cancelTracked]
      split
      · next zero =>
        have noShare : share kept side price = 0 := by simp [share, kept, zero]
        rw [noShare, Nat.zero_add]
      · exact stored_assign ..
  unfold Aggregates
  rw [cancelled.1]
  constructor
  · intro aggregates
    have here := aggregates record.side sided record.price
    rw [isLowered _ sided, cancelled.2] at here
    simp only [share, kept, and_self, if_true] at here
    omega
  · intro fewer side sided' price
    rw [isLowered side sided', cancelled.2]
    simp only [share, kept]
    by_cases here : side = record.side ∧ price = record.price
    · rw [if_pos here, if_pos ⟨here.1.symm, here.2.symm⟩, if_pos ⟨here.1.symm, here.2.symm⟩]
      omega
    · have notHere : ¬(record.side = side ∧ record.price = price) := fun same => here ⟨same.1.symm, same.2.symm⟩
      rw [if_neg here, if_neg notHere, if_neg notHere]
      omega

end AggregateBook

end BackTester
