import BackTester.Soundness.MapOrderBook

/-! # The two map-based books

The books differ in one branch: an add under a known id, where only `MapOrderBook` takes the old
order off its level first. They answer alike as long as that makes no difference.
-/

namespace BackTester

namespace AggregateBook

variable {book book' : AggregateBook} {record : OrderRecord} {e : MarketDataEvent}

/-- Two books answer alike. -/
def SameAnswers (book book' : AggregateBook) : Prop := ∀ side ≠ .none,
  book.bestPrice side = book'.bestPrice side ∧ (∀ price, book.volumeAt side price = book'.volumeAt side price) ∧
    book.empty side = book'.empty side ∧ book.sideLevels side = book'.sideLevels side

/-- Books that answer alike and hold the same records are the same. -/
theorem sameAnswers_iff (sameIndex : book.orderIndex = book'.orderIndex) : SameAnswers book book' ↔ book = book' := by
  constructor
  · intro same
    have bids : book.bids = book'.bids := Std.ExtTreeMap.toList_inj.mp (same .buy (by simp)).2.2.2
    have asks : book.asks = book'.asks := Std.ExtTreeMap.toList_inj.mp (same .sell (by simp)).2.2.2
    cases book
    cases book'
    cases bids
    cases asks
    cases sameIndex
    rfl
  · rintro rfl side _
    exact ⟨rfl, fun _ => rfl, rfl, rfl⟩

/-- Books with the same levels and records are the same. -/
theorem ext_level (sameIndex : book.orderIndex = book'.orderIndex)
    (same : ∀ side ≠ .none, ∀ price, book.level side price = book'.level side price) : book = book' := by
  have bids : book.bids = book'.bids := Std.ExtTreeMap.ext_getElem? (same .buy (by simp))
  have asks : book.asks = book'.asks := Std.ExtTreeMap.ext_getElem? (same .sell (by simp))
  cases book
  cases book'
  cases bids
  cases asks
  cases sameIndex
  rfl

/-- Taking the recorded order off its level first makes no difference to adding the new one: its level is gone, or it
counts for nothing at a level that stays, or its level is empty and the new order's as well. -/
def Replaceable (book : AggregateBook) (record : OrderRecord) (e : MarketDataEvent) : Prop :=
  ∀ level, book.level record.side record.price = some level →
    record.size = 0 ∧ 0 < level ∨ level = 0 ∧ record.side = e.side ∧ record.price = e.price

theorem track_removeFromLevel_iff (sided : record.side ≠ .none) (given : e.side ≠ .none) :
    (book.removeFromLevel record.side record.price record.size.toNat).track e = book.track e ↔
      book.Replaceable record e := by
  let removed := book.removeFromLevel record.side record.price record.size.toNat
  have isRemoved {side : Side} (sided' : side ≠ .none) (price : ScaledPrice) : removed.level side price =
      if side = record.side ∧ price = record.price then
        (book.level record.side record.price).bind fun level =>
          if level - record.size.toNat ≤ 0 then none else some (level - record.size.toNat)
      else book.level side price := level_removeFromLevel sided sided' _
  have isTracked (book : AggregateBook) {side : Side} (sided' : side ≠ .none) (price : ScaledPrice) :
      (book.track e).level side price =
        if side = e.side ∧ price = e.price then some (book.total e.side e.price + e.size.toNat)
        else book.level side price := level_addToLevel given sided' _
  have zero : record.size = 0 ↔ (record.size.toNat : ℤ) = 0 := by
    rw [Int.natCast_eq_zero, ← UInt32.toNat_inj]
    rfl
  constructor
  · intro same level found
    have sameLevel {side : Side} (sided' : side ≠ .none) (price : ScaledPrice) :
        (removed.track e).level side price = (book.track e).level side price := by rw [same]
    by_cases here : record.side = e.side ∧ record.price = e.price
    · have sameTotal := sameLevel given e.price
      rw [isTracked removed given, isTracked book given, if_pos ⟨rfl, rfl⟩, if_pos ⟨rfl, rfl⟩, Option.some_inj, total,
        total, isRemoved given, if_pos ⟨here.1.symm, here.2.symm⟩, ← here.1, ← here.2,
        found, Option.bind_some] at sameTotal
      by_cases used : level - record.size.toNat ≤ 0
      · rw [if_pos used, Option.getD_none, Option.getD_some] at sameTotal
        exact .inr ⟨by omega, here⟩
      · rw [if_neg used, Option.getD_some, Option.getD_some] at sameTotal
        exact .inl ⟨zero.mpr (by omega), by omega⟩
    · have sameRecord := sameLevel sided record.price
      rw [isTracked removed sided, isTracked book sided, if_neg here, if_neg here,
        isRemoved sided, if_pos ⟨rfl, rfl⟩, found, Option.bind_some] at sameRecord
      by_cases used : level - record.size.toNat ≤ 0
      · rw [if_pos used] at sameRecord
        contradiction
      · rw [if_neg used, Option.some_inj] at sameRecord
        exact .inl ⟨zero.mpr (by omega), by omega⟩
  · intro replaceable
    apply ext_level
    · simp
    · intro side sided' price
      rw [isTracked book sided', isTracked removed sided']
      cases found : book.level record.side record.price with
      | none =>
        have same {side : Side} (sided' : side ≠ .none) (price : ScaledPrice) :
            removed.level side price = book.level side price := by
          rw [isRemoved sided']
          split
          · next here => rw [found, here.1, here.2, found, Option.bind_none]
          · rfl
        rw [total, same given, same sided', ← total]
      | some level =>
        rcases replaceable level found with ⟨isZero, positive⟩ | ⟨rfl, isSide, isPrice⟩
        · have same {side : Side} (sided' : side ≠ .none) (price : ScaledPrice) :
              removed.level side price = book.level side price := by
            have stays : ¬level - record.size.toNat ≤ 0 := by
              have := zero.mp isZero
              omega
            rw [isRemoved sided']
            split
            · next here =>
              rw [found, here.1, here.2, found, Option.bind_some, if_neg stays, zero.mp isZero, sub_zero]
            · rfl
          rw [total, same given, same sided', ← total]
        · have gone : (0 : ℤ) - record.size.toNat ≤ 0 := by omega
          split
          · rw [total, isRemoved given, if_pos ⟨isSide.symm, isPrice.symm⟩, found, Option.bind_some, if_pos gone,
              Option.getD_none, total, ← isSide, ← isPrice, found, Option.getD_some]
          · next notHere => rw [isRemoved sided', if_neg (isSide ▸ isPrice ▸ notHere)]

end AggregateBook

namespace AbseilOrderBook

open AggregateBook

/-- An add under a known id replaces an order that may as well stay. -/
def Undisturbed (book : MapOrderBook) (e : MarketDataEvent) : Prop :=
  e.action = .add → e.side ≠ .none → e.isPriceDefined → ∀ record, book.orderIndex.find? e.orderId = some record →
    book.Replaceable record e

variable {book : MapOrderBook} {book' : AbseilOrderBook} {e : MarketDataEvent}

/-- The records never differ. -/
theorem orderIndex_applyImpl (same : book'.orderIndex = book.orderIndex) (e : MarketDataEvent) :
    (book'.applyImpl e).orderIndex = (book.applyImpl e).orderIndex := by
  unfold applyImpl MapOrderBook.applyImpl
  rw [same]
  cases e.action with
  | add =>
    dsimp only
    split
    · exact same
    · split <;> simp [update, MapOrderBook.update, MapOrderBook.logBook, same]
  | cancel =>
    dsimp only
    split <;> simp [update, MapOrderBook.update, MapOrderBook.logBook, same]
  | modify =>
    dsimp only
    split
    · split <;> simp [update, MapOrderBook.update, MapOrderBook.logBook, same]
    · simp [update, MapOrderBook.update, same]
  | clear => rfl
  | trade | fill | none | unnamed => exact same

theorem orderIndex_run (events : List MarketDataEvent) :
    (MapOrderBook.run events).orderIndex = (run events).orderIndex := by
  induction events using List.reverseRecOn with
  | nil => rfl
  | append_singleton events e ih =>
    rw [run_append_singleton, MapOrderBook.run_append_singleton]
    exact (orderIndex_applyImpl ih.symm e).symm

/-- Equal books stay equal under an event just where it replaces nothing that matters. -/
theorem applyImpl_eq_iff (same : book.toAggregateBook = book'.toAggregateBook) (sided : Sided book.orderIndex)
    (e : MarketDataEvent) :
    (book.applyImpl e).toAggregateBook = (book'.applyImpl e).toAggregateBook ↔ Undisturbed book e := by
  unfold applyImpl MapOrderBook.applyImpl
  rw [← same]
  cases action : e.action with
  | add =>
    dsimp only
    by_cases given : e.side = .none ∨ !e.isPriceDefined
    · rw [if_pos given, if_pos given]
      have undisturbed : Undisturbed book e := by
        intro _ here defined
        simp [here, defined] at given
      exact iff_of_true same undisturbed
    · rw [if_neg given, if_neg given]
      obtain ⟨here, defined⟩ := not_or.mp given
      simp only [Bool.not_eq_true', Bool.not_eq_false] at defined
      cases found : book.orderIndex.find? e.orderId with
      | none =>
        have undisturbed : Undisturbed book e := by
          intro _ _ _ record known
          simp [found] at known
        exact iff_of_true (by simp [update, MapOrderBook.update, same]) undisturbed
      | some record =>
        have replaced : Undisturbed book e ↔ book.Replaceable record e := by
          simp [Undisturbed, action, here, defined, found]
        rw [replaced, ← track_removeFromLevel_iff (sided _ record found) here]
        simp [update, MapOrderBook.update, MapOrderBook.logBook, same]
  | cancel | modify | clear | trade | fill | none | unnamed =>
    have undisturbed : Undisturbed book e := fun add => by simp [action] at add
    refine iff_of_true ?_ undisturbed
    dsimp only
    repeat' split
    all_goals simp [update, MapOrderBook.update, MapOrderBook.logBook, same]

/-- The books answer alike after every event just where no add replaces an order that matters. -/
theorem sameAnswers_run_iff (events : List MarketDataEvent) :
    (∀ n, SameAnswers (MapOrderBook.run (events.take n)).toAggregateBook (run (events.take n)).toAggregateBook) ↔
      ∀ n e, events[n]? = some e → Undisturbed (MapOrderBook.run (events.take n)) e := by
  apply List.forall_prefix_iff
    (fun prior => SameAnswers (MapOrderBook.run prior).toAggregateBook (run prior).toAggregateBook)
    fun prior => Undisturbed (MapOrderBook.run prior)
  · exact (sameAnswers_iff rfl).mpr rfl
  · intro prior e same
    have equal := (sameAnswers_iff (orderIndex_run prior)).mp same
    rw [sameAnswers_iff (orderIndex_run _), run_append_singleton, MapOrderBook.run_append_singleton]
    exact applyImpl_eq_iff equal (MapOrderBook.sided_run prior) e

/-- Ten are added and then three under the same id: one book says 3, the other 13. -/
theorem not_sameAnswers_run :
    ¬∀ events, SameAnswers (MapOrderBook.run events).toAggregateBook (run events).toAggregateBook := by
  intro always
  have mismatch := (always
    [{ orderId := 1, side := .buy, price := 100, size := 10, action := .add },
      { orderId := 1, side := .buy, price := 100, size := 3, action := .add }] .buy (by decide)).2.1 100
  revert mismatch
  decide

end AbseilOrderBook

end BackTester
