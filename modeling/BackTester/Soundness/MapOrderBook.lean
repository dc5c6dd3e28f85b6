import BackTester.Proofs.OrderBook.AggregateBook
import BackTester.ToMathlib.Prefixes

/-! # Totals of the map book

Every event keeps the totals of the map book equal to the sums of its records but one: a cancel that
leaves more than was recorded raises the record and not the total.
-/

namespace BackTester.MapOrderBook

open AggregateBook

variable {book : MapOrderBook} {e : MarketDataEvent}

/-- A cancel leaves at most what is recorded. -/
def WithinRecord (book : MapOrderBook) (e : MarketDataEvent) : Prop :=
  e.action = .cancel → ∀ record, book.orderIndex.find? e.orderId = some record → e.size ≤ record.size

theorem sided_applyImpl (sided : Sided book.orderIndex) (e : MarketDataEvent) :
    Sided (book.applyImpl e).orderIndex := by
  unfold applyImpl
  split
  · split
    · exact sided
    · next given =>
      obtain ⟨here, _⟩ := not_or.mp given
      dsimp only
      split
      · refine sided_track ?_ here
        rw [update, orderIndex_removeFromLevel]
        exact sided
      · exact sided_track sided here
  · split
    · exact sided
    · next found => exact sided_cancelTracked sided found
  · split
    · split
      · next given => exact sided_track sided given.1
      · exact sided
    · next found => exact sided_modifyTracked sided found
  · exact sided_empty
  · exact sided

theorem sided_run (events : List MarketDataEvent) : Sided (run events).orderIndex := by
  induction events using List.reverseRecOn with
  | nil => exact sided_empty
  | append_singleton events e ih =>
    rw [run_append_singleton]
    exact sided_applyImpl ih e

/-- An event keeps the totals just where it is no cancel above the record. -/
theorem aggregates_applyImpl (holds : Aggregates book.toAggregateBook) (sided : Sided book.orderIndex)
    (e : MarketDataEvent) : Aggregates (book.applyImpl e).toAggregateBook ↔ WithinRecord book e := by
  unfold applyImpl
  cases action : e.action with
  | add =>
    have within : WithinRecord book e := fun cancel => by simp [action] at cancel
    refine iff_of_true ?_ within
    dsimp only
    split
    · exact holds
    · next given =>
      obtain ⟨here, _⟩ := not_or.mp given
      split
      · next side price storedSize found =>
        exact (holds.removeFromLevel (sided _ ⟨side, price, storedSize⟩ found) found).track here
      · next unknown => exact (holds.unknown unknown).track here
  | cancel =>
    dsimp only
    cases found : book.orderIndex.find? e.orderId with
    | none => exact iff_of_true holds fun _ record known => by simp [found] at known
    | some record =>
      refine (holds.cancelTracked (sided _ record found) found).trans ?_
      simp [WithinRecord, action, found, UInt32.le_iff_toNat_le]
  | modify =>
    have within : WithinRecord book e := fun cancel => by simp [action] at cancel
    refine iff_of_true ?_ within
    dsimp only
    split
    · next unknown =>
      split
      · next given => exact (holds.unknown unknown).track given.1
      · exact holds
    · next record found => exact holds.modifyTracked (sided _ record found) found
  | clear =>
    have within : WithinRecord book e := fun cancel => by simp [action] at cancel
    exact iff_of_true aggregates_empty within
  | trade | fill | none | unnamed =>
    have within : WithinRecord book e := fun cancel => by simp [action] at cancel
    exact iff_of_true holds within

/-- The totals are right after every event just where no cancel leaves more than is recorded. -/
theorem aggregates_run_iff (events : List MarketDataEvent) :
    (∀ n, Aggregates (run (events.take n)).toAggregateBook) ↔
      ∀ n e, events[n]? = some e → WithinRecord (run (events.take n)) e := by
  apply List.forall_prefix_iff (fun prior => Aggregates (run prior).toAggregateBook) fun prior =>
    WithinRecord (run prior)
  · exact aggregates_empty
  · intro prior e holds
    rw [run_append_singleton]
    exact aggregates_applyImpl holds (sided_run prior) e

/-- Ten are added and fifteen left: the record says 15, the level 10. -/
theorem not_aggregates_run : ¬∀ events, Aggregates (run events).toAggregateBook := by
  intro always
  have mismatch := always
    [{ orderId := 1, side := .buy, price := 100, size := 10, action := .add },
      { orderId := 1, size := 15, action := .cancel }] .buy (by decide) 100
  revert mismatch
  decide

end BackTester.MapOrderBook

namespace BackTester.AggregateBook

variable {book : AggregateBook} {index : UnorderedMap UInt64 OrderRecord} {id : UInt64} {record : OrderRecord}
  {side : Side} {price : ScaledPrice} {delta : ℤ}

/-- Some order is recorded at a side and price. -/
def Occupied (index : UnorderedMap UInt64 OrderRecord) (side : Side) (price : ScaledPrice) : Prop :=
  ∃ id record, index.find? id = some record ∧ record.side = side ∧ record.price = price

/-- Some order under another id is. -/
def OccupiedWithout (index : UnorderedMap UInt64 OrderRecord) (id : UInt64) (side : Side)
    (price : ScaledPrice) : Prop :=
  ∃ other record, other ≠ id ∧ index.find? other = some record ∧ record.side = side ∧ record.price = price

/-- The levels are the places where orders are recorded. -/
def LevelsOccupied (book : AggregateBook) : Prop :=
  ∀ side ≠ .none, ∀ price, (book.level side price).isSome ↔ Occupied book.orderIndex side price

theorem levelsOccupied_empty : LevelsOccupied {} := by
  intro side _ price
  simp [level, Occupied]

theorem occupied_assign : Occupied (index.assign id record) side price ↔
    (record.side = side ∧ record.price = price) ∨ OccupiedWithout index id side price := by
  constructor
  · rintro ⟨other, found, isFound, here⟩
    rw [UnorderedMap.find?_assign] at isFound
    split at isFound
    · cases isFound
      exact .inl here
    · next different => exact .inr ⟨other, found, different, isFound, here⟩
  · rintro (here | ⟨other, found, different, isFound, here⟩)
    · exact ⟨id, record, by rw [UnorderedMap.find?_assign, if_pos rfl], here⟩
    · exact ⟨other, found, by rw [UnorderedMap.find?_assign, if_neg different, isFound], here⟩

theorem occupied_remove : Occupied (index.remove id) side price ↔ OccupiedWithout index id side price := by
  constructor
  · rintro ⟨other, found, isFound, here⟩
    rw [UnorderedMap.find?_remove] at isFound
    split at isFound
    · contradiction
    · next different => exact ⟨other, found, different, isFound, here⟩
  · rintro ⟨other, found, different, isFound, here⟩
    exact ⟨other, found, by rw [UnorderedMap.find?_remove, if_neg different, isFound], here⟩

/-- An order is recorded where it is recorded, and others elsewhere. -/
theorem occupied_of_find? (found : index.find? id = some record) : Occupied index side price ↔
    (record.side = side ∧ record.price = price) ∨ OccupiedWithout index id side price := by
  rw [← occupied_assign]
  unfold Occupied
  have same (other : UInt64) : (index.assign id record).find? other = index.find? other := by
    rw [UnorderedMap.find?_assign]
    split
    · next isId => rw [isId, found]
    · rfl
  simp only [same]

theorem occupiedWithout_of_none (unknown : index.find? id = none) :
    OccupiedWithout index id side price ↔ Occupied index side price := by
  constructor
  · rintro ⟨other, record, _, found, here⟩
    exact ⟨other, record, found, here⟩
  · rintro ⟨other, record, found, here⟩
    refine ⟨other, record, ?_, found, here⟩
    rintro rfl
    rw [unknown] at found
    contradiction

/-- The level of an order outlasts a subtraction. -/
theorem LevelsOccupied.isSome_removeFromLevel (occupied : LevelsOccupied book) (sided : record.side ≠ .none)
    (found : book.orderIndex.find? id = some record) :
    ((book.removeFromLevel record.side record.price delta).level record.side record.price).isSome ↔
      delta < book.total record.side record.price := by
  have there := (occupied record.side sided record.price).mpr ⟨id, record, found, rfl, rfl⟩
  obtain ⟨level, isLevel⟩ := Option.isSome_iff_exists.mp there
  rw [level_removeFromLevel sided sided, if_pos ⟨rfl, rfl⟩, total, isLevel, Option.bind_some, Option.getD_some]
  split
  · next used =>
    refine iff_of_false (by simp) ?_
    omega
  · next left =>
    refine iff_of_true rfl ?_
    omega

/-- Away from the level nothing changes. -/
theorem LevelsOccupied.isSome_elsewhere (occupied : LevelsOccupied book) (sided : record.side ≠ .none)
    (found : book.orderIndex.find? id = some record) (sided' : side ≠ .none)
    (elsewhere : ¬(side = record.side ∧ price = record.price)) :
    ((book.removeFromLevel record.side record.price delta).level side price).isSome ↔
      OccupiedWithout book.orderIndex id side price := by
  rw [level_removeFromLevel sided sided', if_neg elsewhere, occupied side sided', occupied_of_find? found]
  constructor
  · rintro (here | others)
    · exact absurd ⟨here.1.symm, here.2.symm⟩ elsewhere
    · exact others
  · exact .inr

/-- A recorded order is replaced by a new one: right where the new order takes the old one's place, or else where the
old level outlasts the old order just if others rest there. -/
theorem LevelsOccupied.replace_iff (occupied : LevelsOccupied book) (sided : record.side ≠ .none)
    (found : book.orderIndex.find? id = some record) (new : OrderRecord) (newSided : new.side ≠ .none)
    (delta more : ℤ) :
    LevelsOccupied
      (((book.removeFromLevel record.side record.price delta).addToLevel new.side new.price more).assign id new) ↔
      (record.side = new.side ∧ record.price = new.price) ∨
        (delta < book.total record.side record.price ↔
          OccupiedWithout book.orderIndex id record.side record.price) := by
  have isLevel {side : Side} (sided' : side ≠ .none) (price : ScaledPrice) :
      (((book.removeFromLevel record.side record.price delta).addToLevel new.side new.price more).level
        side price).isSome ↔
        (new.side = side ∧ new.price = price) ∨
          ((book.removeFromLevel record.side record.price delta).level side price).isSome := by
    rw [level_addToLevel newSided sided']
    by_cases here : side = new.side ∧ price = new.price
    · rw [if_pos here]
      exact iff_of_true rfl (.inl ⟨here.1.symm, here.2.symm⟩)
    · rw [if_neg here, or_iff_right fun same => here ⟨same.1.symm, same.2.symm⟩]
  constructor
  · intro after
    by_cases same : record.side = new.side ∧ record.price = new.price
    · exact .inl same
    · have here := after record.side sided record.price
      have notNew : ¬(new.side = record.side ∧ new.price = record.price) := fun back => same ⟨back.1.symm, back.2.symm⟩
      rw [level_assign, isLevel sided, orderIndex_assign, occupied_assign, orderIndex_addToLevel,
        orderIndex_removeFromLevel, or_iff_right notNew, or_iff_right notNew,
        occupied.isSome_removeFromLevel sided found] at here
      exact .inr here
  · intro condition side sided' price
    rw [level_assign, isLevel sided', orderIndex_assign, occupied_assign, orderIndex_addToLevel,
      orderIndex_removeFromLevel]
    by_cases atNew : new.side = side ∧ new.price = price
    · exact iff_of_true (.inl atNew) (.inl atNew)
    · rw [or_iff_right atNew, or_iff_right atNew]
      by_cases atOld : side = record.side ∧ price = record.price
      · obtain ⟨rfl, rfl⟩ := atOld
        rw [occupied.isSome_removeFromLevel sided found]
        exact condition.resolve_left fun same => atNew ⟨same.1.symm, same.2.symm⟩
      · exact occupied.isSome_elsewhere sided found sided' atOld

/-- A new order makes its level. -/
theorem LevelsOccupied.enter (occupied : LevelsOccupied book) (unknown : book.orderIndex.find? id = none)
    (new : OrderRecord) (newSided : new.side ≠ .none) (more : ℤ) :
    LevelsOccupied ((book.addToLevel new.side new.price more).assign id new) := by
  intro side sided price
  rw [level_assign, level_addToLevel newSided sided, orderIndex_assign, orderIndex_addToLevel, occupied_assign,
    occupiedWithout_of_none unknown, ← occupied side sided]
  by_cases here : side = new.side ∧ price = new.price
  · rw [if_pos here]
    exact iff_of_true rfl (.inl ⟨here.1.symm, here.2.symm⟩)
  · rw [if_neg here, or_iff_right fun same => here ⟨same.1.symm, same.2.symm⟩]

/-- What a cancel must meet: if it lowers the level, the level outlasts it just where the order or another one stays;
if not, the order stays or another one is there. -/
def CancelKeepsLevel (book : AggregateBook) (record : OrderRecord) (e : MarketDataEvent) : Prop :=
  if e.size < record.size then
    (record.size.toNat - e.size.toNat : ℤ) < book.total record.side record.price ↔
      e.size ≠ 0 ∨ OccupiedWithout book.orderIndex e.orderId record.side record.price
  else e.size ≠ 0 ∨ OccupiedWithout book.orderIndex e.orderId record.side record.price

theorem LevelsOccupied.cancelTracked_iff {e : MarketDataEvent} (occupied : LevelsOccupied book)
    (sided : record.side ≠ .none) (found : book.orderIndex.find? e.orderId = some record) :
    LevelsOccupied (book.cancelTracked record e) ↔ CancelKeepsLevel book record e := by
  let delta : ℤ := record.size.toNat - e.size.toNat
  let lowered := if 0 < delta then book.removeFromLevel record.side record.price delta else book
  have isLevel : (book.cancelTracked record e).level = lowered.level := by
    simp only [AggregateBook.cancelTracked]
    split <;> rfl
  have less : e.size < record.size ↔ 0 < delta := by
    rw [UInt32.lt_iff_toNat_lt]
    omega
  have isOccupied (side : Side) (price : ScaledPrice) : Occupied (book.cancelTracked record e).orderIndex side price ↔
      (e.size ≠ 0 ∧ record.side = side ∧ record.price = price) ∨
        OccupiedWithout book.orderIndex e.orderId side price := by
    rw [orderIndex_cancelTracked]
    split
    · next zero => rw [occupied_remove, or_iff_right fun same => same.1 zero]
    · next sized => rw [occupied_assign, and_iff_right sized]
  have isLowered {side : Side} (sided' : side ≠ .none) (price : ScaledPrice)
      (elsewhere : ¬(side = record.side ∧ price = record.price)) :
      (lowered.level side price).isSome ↔ OccupiedWithout book.orderIndex e.orderId side price := by
    dsimp only [lowered]
    split
    · exact occupied.isSome_elsewhere sided found sided' elsewhere
    · rw [occupied side sided', occupied_of_find? found, or_iff_right fun same => elsewhere ⟨same.1.symm, same.2.symm⟩]
  have loweredHere : (lowered.level record.side record.price).isSome ↔
      if e.size < record.size then delta < book.total record.side record.price else True := by
    dsimp only [lowered]
    by_cases lowers : 0 < delta
    · rw [if_pos lowers, if_pos (less.mpr lowers)]
      exact occupied.isSome_removeFromLevel sided found
    · rw [if_neg lowers, if_neg fun same => lowers (less.mp same)]
      exact iff_true_intro ((occupied record.side sided record.price).mpr ⟨e.orderId, record, found, rfl, rfl⟩)
  have here : ((lowered.level record.side record.price).isSome ↔
      Occupied (book.cancelTracked record e).orderIndex record.side record.price) ↔ CancelKeepsLevel book record e := by
    rw [loweredHere, isOccupied, CancelKeepsLevel]
    simp only [and_self, and_true]
    split
    · rfl
    · rw [true_iff]
  rw [← here]
  constructor
  · intro after
    rw [← isLevel]
    exact after record.side sided record.price
  · intro atRecord side sided' price
    rw [isLevel]
    by_cases same : side = record.side ∧ price = record.price
    · obtain ⟨rfl, rfl⟩ := same
      exact atRecord
    · rw [isLowered sided' price same, isOccupied, or_iff_right fun back => same ⟨back.2.1.symm, back.2.2.symm⟩]

end BackTester.AggregateBook

namespace BackTester.MapOrderBook

open AggregateBook

variable {book : MapOrderBook} {e : MarketDataEvent}

/-- A recorded order keeps its place, or its level outlasts it just where others rest there. -/
def MoveKeepsLevel (book : AggregateBook) (record : OrderRecord) (id : UInt64) (side : Side)
    (price : ScaledPrice) : Prop :=
  (record.side = side ∧ record.price = price) ∨
    (record.size.toNat < book.total record.side record.price ↔
      OccupiedWithout book.orderIndex id record.side record.price)

/-- The event subtracts from the level of a recorded order what leaves it there just where an order stays. -/
def KeepsLevels (book : MapOrderBook) (e : MarketDataEvent) : Prop :=
  ∀ record, book.orderIndex.find? e.orderId = some record →
    match e.action with
    | .add => e.side ≠ .none → e.isPriceDefined → MoveKeepsLevel book.toAggregateBook record e.orderId e.side e.price
    | .cancel => CancelKeepsLevel book.toAggregateBook record e
    | .modify => MoveKeepsLevel book.toAggregateBook record e.orderId (if e.side ≠ .none then e.side else record.side)
        (if e.isPriceDefined then e.price else record.price)
    | _ => True

theorem levelsOccupied_applyImpl_iff (occupied : LevelsOccupied book.toAggregateBook) (sided : Sided book.orderIndex)
    (e : MarketDataEvent) : LevelsOccupied (book.applyImpl e).toAggregateBook ↔ KeepsLevels book e := by
  unfold applyImpl KeepsLevels
  cases action : e.action with
  | add =>
    dsimp only
    by_cases given : e.side = .none ∨ !e.isPriceDefined
    · rw [if_pos given]
      refine iff_of_true occupied fun _ _ here defined => ?_
      simp [here, defined] at given
    · rw [if_neg given]
      obtain ⟨here, defined⟩ := not_or.mp given
      simp only [Bool.not_eq_true', Bool.not_eq_false] at defined
      cases found : book.orderIndex.find? e.orderId with
      | none => exact iff_of_true (occupied.enter found ⟨e.side, e.price, e.size⟩ here _) (by simp)
      | some record =>
        simp only [Option.some_inj, forall_eq', here, ne_eq, not_false_eq_true, defined, forall_const]
        exact occupied.replace_iff (sided _ record found) found ⟨e.side, e.price, e.size⟩ here _ _
  | cancel =>
    dsimp only
    cases found : book.orderIndex.find? e.orderId with
    | none => exact iff_of_true occupied (by simp)
    | some record =>
      simp only [Option.some_inj, forall_eq']
      exact occupied.cancelTracked_iff (sided _ record found) found
  | modify =>
    dsimp only
    cases found : book.orderIndex.find? e.orderId with
    | none =>
      dsimp only
      split
      · next given => exact iff_of_true (occupied.enter found ⟨e.side, e.price, e.size⟩ given.1 _) (by simp)
      · exact iff_of_true occupied (by simp)
    | some record =>
      simp only [Option.some_inj, forall_eq']
      exact occupied.replace_iff (sided _ record found) found
        ⟨if e.side ≠ .none then e.side else record.side, if e.isPriceDefined then e.price else record.price, e.size⟩
        (newSide_sided (sided _ record found) e) _ _
  | clear => exact iff_of_true levelsOccupied_empty (by simp)
  | trade | fill | none | unnamed => exact iff_of_true occupied (by simp)

/-- The levels are where orders rest after every event just where every event leaves a level there just if an order
stays. -/
theorem levelsOccupied_run_iff (events : List MarketDataEvent) :
    (∀ n, LevelsOccupied (run (events.take n)).toAggregateBook) ↔
      ∀ n e, events[n]? = some e → KeepsLevels (run (events.take n)) e := by
  apply List.forall_prefix_iff (fun prior => LevelsOccupied (run prior).toAggregateBook) fun prior =>
    KeepsLevels (run prior)
  · exact levelsOccupied_empty
  · intro prior e occupied
    rw [run_append_singleton]
    exact levelsOccupied_applyImpl_iff occupied (sided_run prior) e

/-- An order modified to size 0 and cancelled leaves its level behind. -/
theorem not_levelsOccupied_run : ¬∀ events, LevelsOccupied (run events).toAggregateBook := by
  intro always
  let events : List MarketDataEvent :=
    [{ orderId := 1, side := .buy, price := 100, size := 10, action := .add },
      { orderId := 1, size := 0, action := .modify }, { orderId := 1, size := 0, action := .cancel }]
  have there : ((run events).toAggregateBook.level .buy 100).isSome := by decide
  have noOrder : (run events).orderIndex = ∅ := by rfl
  obtain ⟨id, record, found, _⟩ := (always events .buy (by decide) 100).mp there
  rw [noOrder, UnorderedMap.find?_empty] at found
  contradiction

end BackTester.MapOrderBook
