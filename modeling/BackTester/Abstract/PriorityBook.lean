import BackTester.Model.Common.MarketDataEvent

/-! # Orders in time priority

What a limit order book is for, without its structures: the resting orders, one for each id, in
the order in which they last entered the book. The queue of a price on a side is the part of that
sequence that rests there.
-/

namespace BackTester

/-- An order that rests in a book is on one of the two sides and has a price. -/
structure RestingOrder where
  id : UInt64
  side : Side
  price : ScaledPrice
  quantity : UInt32
  sided : side ≠ .none
  priced : price ≠ undefPrice
deriving DecidableEq, Repr

namespace RestingOrder

/-- The order an event describes, if it gives a side and a price. -/
def ofEvent? (e : MarketDataEvent) : Option RestingOrder :=
  if given : e.side ≠ .none ∧ e.price ≠ undefPrice then
    some ⟨e.orderId, e.side, e.price, e.size, given.1, given.2⟩
  else none

theorem ofEvent?_fields {e : MarketDataEvent} {order : RestingOrder} (described : ofEvent? e = some order) :
    order.id = e.orderId ∧ order.side = e.side ∧ order.price = e.price ∧ order.quantity = e.size := by
  unfold ofEvent? at described
  split at described
  · cases described
    exact ⟨rfl, rfl, rfl, rfl⟩
  · contradiction

/-- The order after a modify, which keeps the side or price that the event does not give. -/
def amend (order : RestingOrder) (e : MarketDataEvent) : RestingOrder where
  id := order.id
  side := if e.side ≠ .none then e.side else order.side
  price := if e.price ≠ undefPrice then e.price else order.price
  quantity := e.size
  sided := by
    split
    · assumption
    · exact order.sided
  priced := by
    split
    · assumption
    · exact order.priced

end RestingOrder

/-- Resting orders, the longest in place first. No two share an id. -/
structure PriorityBook where
  orders : List RestingOrder
  distinct : (orders.map RestingOrder.id).Nodup

namespace PriorityBook

/-- The order with an id. -/
def find? (book : PriorityBook) (id : UInt64) : Option RestingOrder := book.orders.find? fun order => order.id = id

/-- Take the order with an id out, if there is one. -/
def leave (book : PriorityBook) (id : UInt64) : PriorityBook where
  orders := book.orders.filter fun order => order.id ≠ id
  distinct := (List.filter_sublist.map _).nodup book.distinct

/-- An order enters behind all others; an order with the same id leaves first. -/
def enter (book : PriorityBook) (order : RestingOrder) : PriorityBook where
  orders := (book.leave order.id).orders ++ [order]
  distinct := by
    rw [List.map_append, List.nodup_append']
    refine ⟨(book.leave order.id).distinct, by simp, ?_⟩
    simp [leave]

/-- Change a quantity in place. -/
def resize (book : PriorityBook) (id : UInt64) (quantity : UInt32) : PriorityBook where
  orders := book.orders.map fun order => if order.id = id then { order with quantity := quantity } else order
  distinct := by
    have same (order : RestingOrder) :
        (if order.id = id then { order with quantity := quantity } else order).id = order.id := by
      split <;> rfl
    simpa only [List.map_map, Function.comp_def, same] using book.distinct

instance : EmptyCollection PriorityBook := ⟨⟨[], by simp⟩⟩

/-- An add needs a side and a price; without them nothing happens. -/
def add (book : PriorityBook) (e : MarketDataEvent) : PriorityBook :=
  match RestingOrder.ofEvent? e with
  | none => book
  | some order => book.enter order

/-- A cancel states the size that remains. -/
def cancel (book : PriorityBook) (e : MarketDataEvent) : PriorityBook :=
  if e.size = 0 then book.leave e.orderId else book.resize e.orderId e.size

/-- A modify costs the order its place only when its price or side changes. -/
def modify (book : PriorityBook) (e : MarketDataEvent) : PriorityBook :=
  match book.find? e.orderId with
  | none => book.add e
  | some order =>
    if (order.amend e).price = order.price ∧ (order.amend e).side = order.side then book.cancel e
    else book.enter (order.amend e)

/-- One event. -/
def step (book : PriorityBook) (e : MarketDataEvent) : PriorityBook :=
  if e.flags.hasFlag .badTsRecv || e.flags.hasFlag .maybeBadBook then book
  else
    match e.action with
    | .add => book.add e
    | .cancel => book.cancel e
    | .modify => book.modify e
    | .clear => ∅
    | _ => book

/-- A sequence of events from an empty book. -/
def run (events : List MarketDataEvent) : PriorityBook := events.foldl step ∅

/-- The orders at one price of one side, the longest in place first. -/
def queue (book : PriorityBook) (side : Side) (price : ScaledPrice) : List RestingOrder :=
  book.orders.filter fun order => order.side = side ∧ order.price = price

/-- What is worth a line in the log about an event. -/
def anomaly? (book : PriorityBook) (e : MarketDataEvent) : Option BookAnomaly :=
  if e.flags.hasFlag .badTsRecv || e.flags.hasFlag .maybeBadBook then none
  else
    match e.action, book.find? e.orderId with
    | .add, some _ => (RestingOrder.ofEvent? e).map fun _ => .duplicateAddReplaced
    | .cancel, none => some .unknownCancel
    | .modify, none => if (RestingOrder.ofEvent? e).isSome then some .unknownModifyAsAdd else some .unknownModifyIgnored
    | _, _ => none

variable {book : PriorityBook} {id : UInt64} {order : RestingOrder}

@[ext] theorem ext {book book' : PriorityBook} (same : book.orders = book'.orders) : book = book' := by
  cases book
  cases book'
  simpa using same

theorem orders_leave (book : PriorityBook) (id : UInt64) :
    (book.leave id).orders = book.orders.filter fun order => order.id ≠ id := rfl

theorem orders_enter (book : PriorityBook) (order : RestingOrder) :
    (book.enter order).orders = (book.leave order.id).orders ++ [order] := rfl

theorem orders_resize (book : PriorityBook) (id : UInt64) (quantity : UInt32) : (book.resize id quantity).orders =
    book.orders.map fun order => if order.id = id then { order with quantity := quantity } else order := rfl

theorem find?_eq_none : book.find? id = none ↔ ∀ order ∈ book.orders, order.id ≠ id := by
  simp [find?]

/-- The order with an id is the only one. -/
theorem find?_eq_some : book.find? id = some order ↔ order ∈ book.orders ∧ order.id = id := by
  constructor
  · intro found
    exact ⟨List.mem_of_find?_eq_some found, by simpa using List.find?_some found⟩
  · rintro ⟨member, rfl⟩
    obtain ⟨other, found⟩ : ∃ other, book.find? order.id = some other :=
      Option.isSome_iff_exists.mp (List.find?_isSome.mpr ⟨order, member, by simp⟩)
    have sameId : other.id = order.id := by simpa using List.find?_some found
    rw [found, List.inj_on_of_nodup_map book.distinct (List.mem_of_find?_eq_some found) member sameId]

theorem find?_leave (book : PriorityBook) (id other : UInt64) :
    (book.leave id).find? other = if other = id then none else book.find? other := by
  ext order
  simp only [find?_eq_some, orders_leave, List.mem_filter, decide_eq_true_eq]
  split
  · next same =>
    subst same
    simp
  · next different =>
    rw [find?_eq_some]
    constructor
    · rintro ⟨⟨member, _⟩, isId⟩
      exact ⟨member, isId⟩
    · rintro ⟨member, rfl⟩
      exact ⟨⟨member, different⟩, rfl⟩

theorem find?_leave_self (book : PriorityBook) (id : UInt64) : (book.leave id).find? id = none := by
  rw [find?_leave, if_pos rfl]

theorem find?_enter (book : PriorityBook) (order : RestingOrder) (other : UInt64) :
    (book.enter order).find? other = if other = order.id then some order else book.find? other := by
  ext found
  simp only [find?_eq_some, orders_enter, orders_leave, List.mem_append, List.mem_singleton, List.mem_filter,
    decide_eq_true_eq]
  split
  · next same =>
    subst same
    rw [Option.some_inj]
    constructor
    · rintro ⟨⟨_, different⟩ | rfl, isId⟩
      · exact absurd isId different
      · rfl
    · rintro rfl
      exact ⟨.inr rfl, rfl⟩
  · next different =>
    rw [find?_eq_some]
    constructor
    · rintro ⟨⟨member, _⟩ | rfl, isId⟩
      · exact ⟨member, isId⟩
      · exact absurd isId.symm different
    · rintro ⟨member, rfl⟩
      exact ⟨.inl ⟨member, different⟩, rfl⟩

theorem find?_resize (book : PriorityBook) (id : UInt64) (quantity : UInt32) (other : UInt64) :
    (book.resize id quantity).find? other =
      if other = id then (book.find? id).map fun order =>
        { order with quantity := quantity } else book.find? other := by
  have found : (book.resize id quantity).find? other = (book.find? other).map fun order =>
      if order.id = id then { order with quantity := quantity } else order := by
    rw [find?, orders_resize, List.find?_map]
    congr 2
    funext order
    simp only [Function.comp_apply]
    split <;> rfl
  rw [found]
  split
  · next same =>
    subst same
    exact Option.map_congr fun order member => if_pos (find?_eq_some.mp member).2
  · next different =>
    cases other : book.find? other with
    | none => rfl
    | some order => rw [Option.map_some, if_neg fun isId => different ((find?_eq_some.mp other).2.symm.trans isId)]

theorem leave_of_unknown (unknown : book.find? id = none) : book.leave id = book := by
  refine ext (List.filter_eq_self.mpr fun order member => ?_)
  simpa using find?_eq_none.mp unknown order member

theorem resize_of_unknown (unknown : book.find? id = none) (quantity : UInt32) : book.resize id quantity = book := by
  refine ext ?_
  calc (book.resize id quantity).orders = book.orders.map fun order => order :=
        List.map_congr_left fun order member => by rw [if_neg (find?_eq_none.mp unknown order member)]
    _ = book.orders := List.map_id' _

/-- Nothing is lost by leaving before entering. -/
theorem enter_leave (book : PriorityBook) (order : RestingOrder) :
    (book.leave order.id).enter order = book.enter order := by
  refine ext ?_
  rw [orders_enter, orders_enter, leave_of_unknown (find?_leave_self book order.id)]

end PriorityBook

/-- Log an anomaly of an event, if there is one. -/
def BookAnomalyLog.note (log : BookAnomalyLog) (e : MarketDataEvent) : Option BookAnomaly → BookAnomalyLog
  | none => log
  | some kind => log.logBook kind e

end BackTester
