import BackTester.Abstract.PriorityBook
import BackTester.ToMathlib.Prefixes

/-! # Time priority

An event enters an order when it puts it behind all others, and otherwise leaves the order of the
rest alone. The sequence of a priority book is therefore sorted by when each order last entered.
-/

namespace BackTester.PriorityBook

variable {book : PriorityBook} {e : MarketDataEvent} {events : List MarketDataEvent} {id : UInt64}

/-- The event puts the order with its id at the back: an add, a modify of an unknown id, or a modify that changes
the price or the side. -/
def enters (book : PriorityBook) (e : MarketDataEvent) : Bool :=
  if e.flags.hasFlag .badTsRecv || e.flags.hasFlag .maybeBadBook then false
  else
    match e.action, book.find? e.orderId with
    | .add, _ => (RestingOrder.ofEvent? e).isSome
    | .modify, none => (RestingOrder.ofEvent? e).isSome
    | .modify, some order => (order.amend e).price ≠ order.price ∨ (order.amend e).side ≠ order.side
    | _, _ => false

/-- The event at this position of the run enters the order with this id. -/
def EntersAt (events : List MarketDataEvent) (id : UInt64) (n : ℕ) : Prop :=
  ∃ e, events[n]? = some e ∧ e.orderId = id ∧ (run (events.take n)).enters e

/-- The last position at which the order with this id enters. -/
structure LastEntered (events : List MarketDataEvent) (id : UInt64) (n : ℕ) : Prop where
  entered : EntersAt events id n
  last : ∀ later, n < later → ¬EntersAt events id later

@[simp] theorem run_append_singleton (events : List MarketDataEvent) (e : MarketDataEvent) :
    run (events ++ [e]) = (run events).step e := by
  simp [run, List.foldl_append]

/-- No order moves up or comes in, and none is emptied. -/
structure Keeps (book book' : PriorityBook) : Prop where
  ids : (book'.orders.map RestingOrder.id).Sublist (book.orders.map RestingOrder.id)
  sized : ∀ order ∈ book'.orders, order ∈ book.orders ∨ order.quantity ≠ 0

theorem keeps_refl (book : PriorityBook) : Keeps book book := ⟨List.Sublist.refl _, fun _ => .inl⟩

theorem keeps_empty (book : PriorityBook) : Keeps book ∅ :=
  ⟨List.nil_sublist _, fun _ member => absurd member List.not_mem_nil⟩

theorem keeps_leave (book : PriorityBook) (id : UInt64) : Keeps book (book.leave id) where
  ids := List.filter_sublist.map _
  sized _ member := .inl (List.mem_of_mem_filter member)

theorem keeps_resize (book : PriorityBook) (id : UInt64) {quantity : UInt32} (sized : quantity ≠ 0) :
    Keeps book (book.resize id quantity) where
  ids := by
    have same : (book.resize id quantity).orders.map RestingOrder.id = book.orders.map RestingOrder.id := by
      rw [orders_resize, List.map_map]
      apply List.map_congr_left
      intro order _
      rw [Function.comp_apply]
      split <;> rfl
    rw [same]
  sized order member := by
    rw [orders_resize, List.mem_map] at member
    obtain ⟨old, inside, rfl⟩ := member
    split
    · exact .inr sized
    · exact .inl inside

theorem keeps_cancel (book : PriorityBook) (e : MarketDataEvent) : Keeps book (book.cancel e) := by
  unfold cancel
  split
  · exact keeps_leave book e.orderId
  · next sized => exact keeps_resize book e.orderId sized

/-- The order that an event enters. -/
structure EntersAs (book : PriorityBook) (e : MarketDataEvent) (book' : PriorityBook)
    (order : RestingOrder) : Prop where
  id : order.id = e.orderId
  quantity : order.quantity = e.size
  entered : book' = book.enter order

theorem add_cases (book : PriorityBook) (e : MarketDataEvent) :
    ((RestingOrder.ofEvent? e).isSome = true ∧ ∃ order, EntersAs book e (book.add e) order) ∨
      ((RestingOrder.ofEvent? e).isSome = false ∧ Keeps book (book.add e)) := by
  unfold add
  cases described : RestingOrder.ofEvent? e with
  | none => exact .inr ⟨rfl, keeps_refl book⟩
  | some order =>
    obtain ⟨isId, _, _, quantity⟩ := RestingOrder.ofEvent?_fields described
    exact .inl ⟨rfl, order, isId, quantity, rfl⟩

/-- An event enters the order with its id, or no order moves up. -/
theorem step_cases (book : PriorityBook) (e : MarketDataEvent) :
    (book.enters e = true ∧ ∃ order, EntersAs book e (book.step e) order) ∨
      (book.enters e = false ∧ Keeps book (book.step e)) := by
  unfold enters step
  split
  · exact .inr ⟨rfl, keeps_refl book⟩
  · cases e.action with
    | add => exact book.add_cases e
    | modify =>
      cases found : book.find? e.orderId with
      | none =>
        simp only [modify, found]
        exact book.add_cases e
      | some order =>
        have isId := (find?_eq_some.mp found).2
        simp only [modify, found]
        by_cases stays : (order.amend e).price = order.price ∧ (order.amend e).side = order.side
        · rw [if_pos stays]
          exact .inr ⟨by simp [stays], keeps_cancel book e⟩
        · rw [if_neg stays]
          exact .inl ⟨decide_eq_true (not_and_or.mp stays), order.amend e, isId, rfl, rfl⟩
    | cancel => exact .inr ⟨rfl, keeps_cancel book e⟩
    | clear => exact .inr ⟨rfl, keeps_empty book⟩
    | trade | fill | none | unnamed => exact .inr ⟨rfl, keeps_refl book⟩

theorem entersAt_append_singleton {n : ℕ} : EntersAt (events ++ [e]) id n ↔
    EntersAt events id n ∨ n = events.length ∧ e.orderId = id ∧ (run events).enters e := by
  unfold EntersAt
  rcases lt_trichotomy n events.length with before | rfl | after
  · rw [List.getElem?_append_left before, List.take_append_of_le_length before.le]
    simp [before.ne]
  · rw [List.getElem?_concat_length, List.take_left', List.getElem?_eq_none le_rfl]
    · simp
    · rfl
  · have none' : (events ++ [e])[n]? = none := List.getElem?_eq_none (by simpa using after)
    rw [none', List.getElem?_eq_none after.le]
    simp [after.ne']

theorem EntersAt.lt_length {n : ℕ} (entered : EntersAt events id n) : n < events.length := by
  obtain ⟨e, here, _⟩ := entered
  exact (List.getElem?_eq_some_iff.mp here).1

theorem LastEntered.append {n : ℕ} (last : LastEntered events id n)
    (other : ¬(e.orderId = id ∧ (run events).enters e)) : LastEntered (events ++ [e]) id n where
  entered := entersAt_append_singleton.mpr (.inl last.entered)
  last later after entered := by
    rcases entersAt_append_singleton.mp entered with old | ⟨_, new⟩
    · exact last.last later after old
    · exact other new

theorem lastEntered_append_self (isId : e.orderId = id) (entered : (run events).enters e) :
    LastEntered (events ++ [e]) id events.length where
  entered := entersAt_append_singleton.mpr (.inr ⟨rfl, isId, entered⟩)
  last later after entered := by
    rcases entersAt_append_singleton.mp entered with old | ⟨now, _⟩
    · exact absurd old.lt_length (by omega)
    · omega

/-- The orders of a run are sorted by when each last entered. -/
theorem run_sorted (events : List MarketDataEvent) : ∃ time : UInt64 → ℕ,
    (∀ order ∈ (run events).orders, LastEntered events order.id (time order.id)) ∧
      (run events).orders.Pairwise fun order behind => time order.id < time behind.id := by
  induction events using List.reverseRecOn with
  | nil => exact ⟨fun _ => 0, by simp [run, EmptyCollection.emptyCollection], List.Pairwise.nil⟩
  | append_singleton events e ih =>
    obtain ⟨time, entered, sorted⟩ := ih
    rw [run_append_singleton]
    rcases step_cases (run events) e with ⟨enters, new, isId, _, stepped⟩ | ⟨stays, keeps⟩
    · have others {order : RestingOrder} (member : order ∈ ((run events).leave new.id).orders) :
          order ∈ (run events).orders ∧ order.id ≠ new.id := by
        simpa [orders_leave] using member
      refine ⟨Function.update time new.id events.length, ?_, ?_⟩
      · intro order member
        rw [stepped, orders_enter, List.mem_append, List.mem_singleton] at member
        rcases member with old | rfl
        · obtain ⟨inside, different⟩ := others old
          rw [Function.update_of_ne different]
          exact (entered order inside).append fun same => different (same.1.symm.trans isId.symm)
        · rw [Function.update_self]
          exact lastEntered_append_self isId.symm enters
      · rw [stepped, orders_enter, List.pairwise_append]
        refine ⟨?_, List.pairwise_singleton _ _, ?_⟩
        · refine (sorted.sublist List.filter_sublist).imp_of_mem ?_
          intro order behind inside insideBehind before
          rw [Function.update_of_ne (others inside).2, Function.update_of_ne (others insideBehind).2]
          exact before
        · intro order inside back isBack
          rw [List.mem_singleton] at isBack
          subst isBack
          rw [Function.update_of_ne (others inside).2, Function.update_self]
          exact (entered order (others inside).1).entered.lt_length
    · have known {id : UInt64} (member : id ∈ ((run events).step e).orders.map RestingOrder.id) :
          ∃ order ∈ (run events).orders, order.id = id := List.mem_map.mp (keeps.ids.subset member)
      refine ⟨time, ?_, ?_⟩
      · intro order member
        obtain ⟨old, inside, same⟩ := known (List.mem_map_of_mem member)
        rw [← same]
        exact (entered old inside).append fun now => by simp [stays] at now
      · have ids : ((run events).orders.map RestingOrder.id).Pairwise fun id behind => time id < time behind :=
          List.pairwise_map.mpr sorted
        have kept : (((run events).step e).orders.map RestingOrder.id).Pairwise
            fun id behind => time id < time behind :=
          ids.sublist keeps.ids
        rwa [List.pairwise_map] at kept

/-- An event adds at most one order. -/
theorem length_run_le (events : List MarketDataEvent) : (run events).orders.length ≤ events.length := by
  induction events using List.reverseRecOn with
  | nil => exact le_refl _
  | append_singleton events e ih =>
    rw [run_append_singleton, List.length_append, List.length_singleton]
    rcases step_cases (run events) e with ⟨_, new, _, _, stepped⟩ | ⟨_, keeps⟩
    · have fewer : ((run events).leave new.id).orders.length ≤ (run events).orders.length := List.length_filter_le _ _
      rw [stepped, orders_enter, List.length_append, List.length_singleton]
      omega
    · have fewer := keeps.ids.length_le
      rw [List.length_map, List.length_map] at fewer
      omega

/-- No order is empty. -/
def Sized (book : PriorityBook) : Prop := ∀ order ∈ book.orders, order.quantity ≠ 0

/-- Orders stay sized just where none enters empty. -/
theorem sized_step_iff (sized : Sized book) (e : MarketDataEvent) :
    Sized (book.step e) ↔ (book.enters e → e.size ≠ 0) := by
  rcases step_cases book e with ⟨enters, new, _, quantity, stepped⟩ | ⟨stays, keeps⟩
  · rw [stepped, ← quantity]
    constructor
    · intro allSized _
      exact allSized new (by simp [orders_enter])
    · intro newSized order member
      rw [orders_enter, List.mem_append, List.mem_singleton] at member
      rcases member with old | rfl
      · exact sized order (List.mem_of_mem_filter old)
      · exact newSized enters
  · refine iff_of_true (fun order member => ?_) (by simp [stays])
    rcases keeps.sized order member with old | fresh
    · exact sized order old
    · exact fresh

/-- Orders are sized after every event just where none enters empty. -/
theorem sized_run_iff (events : List MarketDataEvent) : (∀ n, Sized (run (events.take n))) ↔
    ∀ n e, events[n]? = some e → (run (events.take n)).enters e → e.size ≠ 0 := by
  apply List.forall_prefix_iff (fun prior => Sized (run prior)) fun prior e => (run prior).enters e → e.size ≠ 0
  · intro order member
    exact absurd member List.not_mem_nil
  · intro prior e sized
    rw [run_append_singleton]
    exact sized_step_iff sized e

end BackTester.PriorityBook
