import BackTester.Proofs.OrderBook.LevelChange

/-! # An order enters a level

The new entry goes to the back of the queue of its level, behind every live order.
-/

namespace BackTester.LimitOrderBook

open BinaryTree Heap PriceLevel DoublyLinked

variable {book : LimitOrderBook} {live : List Slot} {a : ℕ} {level : PriceLevel} {trees : Side → BinaryTree ℕ}
  {ev : MarketDataEvent} {order : RestingOrder} {entries entries' : Heap OrderEntry} {oe n : ℕ} {spare : Ptr}

/-- The entry made for an event, linked to what was the back of its queue. -/
def entryFor (ev : MarketDataEvent) (a : ℕ) (back : Ptr) : OrderEntry where
  orderId := ev.orderId
  side := ev.side
  quantity := ev.size.toNat
  price := ev.price
  entryTime := ev.tsEvent
  lastUpdate := ev.tsEvent
  prev := back
  level := some a

/-- The level after an order of some quantity entered at `oe`. -/
def enqueued (level : PriceLevel) (oe : ℕ) (quantity : UInt32) : PriceLevel :=
  { level with
    front := if level.back = none then some oe else level.front
    back := some oe
    orderCount := level.orderCount + 1
    totalQuantity := level.totalQuantity + quantity.toNat }

theorem run_enqueue (read : book.priceLevels.read a = some level)
    (backLive : ∀ b, level.back = some b → ∃ entry, book.orderEntries.read b = some entry) (ev : MarketDataEvent) :
    ∃ levels' entries', (enqueue ev a).run book = some ((), { book with
        priceLevels := levels'
        orderEntries := DoublyLinked.relinkNext entries' level.back (some book.orderEntries.next)
        orders := book.orders.assign ev.orderId book.orderEntries.next }) ∧
      levels'.read a = some (enqueued level book.orderEntries.next ev.size) ∧
      (∀ n ≠ a, levels'.read n = book.priceLevels.read n) ∧
      entries'.read book.orderEntries.next = some (entryFor ev a level.back) ∧
      ∀ n ≠ book.orderEntries.next, entries'.read n = book.orderEntries.read n := by
  let oe := book.orderEntries.next
  cases isBack : level.back with
  | none =>
    refine ⟨((book.priceLevels.modify a fun level => { level with front := some oe, back := some oe }).modify a
        fun level => { level with orderCount := level.orderCount + 1 }).modify a
        fun level => { level with totalQuantity := level.totalQuantity + ev.size.toNat },
      book.orderEntries.alloc (entryFor ev a none), ?_, ?_, ?_, ?_, ?_⟩
    · simp [enqueue, read, isBack, entryFor, oe]
    · simp [read, enqueued, isBack, oe]
    · intro n ne
      simp [read_modify, ne]
    · simp
    · intro n ne
      exact if_neg ne
  | some b =>
    obtain ⟨entry, readBack⟩ := backLive b isBack
    have ne : b ≠ oe := (read_bound readBack).ne
    refine ⟨((book.priceLevels.modify a fun level => { level with back := some oe }).modify a
        fun level => { level with orderCount := level.orderCount + 1 }).modify a
        fun level => { level with totalQuantity := level.totalQuantity + ev.size.toNat },
      (book.orderEntries.alloc (entryFor ev a none)).modify oe fun entry => { entry with prev := some b },
      ?_, ?_, ?_, ?_, ?_⟩
    · simp [enqueue, read, isBack, entryFor, oe, read_modify, read_alloc, ne, ne.symm, readBack]
      rfl
    · simp [read, enqueued, isBack, oe]
    · intro n ne
      simp [read_modify, ne]
    · simp [oe, entryFor]
    · intro n ne
      rw [read_modify_of_ne _ _ ne]
      exact if_neg ne

theorem members_append (live : List Slot) (slot : Slot) (side : Side) (price : ScaledPrice) :
    members (live ++ [slot]) side price =
      members live side price ++ if slot.2.side = side ∧ slot.2.price = price then [slot] else [] := by
  rw [members, List.filter_append, members]
  congr 1
  by_cases here : slot.2.side = side ∧ slot.2.price = price <;> simp [here]

theorem stands_entryFor (described : RestingOrder.ofEvent? ev = some order) (a : ℕ) (back : Ptr) :
    (entryFor ev a back).StandsFor order a := by
  obtain ⟨id, side, price, quantity⟩ := RestingOrder.ofEvent?_fields described
  exact ⟨id.symm, side.symm, price.symm, by rw [quantity]; rfl, rfl⟩

/-- The back of a queue is one of its entries. -/
theorem LevelHolds.back_mem (holds : LevelHolds entries live order.side a level) {b : ℕ}
    (isBack : level.back = some b) :
    b ∈ (members live order.side level.price).map Prod.fst := by
  have isLast := holds.segment.last_eq
  rw [Option.or_none] at isLast
  exact List.mem_of_getLast? (isLast ▸ isBack)

section NewEntry

variable (readNew : entries'.read oe = some (entryFor ev a level.back))
  (sameEntries : ∀ n ≠ oe, entries'.read n = entries.read n) (fresh : ∀ slot ∈ live, slot.1 ≠ oe)

include sameEntries in
/-- Entries outside of the level are as before. -/
theorem read_enqueue_of_ne (holds : LevelHolds entries live order.side a level) (apart : n ≠ oe)
    (outside : n ∉ (members live order.side level.price).map Prod.fst) :
    (DoublyLinked.relinkNext entries' level.back (some oe)).read n = entries.read n := by
  rw [← sameEntries n apart]
  cases isBack : level.back with
  | none => rfl
  | some b => exact read_modify_of_ne _ _ fun same => outside (same ▸ holds.back_mem isBack)

include readNew fresh in
theorem read_enqueue_self (holds : LevelHolds entries live order.side a level) :
    (DoublyLinked.relinkNext entries' level.back (some oe)).read oe = some (entryFor ev a level.back) := by
  rw [← readNew]
  cases isBack : level.back with
  | none => rfl
  | some b =>
    refine read_modify_of_ne _ _ ?_
    rintro rfl
    obtain ⟨slot, inMembers, isNew⟩ := List.mem_map.mp (holds.back_mem isBack)
    exact fresh slot (mem_members.mp inMembers).1 isNew

include readNew sameEntries fresh in
/-- The level with the new order at its back. -/
theorem LevelHolds.enqueue (holds : LevelHolds entries live order.side a level)
    (described : RestingOrder.ofEvent? ev = some order) (isPrice : level.price = order.price)
    (addresses : (live.map Prod.fst).Nodup) :
    LevelHolds (DoublyLinked.relinkNext entries' level.back (some oe)) (live ++ [(oe, order)]) order.side a
      (enqueued level oe ev.size) := by
  have newMembers : members (live ++ [(oe, order)]) order.side (enqueued level oe ev.size).price =
      members live order.side level.price ++ [(oe, order)] := by
    rw [members_append, if_pos ⟨rfl, isPrice.symm⟩]
    rfl
  have outside : oe ∉ (members live order.side level.price).map Prod.fst := by
    intro inside
    obtain ⟨slot, inMembers, isNew⟩ := List.mem_map.mp inside
    exact fresh slot (mem_members.mp inMembers).1 isNew
  refine ⟨?_, ?_, ?_, ?_⟩
  · rw [newMembers, List.map_append]
    have nodup : ((members live order.side level.price).map Prod.fst).Nodup :=
      (List.filter_sublist.map _).nodup addresses
    have kept := holds.segment.frame fun n inside => sameEntries n fun same => outside (same ▸ inside)
    exact kept.pushBack nodup outside readNew rfl rfl
  · rw [newMembers, List.length_append, Nat.cast_add, ← holds.count]
    rfl
  · obtain ⟨-, -, -, quantity⟩ := RestingOrder.ofEvent?_fields described
    rw [newMembers, List.map_append, List.sum_append, Nat.cast_add, ← holds.total]
    simp [enqueued, quantity]
  · intro slot inside
    rw [newMembers, List.mem_append] at inside
    rcases inside with inside | isNew
    · refine stands_relinkNext ?_ _ _
      rw [sameEntries slot.1 (fresh slot (mem_members.mp inside).1)]
      exact holds.stands slot inside
    · rw [List.mem_singleton.mp isNew]
      exact ⟨_, read_enqueue_self readNew fresh holds, stands_entryFor described a level.back⟩

end NewEntry

/-- The id of the new order is in the map. -/
theorem Represents.orders_append (represents : Represents book live trees spare)
    (unknown : book.orders.find? order.id = none)
    (oe : ℕ) (id : UInt64) (n : ℕ) : (book.orders.assign order.id oe).find? id = some n ↔
      ∃ slot ∈ live ++ [(oe, order)], slot.1 = n ∧ slot.2.id = id := by
  rw [UnorderedMap.find?_assign]
  split
  · next isId =>
    rw [Option.some_inj]
    constructor
    · rintro rfl
      exact ⟨(oe, order), List.mem_append_right _ (List.mem_singleton_self _), rfl, isId.symm⟩
    · rintro ⟨slot, inside, rfl, sameId⟩
      rcases List.mem_append.mp inside with inLive | isNew
      · exact absurd (sameId.trans isId) (represents.find?_eq_none.mp unknown slot inLive)
      · rw [List.mem_singleton.mp isNew]
  · next isOther =>
    rw [represents.orders]
    constructor
    · rintro ⟨slot, inLive, rest⟩
      exact ⟨slot, List.mem_append_left _ inLive, rest⟩
    · rintro ⟨slot, inside, isN, sameId⟩
      rcases List.mem_append.mp inside with inLive | isNew
      · exact ⟨slot, inLive, isN, sameId⟩
      · rw [List.mem_singleton.mp isNew] at sameId
        exact absurd sameId.symm isOther

/-- The next address is of no live order. -/
theorem Represents.fresh (represents : Represents book live trees spare) (slot : Slot) (inLive : slot ∈ live) :
    slot.1 ≠ book.orderEntries.next := by
  obtain ⟨entry, read⟩ := (represents.entries slot.1).mpr (List.mem_map_of_mem inLive)
  exact (read_bound read).ne

theorem nodup_map_append {α : Type} {f : Slot → α} {slot : Slot} (nodup : (live.map f).Nodup)
    (different : ∀ old ∈ live, f old ≠ f slot) : ((live ++ [slot]).map f).Nodup := by
  rw [List.map_append, List.nodup_append']
  refine ⟨nodup, List.nodup_singleton _, ?_⟩
  rw [List.map_singleton, List.disjoint_singleton, List.mem_map]
  rintro ⟨old, inLive, same⟩
  exact different old inLive same

/-- Putting an order into a level of its side and price fills the spare level. -/
theorem represents_enqueue (represents : Represents book live trees (some a))
    (described : RestingOrder.ofEvent? ev = some order) (member : a ∈ (trees order.side).inorder)
    (isPrice : priceAt book.priceLevels a = order.price) (unknown : book.orders.find? order.id = none) :
    ∃ book' oe, (enqueue ev a).run book = some ((), book') ∧ Represents book' (live ++ [(oe, order)]) trees none ∧
      book'.anomalies = book.anomalies := by
  obtain ⟨level, read⟩ := (represents.tree order.side order.sided).read member
  have holds := (represents.queues order.side order.sided).holds a member level read
  rw [priceAt_of_read read] at isPrice
  obtain ⟨levels', entries', run, readA, same, readNew, sameEntries⟩ :=
    run_enqueue read (fun b isBack => holds.segment.read (holds.back_mem isBack)) ev
  have isId : order.id = ev.orderId := (RestingOrder.ofEvent?_fields described).1
  have fresh := represents.fresh
  have added : members (live ++ [(book.orderEntries.next, order)]) order.side level.price ≠ [] := by
    rw [members_append, if_pos ⟨rfl, isPrice.symm⟩]
    exact List.append_ne_nil_of_right_ne_nil _ (List.cons_ne_nil _ _)
  refine ⟨_, book.orderEntries.next, run, ?_, rfl⟩
  have change : LevelChange book { book with
      priceLevels := levels'
      orderEntries := DoublyLinked.relinkNext entries' level.back (some book.orderEntries.next)
      orders := book.orders.assign ev.orderId book.orderEntries.next } live (live ++ [(book.orderEntries.next, order)])
      order.side a level (enqueued level book.orderEntries.next ev.size) := by
    refine ⟨fun _ => rfl, read, readA, rfl, rfl, same, fun slot inLive away => ?_, fun other price away => ?_, ?_⟩
    · exact read_enqueue_of_ne sameEntries holds (fresh slot inLive) (represents.not_mem_members inLive away)
    · rw [members_append, if_neg (by rwa [← isPrice]), List.append_nil]
    · exact holds.enqueue readNew sameEntries fresh described isPrice represents.addresses
  refine change.represents represents order.sided member (.inr rfl) (.inl added) ?_ ?_ (fun id n => ?_) fun n => ?_
  · exact nodup_map_append represents.distinct (represents.find?_eq_none.mp unknown)
  · exact nodup_map_append represents.addresses fresh
  · rw [← represents.orders_append unknown, isId]
  · rw [List.map_append, List.mem_append, ← represents.entries]
    rcases eq_or_ne n book.orderEntries.next with rfl | apart
    · exact iff_of_true ⟨_, read_enqueue_self readNew fresh holds⟩ (.inr (List.mem_singleton_self _))
    · rw [exists_read_relinkNext, sameEntries n apart]
      simp [apart]

end BackTester.LimitOrderBook
