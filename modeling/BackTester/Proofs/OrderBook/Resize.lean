import BackTester.Proofs.OrderBook.LevelChange

/-! # An order changes its quantity in place

Neither links nor ids are touched: the entry and the total of its level change together.
-/

namespace BackTester.LimitOrderBook

open BinaryTree Heap PriceLevel DoublyLinked

variable {book : LimitOrderBook} {live : List Slot} {a : ℕ} {level : PriceLevel} {entry : OrderEntry}
  {trees : Side → BinaryTree ℕ} {slot : Slot} {levels' : Heap PriceLevel} {quantity : UInt32}

/-- The slots with another quantity for the order of an id. -/
def resize (live : List Slot) (id : UInt64) (quantity : UInt32) : List Slot :=
  live.map fun slot => (slot.1, if slot.2.id = id then { slot.2 with quantity := quantity } else slot.2)

theorem members_resize (live : List Slot) (id : UInt64) (quantity : UInt32) (side : Side) (price : ScaledPrice) :
    members (resize live id quantity) side price = resize (members live side price) id quantity := by
  rw [members, resize, List.filter_map, resize, members]
  refine congrArg (List.map _) (List.filter_congr fun slot _ => ?_)
  simp only [Function.comp_apply]
  split <;> rfl

theorem map_fst_resize (live : List Slot) (id : UInt64) (quantity : UInt32) :
    (resize live id quantity).map Prod.fst = live.map Prod.fst := by
  simp [resize]

theorem map_id_resize (live : List Slot) (id : UInt64) (quantity : UInt32) :
    (resize live id quantity).map (fun slot => slot.2.id) = live.map fun slot => slot.2.id := by
  rw [resize, List.map_map]
  refine List.map_congr_left fun slot _ => ?_
  simp only [Function.comp_apply]
  split <;> rfl

/-- Slots of other orders stay as they are. -/
theorem resize_eq_self {id : UInt64} (other : ∀ slot ∈ live, slot.2.id ≠ id) : resize live id quantity = live := by
  calc resize live id quantity = live.map fun slot => slot :=
        List.map_congr_left fun slot inside => by rw [if_neg (other slot inside)]
    _ = live := List.map_id' live

/-- An order with another quantity is the same order otherwise. -/
theorem resized_fields (old : Slot) (id : UInt64) (quantity : UInt32) :
    let new := if old.2.id = id then { old.2 with quantity := quantity } else old.2
    new.id = old.2.id ∧ new.side = old.2.side ∧ new.price = old.2.price := by
  dsimp only
  split <;> exact ⟨rfl, rfl, rfl⟩

/-- At other prices and on the other side no order changes. -/
theorem members_resize_of_ne (represents : Represents book live trees none) (member : slot ∈ live) {side : Side}
    {price : ScaledPrice} (other : ¬(slot.2.side = side ∧ slot.2.price = price)) :
    members (resize live slot.2.id quantity) side price = members live side price := by
  rw [members_resize]
  refine resize_eq_self fun other' inside sameId => other ?_
  obtain ⟨inLive, here⟩ := mem_members.mp inside
  exact represents.slot_of_id inLive member sameId ▸ here

/-- In its queue the order keeps its place. -/
theorem resize_queue (represents : Represents book live trees none) (member : slot ∈ live) {front back : List Slot}
    (whole : members live slot.2.side slot.2.price = front ++ slot :: back) :
    resize (members live slot.2.side slot.2.price) slot.2.id quantity =
      front ++ (slot.1, { slot.2 with quantity := quantity }) :: back := by
  have nodup : (members live slot.2.side slot.2.price).Nodup := represents.addresses.of_map.filter _
  rw [whole, List.nodup_append', List.nodup_cons, List.disjoint_cons_right] at nodup
  obtain ⟨_, ⟨notBack, _⟩, notFront, _⟩ := nodup
  have aside {part : List Slot} (subset : part ⊆ members live slot.2.side slot.2.price) (outside : slot ∉ part) :
      resize part slot.2.id quantity = part := by
    refine resize_eq_self fun other inside sameId => outside ?_
    exact represents.slot_of_id (mem_members.mp (subset inside)).1 member sameId ▸ inside
  have resizeFront : resize front slot.2.id quantity = front := aside (by simp [whole]) notFront
  have resizeBack : resize back slot.2.id quantity = back := aside (by simp [whole]) notBack
  rw [resize] at resizeFront resizeBack
  rw [whole, resize, List.map_append, List.map_cons, resizeFront, resizeBack, if_pos rfl]

/-- The entries with another quantity for one of them. -/
def resizedEntries (entries : Heap OrderEntry) (oe : ℕ) (quantity : UInt32) (time : NanoTime) : Heap OrderEntry :=
  entries.modify oe fun entry => { entry with quantity := quantity.toNat, lastUpdate := time }

/-- The level with another quantity for the order. -/
def resizedLevel (level : PriceLevel) (old new : UInt32) : PriceLevel :=
  { level with totalQuantity := level.totalQuantity + (new.toNat - old.toNat) }

/-- The level with the order as it is now. -/
theorem LevelHolds.resize (represents : Represents book live trees none)
    (holds : LevelHolds book.orderEntries live slot.2.side a level) (member : slot ∈ live)
    (isPrice : level.price = slot.2.price) (time : NanoTime) :
    LevelHolds (resizedEntries book.orderEntries slot.1 quantity time) (resize live slot.2.id quantity)
      slot.2.side a (resizedLevel level slot.2.quantity quantity) := by
  have inMembers : slot ∈ members live slot.2.side slot.2.price := mem_members.mpr ⟨member, rfl, rfl⟩
  obtain ⟨front, back, whole⟩ := List.append_of_mem inMembers
  have resized : LimitOrderBook.resize (members live slot.2.side slot.2.price) slot.2.id quantity =
      front ++ (slot.1, { slot.2 with quantity := quantity }) :: back := resize_queue represents member whole
  obtain ⟨segment, count, total, stands⟩ := holds
  have price : (resizedLevel level slot.2.quantity quantity).price = slot.2.price := isPrice
  rw [isPrice] at segment count total stands
  refine ⟨?_, ?_, ?_, ?_⟩
  · rw [price, members_resize, map_fst_resize]
    exact segment.congr fun n _ => book.orderEntries.map_read_modify _ _ fun _ => rfl
  · rw [price, members_resize, LimitOrderBook.resize, List.length_map]
    exact count
  · rw [price, members_resize, resized]
    simp only [resizedLevel, total, whole, List.map_append, List.map_cons, List.sum_append, List.sum_cons]
    push_cast
    ring
  · intro other inside
    rw [price, members_resize] at inside
    obtain ⟨old, inOld, rfl⟩ := List.mem_map.mp inside
    obtain ⟨entry, readEntry, stand⟩ := stands old inOld
    by_cases isSlot : old.2.id = slot.2.id
    · obtain rfl := represents.slot_of_id (mem_members.mp inOld).1 member isSlot
      rw [if_pos rfl]
      refine ⟨{ entry with quantity := quantity.toNat, lastUpdate := time }, ?_, ?_⟩
      · rw [resizedEntries, read_modify_self, readEntry]
        rfl
      · exact ⟨stand.orderId, stand.side, stand.price, rfl, stand.level⟩
    · rw [if_neg isSlot]
      refine ⟨entry, ?_, stand⟩
      rw [resizedEntries, read_modify_of_ne, readEntry]
      intro sameAddress
      exact isSlot (by rw [represents.slot_injective (mem_members.mp inOld).1 member sameAddress])

/-- The map of ids does not change. -/
theorem Represents.orders_resize (represents : Represents book live trees none) (id' : UInt64) (quantity : UInt32)
    (id : UInt64) (n : ℕ) :
    book.orders.find? id = some n ↔ ∃ slot ∈ resize live id' quantity, slot.1 = n ∧ slot.2.id = id := by
  rw [represents.orders]
  constructor
  · rintro ⟨old, inLive, here, sameId⟩
    exact ⟨_, List.mem_map_of_mem inLive, here, (resized_fields old id' quantity).1.trans sameId⟩
  · rintro ⟨_, inside, here, sameId⟩
    obtain ⟨old, inLive, rfl⟩ := List.mem_map.mp inside
    exact ⟨old, inLive, here, (resized_fields old id' quantity).1.symm.trans sameId⟩

/-- Entry and total change by the same amount. -/
theorem represents_resize (represents : Represents book live trees none) (member : slot ∈ live)
    (inTree : a ∈ (trees slot.2.side).inorder) (read : book.priceLevels.read a = some level)
    (isPrice : level.price = slot.2.price) (read' : levels'.read a = some { level with
      totalQuantity := level.totalQuantity + (quantity.toNat - slot.2.quantity.toNat) })
    (same : ∀ n ≠ a, levels'.read n = book.priceLevels.read n) (time : NanoTime) :
    Represents { book with
      priceLevels := levels'
      orderEntries := book.orderEntries.modify slot.1 fun entry =>
        { entry with quantity := quantity.toNat, lastUpdate := time } } (resize live slot.2.id quantity)
          trees none := by
  have holds := (represents.queues slot.2.side slot.2.sided).holds a inTree level read
  have change : LevelChange book { book with
      priceLevels := levels'
      orderEntries :=
        resizedEntries book.orderEntries slot.1 quantity time } live (resize live slot.2.id quantity) slot.2.side a
      level (resizedLevel level slot.2.quantity quantity) := by
    refine ⟨fun _ => rfl, read, read', rfl, rfl, same, fun other inLive away => ?_, fun other price away => ?_, ?_⟩
    · refine read_modify_of_ne _ _ fun sameAddress => away ?_
      rw [represents.slot_injective inLive member sameAddress]
      exact ⟨rfl, isPrice.symm⟩
    · exact members_resize_of_ne represents member (by rwa [← isPrice])
    · exact LevelHolds.resize represents holds member isPrice time
  have occupied : members (resize live slot.2.id quantity) slot.2.side level.price ≠ [] := by
    rw [members_resize, isPrice]
    exact List.ne_nil_of_mem (List.mem_map_of_mem (mem_members.mpr ⟨member, rfl, rfl⟩))
  refine change.represents represents slot.2.sided inTree (.inl rfl) (.inl occupied) ?_ ?_ ?_ ?_
  · rw [map_id_resize]
    exact represents.distinct
  · rw [map_fst_resize]
    exact represents.addresses
  · exact represents.orders_resize slot.2.id quantity
  · intro n
    rw [map_fst_resize, ← represents.entries]
    exact exists_read_modify ..

end BackTester.LimitOrderBook
