import BackTester.Abstract.PriorityBook
import BackTester.Model.OrderBook.LimitOrderBook
import BackTester.Proofs.OrderBook.LinkedTree

/-! # What a limit order book represents

A slot is the address of an entry with the resting order it stands for. The representation relates
a book to its slots in time priority and to the tree of either side. It comes in two halves: the
tree half reads links and prices, the queue half the ends, counts and totals of the levels and the
order entries. While an order enters or leaves, one level may be without orders: the spare one.
-/

namespace BackTester

/-- The entry describes the order and points back to its level. -/
structure OrderEntry.StandsFor (entry : OrderEntry) (order : RestingOrder) (level : ℕ) : Prop where
  orderId : entry.orderId = order.id
  side : entry.side = order.side
  price : entry.price = order.price
  quantity : entry.quantity = order.quantity.toNat
  level : entry.level = some level

namespace LimitOrderBook

open BinaryTree Heap PriceLevel

/-- Where an order lives. -/
abbrev Slot := ℕ × RestingOrder

/-- The slots at one price of one side. -/
def members (live : List Slot) (side : Side) (price : ScaledPrice) : List Slot :=
  live.filter fun slot => slot.2.side = side ∧ slot.2.price = price

theorem mem_members {live : List Slot} {side : Side} {price : ScaledPrice} {slot : Slot} :
    slot ∈ members live side price ↔ slot ∈ live ∧ slot.2.side = side ∧ slot.2.price = price := by
  simp [members]

/-- The best level of a side is at one end of its tree. -/
def bestOf (side : Side) (tree : BinaryTree ℕ) : Ptr :=
  if side = .buy then tree.inorder.getLast? else tree.inorder.head?

/-- The tree, the level map and the best pointer of a side agree. -/
structure SideTree (book : LimitOrderBook) (side : Side) (tree : BinaryTree ℕ) : Prop where
  linked : LinkedTree ExactHeight book.priceLevels none (book.treeFor side) tree
  nodup : tree.inorder.Nodup
  balanced : tree.Balanced
  ascending : Ascending book.priceLevels tree.inorder
  levels : ∀ price a, (book.levelsFor side).find? price = some a ↔ a ∈ tree.inorder ∧ priceAt book.priceLevels a = price
  best : book.bestFor side = bestOf side tree

/-- A level queues its orders, and counts and totals them. -/
structure LevelHolds (entries : Heap OrderEntry) (live : List Slot) (side : Side) (a : ℕ) (level : PriceLevel) :
    Prop where
  segment : DoublyLinked.Segment entries none level.front ((members live side level.price).map Prod.fst) level.back none
  count : level.orderCount = (members live side level.price).length
  total : level.totalQuantity = ((members live side level.price).map fun slot => slot.2.quantity.toNat).sum
  stands : ∀ slot ∈ members live side level.price, ∃ entry, entries.read slot.1 = some entry ∧ entry.StandsFor slot.2 a

/-- The queues of the levels at some addresses hold the orders of a side. -/
structure SideQueues (book : LimitOrderBook) (live : List Slot) (side : Side) (addresses : List ℕ) (spare : Ptr) :
    Prop where
  holds : ∀ a ∈ addresses,
    ∀ level, book.priceLevels.read a = some level → LevelHolds book.orderEntries live side a level
  occupied : ∀ a ∈ addresses, members live side (priceAt book.priceLevels a) ≠ [] ∨ spare = some a
  covered : ∀ slot ∈ live, slot.2.side = side → ∃ a ∈ addresses, priceAt book.priceLevels a = slot.2.price

/-- The book holds the orders of the slots, in levels that make up the trees, and nothing else. -/
structure Represents (book : LimitOrderBook) (live : List Slot) (trees : Side → BinaryTree ℕ) (spare : Ptr) : Prop where
  distinct : (live.map fun slot => slot.2.id).Nodup
  addresses : (live.map Prod.fst).Nodup
  orders : ∀ id oe, book.orders.find? id = some oe ↔ ∃ slot ∈ live, slot.1 = oe ∧ slot.2.id = id
  entries : ∀ oe, (∃ entry, book.orderEntries.read oe = some entry) ↔ oe ∈ live.map Prod.fst
  tree : ∀ side ≠ .none, SideTree book side (trees side)
  queues : ∀ side ≠ .none, SideQueues book live side (trees side).inorder spare
  apart : ∀ side ≠ .none, ∀ other ≠ .none, other ≠ side → (trees side).inorder.Disjoint (trees other).inorder
  levels : ∀ a, (∃ level, book.priceLevels.read a = some level) ↔ ∃ side ≠ .none, a ∈ (trees side).inorder

variable {book book' : LimitOrderBook} {live live' : List Slot} {side : Side} {tree : BinaryTree ℕ} {a : ℕ}
  {addresses : List ℕ} {spare : Ptr} {level : PriceLevel} {entries entries' : Heap OrderEntry}
  {trees : Side → BinaryTree ℕ}

section Fields

variable {α : Type} {side other : Side}

@[simp] theorem run_onLevels (run : LevelM α) (book : LimitOrderBook) : (onLevels run).run book =
    (run.run book.priceLevels).map fun (value, heap) => (value, { book with priceLevels := heap }) := rfl

@[simp] theorem run_onEntries (run : EntryM α) (book : LimitOrderBook) : (onEntries run).run book =
    (run.run book.orderEntries).map fun (value, heap) => (value, { book with orderEntries := heap }) := rfl

@[simp] theorem sideFor_setSide_self (side : Side) (update : BookSide → BookSide) (book : LimitOrderBook) :
    (setSide side update book).sideFor side = update (book.sideFor side) := by
  cases side <;> rfl

theorem sideFor_setSide_of_ne (update : BookSide → BookSide) (book : LimitOrderBook) (sided : side ≠ .none)
    (otherSided : other ≠ .none) (different : other ≠ side) :
    (setSide side update book).sideFor other = book.sideFor other := by
  cases side <;> cases other <;> first | contradiction | rfl

@[simp] theorem setSide_setSide (side : Side) (first second : BookSide → BookSide) (book : LimitOrderBook) :
    setSide side second (setSide side first book) = setSide side (fun fields => second (first fields)) book := by
  cases side <;> rfl

theorem setSide_congr {first second : BookSide → BookSide} {book : LimitOrderBook}
    (same : first (book.sideFor side) = second (book.sideFor side)) :
    setSide side first book = setSide side second book := by
  cases side <;> simp_all [setSide, sideFor]

@[simp] theorem priceLevels_setSide (side : Side) (update : BookSide → BookSide) (book : LimitOrderBook) :
    (setSide side update book).priceLevels = book.priceLevels := by
  cases side <;> rfl

@[simp] theorem orderEntries_setSide (side : Side) (update : BookSide → BookSide) (book : LimitOrderBook) :
    (setSide side update book).orderEntries = book.orderEntries := by
  cases side <;> rfl

@[simp] theorem orders_setSide (side : Side) (update : BookSide → BookSide) (book : LimitOrderBook) :
    (setSide side update book).orders = book.orders := by
  cases side <;> rfl

@[simp] theorem anomalies_setSide (side : Side) (update : BookSide → BookSide) (book : LimitOrderBook) :
    (setSide side update book).anomalies = book.anomalies := by
  cases side <;> rfl

end Fields

/-- A tree reads only links and prices. -/
theorem SideTree.congr (holds : SideTree book side tree) (sameSide : book'.sideFor side = book.sideFor side)
    (same : ∀ n ∈ tree.inorder, (book'.priceLevels.read n).map (fun level => (links level, level.price)) =
      (book.priceLevels.read n).map fun level => (links level, level.price)) : SideTree book' side tree := by
  have samePrice (n : ℕ) (member : n ∈ tree.inorder) : priceAt book'.priceLevels n = priceAt book.priceLevels n := by
    have := congrArg (Option.map Prod.snd) (same n member)
    simp only [Option.map_map] at this
    exact congrArg (Option.getD · 0) this
  refine ⟨?_, holds.nodup, holds.balanced, ?_, ?_, ?_⟩
  · rw [treeFor, sameSide]
    refine holds.linked.congr fun n member => ?_
    have := congrArg (Option.map Prod.fst) (same n member)
    rw [Option.map_map, Option.map_map] at this
    exact this
  · refine holds.ascending.imp_of_mem fun {m n} inM inN below => ?_
    rwa [samePrice m inM, samePrice n inN]
  · intro price n
    rw [levelsFor, sameSide]
    refine (holds.levels price n).trans (and_congr_right fun member => ?_)
    rw [samePrice n member]
  · rw [bestFor, sameSide]
    exact holds.best

/-- A level reads only its own payload and entries. -/
theorem LevelHolds.congr {level' : PriceLevel} (holds : LevelHolds entries live side a level)
    (same : payload level' = payload level)
    (sameEntries : ∀ slot ∈ members live side level.price, entries'.read slot.1 = entries.read slot.1)
    (sameMembers : members live' side level.price = members live side level.price) :
    LevelHolds entries' live' side a level' := by
  simp only [payload, Prod.mk.injEq] at same
  obtain ⟨price, count, total, front, back⟩ := same
  refine ⟨?_, ?_, ?_, ?_⟩
  · rw [price, front, back, sameMembers]
    refine holds.segment.frame fun n member => ?_
    obtain ⟨slot, inside, rfl⟩ := List.mem_map.mp member
    exact sameEntries slot inside
  · rw [price, count, sameMembers]
    exact holds.count
  · rw [price, total, sameMembers]
    exact holds.total
  · intro slot member
    rw [price, sameMembers] at member
    rw [sameEntries slot member]
    exact holds.stands slot member

/-- The queues of a side read only the payloads of its levels and its own entries. -/
theorem SideQueues.congr (holds : SideQueues book live side addresses spare)
    (same : ∀ n ∈ addresses, (book'.priceLevels.read n).map payload = (book.priceLevels.read n).map payload)
    (sameEntries : ∀ slot ∈ live, slot.2.side = side → book'.orderEntries.read slot.1 = book.orderEntries.read slot.1)
    (sameMembers : ∀ price, members live' side price = members live side price) :
    SideQueues book' live' side addresses spare := by
  have samePrice (n : ℕ) (member : n ∈ addresses) : priceAt book'.priceLevels n = priceAt book.priceLevels n := by
    have := congrArg (Option.map Prod.fst) (same n member)
    simp only [Option.map_map] at this
    exact congrArg (Option.getD · 0) this
  refine ⟨?_, ?_, ?_⟩
  · intro n member level' read'
    have here := same n member
    rw [read', Option.map_some, eq_comm, Option.map_eq_some_iff] at here
    obtain ⟨level, read, payload⟩ := here
    refine (holds.holds n member level read).congr payload.symm ?_ (sameMembers _)
    intro slot inside
    obtain ⟨inLive, isSide, _⟩ := mem_members.mp inside
    exact sameEntries slot inLive isSide
  · intro n member
    rw [samePrice n member, sameMembers]
    exact holds.occupied n member
  · intro slot inside isSide
    have inMembers : slot ∈ members live' side slot.2.price := mem_members.mpr ⟨inside, isSide, rfl⟩
    rw [sameMembers] at inMembers
    obtain ⟨n, member, price⟩ := holds.covered slot (mem_members.mp inMembers).1 isSide
    exact ⟨n, member, (samePrice n member).trans price⟩

/-- A book without empty levels may be taken for one with a spare level. -/
theorem SideQueues.weaken (holds : SideQueues book live side addresses none) (spare : Ptr) :
    SideQueues book live side addresses spare :=
  ⟨holds.holds, fun n member => .inl ((holds.occupied n member).resolve_right (by simp)), holds.covered⟩

/-- A side on which the spare level is not has none empty. -/
theorem SideQueues.fill (holds : SideQueues book live side addresses (some a)) (notHere : a ∉ addresses) :
    SideQueues book live side addresses none :=
  ⟨holds.holds, fun n member => .inl ((holds.occupied n member).resolve_right
    fun isSpare => notHere (Option.some.inj isSpare ▸ member)), holds.covered⟩

theorem Represents.weaken (represents : Represents book live trees none) (spare : Ptr) :
    Represents book live trees spare :=
  { represents with queues := fun side sided => (represents.queues side sided).weaken spare }

/-- The level of a price is where the tree has it. -/
theorem SideTree.price_injective (holds : SideTree book side tree) {m n : ℕ} (inM : m ∈ tree.inorder)
    (inN : n ∈ tree.inorder) (same : priceAt book.priceLevels m = priceAt book.priceLevels n) : m = n := by
  have atM := (holds.levels _ m).mpr ⟨inM, rfl⟩
  have atN := (holds.levels _ n).mpr ⟨inN, same.symm⟩
  exact Option.some.inj (atM.symm.trans atN)

theorem SideTree.read (holds : SideTree book side tree) (member : a ∈ tree.inorder) :
    ∃ level, book.priceLevels.read a = some level := holds.linked.read member

/-- An id that the map lacks is the id of no live order. -/
theorem Represents.find?_eq_none (represents : Represents book live trees spare) {id : UInt64} :
    book.orders.find? id = none ↔ ∀ slot ∈ live, slot.2.id ≠ id := by
  rw [Option.eq_none_iff_forall_ne_some]
  constructor
  · intro unknown slot member same
    exact unknown slot.1 ((represents.orders id slot.1).mpr ⟨slot, member, rfl, same⟩)
  · intro unknown oe found
    obtain ⟨slot, member, _, same⟩ := (represents.orders id oe).mp found
    exact unknown slot member same

/-- Two slots with one address are one slot. -/
theorem Represents.slot_injective (represents : Represents book live trees spare) {slot slot' : Slot}
    (member : slot ∈ live) (member' : slot' ∈ live) (same : slot.1 = slot'.1) : slot = slot' :=
  List.inj_on_of_nodup_map represents.addresses member member' same

/-- Two slots with one id are one slot. -/
theorem Represents.slot_of_id (represents : Represents book live trees spare) {slot slot' : Slot}
    (member : slot ∈ live) (member' : slot' ∈ live) (same : slot.2.id = slot'.2.id) : slot = slot' :=
  List.inj_on_of_nodup_map represents.distinct member member' same

/-- A live order rests in one level of its side, and its entry stands for it. -/
theorem Represents.locate (represents : Represents book live trees spare) {slot : Slot} (member : slot ∈ live) :
    ∃ a level entry, a ∈ (trees slot.2.side).inorder ∧ book.priceLevels.read a = some level ∧
      level.price = slot.2.price ∧ LevelHolds book.orderEntries live slot.2.side a level ∧
      book.orderEntries.read slot.1 = some entry ∧ entry.StandsFor slot.2 a := by
  have queues := represents.queues slot.2.side slot.2.sided
  obtain ⟨a, inTree, price⟩ := queues.covered slot member rfl
  obtain ⟨level, read⟩ := (represents.tree slot.2.side slot.2.sided).read inTree
  simp only [priceAt, read, Option.map_some, Option.getD_some] at price
  have holds := queues.holds a inTree level read
  obtain ⟨entry, readEntry, stands⟩ := holds.stands slot (mem_members.mpr ⟨member, rfl, price.symm⟩)
  exact ⟨a, level, entry, inTree, read, price, holds, readEntry, stands⟩

/-- An order of a level is nowhere else. -/
theorem Represents.not_mem_members (represents : Represents book live trees spare) {price : ScaledPrice} {slot : Slot}
    (member : slot ∈ live) (elsewhere : ¬(slot.2.side = side ∧ slot.2.price = price)) :
    slot.1 ∉ (members live side price).map Prod.fst := by
  intro inside
  obtain ⟨other, inMembers, same⟩ := List.mem_map.mp inside
  obtain ⟨inLive, here⟩ := mem_members.mp inMembers
  exact elsewhere (represents.slot_injective inLive member same ▸ here)

section Stands

variable {n : ℕ} {order : RestingOrder}

theorem stands_modify {update : OrderEntry → OrderEntry}
    (stands : ∃ entry, entries.read n = some entry ∧ entry.StandsFor order a)
    (kept : ∀ entry : OrderEntry, entry.StandsFor order a → (update entry).StandsFor order a) (m : ℕ) :
    ∃ entry, (entries.modify m update).read n = some entry ∧ entry.StandsFor order a := by
  obtain ⟨entry, read, stands⟩ := stands
  by_cases same : n = m
  · subst same
    exact ⟨update entry, by rw [read_modify_self, read]; rfl, kept entry stands⟩
  · exact ⟨entry, by rw [read_modify_of_ne _ _ same, read], stands⟩

/-- Links are no part of what an entry stands for. -/
theorem stands_relinkNext (stands : ∃ entry, entries.read n = some entry ∧ entry.StandsFor order a) (p q : Ptr) :
    ∃ entry, (DoublyLinked.relinkNext entries p q).read n = some entry ∧ entry.StandsFor order a := by
  have kept (entry : OrderEntry) (stands : entry.StandsFor order a) :
      (DoublyLinked.setNext q entry).StandsFor order a :=
    ⟨stands.orderId, stands.side, stands.price, stands.quantity, stands.level⟩
  cases p with
  | none => exact stands
  | some m => exact stands_modify stands kept m

theorem stands_relinkPrev (stands : ∃ entry, entries.read n = some entry ∧ entry.StandsFor order a) (p q : Ptr) :
    ∃ entry, (DoublyLinked.relinkPrev entries p q).read n = some entry ∧ entry.StandsFor order a := by
  have kept (entry : OrderEntry) (stands : entry.StandsFor order a) :
      (DoublyLinked.setPrev q entry).StandsFor order a :=
    ⟨stands.orderId, stands.side, stands.price, stands.quantity, stands.level⟩
  cases p with
  | none => exact stands
  | some m => exact stands_modify stands kept m

end Stands

/-- A book whose stores are used up represents no orders. -/
theorem represents_empty {heap : Heap PriceLevel} {entries : Heap OrderEntry} (noLevel : ∀ n, heap.read n = none)
    (noEntry : ∀ n, entries.read n = none) (anomalies : BookAnomalyLog) :
    Represents { priceLevels := heap, orderEntries := entries, anomalies := anomalies } [] (fun _ => .nil) none where
  distinct := by simp
  addresses := by simp
  orders := by simp
  entries := by simp [noEntry]
  tree side _ := by
    refine ⟨?_, by simp, by simp, by simp [Ascending], ?_, ?_⟩ <;> cases side <;>
      simp [treeFor, levelsFor, bestFor, sideFor, bestOf]
  queues side _ := ⟨by simp, by simp, by simp⟩
  apart := by simp
  levels := by simp [noLevel]

end LimitOrderBook

end BackTester
