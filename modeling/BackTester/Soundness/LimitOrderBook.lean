import BackTester.Abstract.TimePriority
import BackTester.Model.OrderBook.OrderBook
import BackTester.Proofs.OrderBook.Queries
import BackTester.Proofs.OrderBook.Refinement

/-! # Soundness of the limit order book

Every sequence of events runs to its end from an empty book, and what it leaves is described three
ways: by the invariant that ties the trees, maps, pointers and queues together, by the queues that
time priority demands, and by the answers of a map from ids to resting orders.
-/

namespace BackTester.LimitOrderBook

open BinaryTree Heap PriceLevel

variable {book : LimitOrderBook} {live : List Slot} {side : Side} {a : ℕ} {trees : Side → BinaryTree ℕ}

/-- The quantity at an address. -/
def quantityAt (entries : Heap OrderEntry) (n : ℕ) : ℤ := ((entries.read n).map OrderEntry.quantity).getD 0

/-- A level queues at least one entry, counts and totals them, and each points back to it. -/
structure ConsistentLevel (book : LimitOrderBook) (side : Side) (a : ℕ) (level : PriceLevel)
    (queue : List ℕ) : Prop where
  occupied : 1 ≤ level.orderCount
  linked : DoublyLinked.Segment book.orderEntries none level.front queue level.back none
  nodup : queue.Nodup
  count : level.orderCount = queue.length
  total : level.totalQuantity = (queue.map (quantityAt book.orderEntries)).sum
  listed : ∀ oe ∈ queue, ∃ entry, book.orderEntries.read oe = some entry ∧ entry.level = some a ∧
    entry.price = level.price ∧ entry.side = side

/-- The tree of a side is an AVL search tree, and the level map and the best pointer agree with it. -/
structure ConsistentSide (book : LimitOrderBook) (side : Side) (tree : BinaryTree ℕ) : Prop where
  linked : LinkedTree ExactHeight book.priceLevels none (book.treeFor side) tree
  ascending : Ascending book.priceLevels tree.inorder
  balanced : tree.Balanced
  levels : ∀ price a, (book.levelsFor side).find? price = some a ↔ a ∈ tree.inorder ∧ priceAt book.priceLevels a = price
  best : ∀ a, book.bestFor side = some a → a ∈ tree.inorder ∧ ∀ n ∈ tree.inorder,
    if side = .buy then priceAt book.priceLevels n ≤ priceAt book.priceLevels a
    else priceAt book.priceLevels a ≤ priceAt book.priceLevels n
  none : book.bestFor side = none ↔ book.treeFor side = none

/-- The trees, the queues and the id map of a book are about the same levels and entries. -/
structure Consistent (book : LimitOrderBook) (trees : Side → BinaryTree ℕ) (queues : ℕ → List ℕ) : Prop where
  sides : ∀ side ≠ .none, ConsistentSide book side (trees side)
  apart : (trees .buy).inorder.Disjoint (trees .sell).inorder
  levels : ∀ side ≠ .none, ∀ a ∈ (trees side).inorder, ∃ level, book.priceLevels.read a = some level ∧
    ConsistentLevel book side a level (queues a)
  orders : ∀ id oe, book.orders.find? id = some oe ↔
    ∃ entry, book.orderEntries.read oe = some entry ∧ entry.orderId = id
  listed : ∀ oe entry, book.orderEntries.read oe = some entry →
    ∃! a, (∃ side ≠ .none, a ∈ (trees side).inorder) ∧ oe ∈ queues a

theorem SideTree.consistent (holds : SideTree book side (trees side)) : ConsistentSide book side (trees side) where
  linked := holds.linked
  ascending := holds.ascending
  balanced := holds.balanced
  levels := holds.levels
  best a isBest := by
    rw [holds.best, ← head?_ranked] at isBest
    refine ⟨mem_ranked.mp (List.mem_of_head? isBest), fun n inTree => ?_⟩
    obtain ⟨rest, isRanked⟩ := List.head?_eq_some_iff.mp isBest
    have first : n = a ∨ ReferenceBook.better side (priceAt book.priceLevels a) (priceAt book.priceLevels n) := by
      have sorted := holds.pairwise_ranked
      have ranks : n ∈ ranked side (trees side) := mem_ranked.mpr inTree
      rw [isRanked, List.mem_cons] at ranks
      rw [isRanked, List.pairwise_cons] at sorted
      exact ranks.imp_right fun behind => (sorted.1 n behind).1
    rcases first with rfl | better
    · split <;> exact le_refl _
    · split
      · next buy =>
        subst buy
        exact ReferenceBook.better_buy.mp better
      · next notBuy => exact (ReferenceBook.better_of_ne_buy notBuy).mp better
  none := by
    have linked := holds.linked
    rw [holds.best, ← head?_ranked, List.head?_eq_none_iff, ← List.length_eq_zero_iff, length_ranked]
    cases isTree : trees side with
    | nil =>
      rw [isTree, linkedTree_nil] at linked
      simp [linked]
    | node n left right =>
      rw [isTree, linkedTree_node] at linked
      simp [linked.1]

/-- The addresses queued at a level. -/
def queueAt (book : LimitOrderBook) (live : List Slot) (trees : Side → BinaryTree ℕ) (a : ℕ) : List ℕ :=
  (members live (if a ∈ (trees .buy).inorder then .buy else .sell) (priceAt book.priceLevels a)).map Prod.fst

theorem Represents.queueAt_eq (represents : Represents book live trees none) (sided : side ≠ .none)
    (inTree : a ∈ (trees side).inorder) :
    queueAt book live trees a = (members live side (priceAt book.priceLevels a)).map Prod.fst := by
  unfold queueAt
  cases side with
  | none => contradiction
  | buy => rw [if_pos inTree]
  | sell => rw [if_neg fun inBuy => represents.apart .buy (by simp) .sell (by simp) (by simp) inBuy inTree]

theorem Represents.consistentLevel (represents : Represents book live trees none) (sided : side ≠ .none)
    (inTree : a ∈ (trees side).inorder) : ∃ level, book.priceLevels.read a = some level ∧
      ConsistentLevel book side a level (queueAt book live trees a) := by
  obtain ⟨level, read⟩ := (represents.tree side sided).read inTree
  have queues := represents.queues side sided
  have holds := queues.holds a inTree level read
  have occupied := (queues.occupied a inTree).resolve_right (by simp)
  rw [priceAt_of_read read] at occupied
  refine ⟨level, read, ?_⟩
  rw [represents.queueAt_eq sided inTree, priceAt_of_read read]
  refine ⟨?_, holds.segment, (List.filter_sublist.map _).nodup represents.addresses, ?_, ?_, ?_⟩
  · have := List.length_pos_iff.mpr occupied
    rw [holds.count]
    omega
  · rw [List.length_map]
    exact holds.count
  · rw [holds.total, Nat.cast_list_sum, List.map_map, List.map_map]
    congr 1
    apply List.map_congr_left
    intro slot member
    obtain ⟨entry, readEntry, stands⟩ := holds.stands slot member
    simp [quantityAt, readEntry, stands.quantity]
  · intro oe member
    obtain ⟨slot, inside, rfl⟩ := List.mem_map.mp member
    obtain ⟨entry, readEntry, stands⟩ := holds.stands slot inside
    obtain ⟨_, isSide, isPrice⟩ := mem_members.mp inside
    exact ⟨entry, readEntry, stands.level, stands.price.trans isPrice, stands.side.trans isSide⟩

/-- A book that represents orders is consistent. -/
theorem Represents.consistent (represents : Represents book live trees none) :
    Consistent book trees (queueAt book live trees) where
  sides side sided := (represents.tree side sided).consistent
  apart := represents.apart .buy (by simp) .sell (by simp) (by simp)
  levels side sided a inTree := represents.consistentLevel sided inTree
  orders id oe := by
    rw [represents.orders]
    constructor
    · rintro ⟨slot, member, rfl, rfl⟩
      obtain ⟨a, level, entry, _, _, _, _, read, stands⟩ := represents.locate member
      exact ⟨entry, read, stands.orderId⟩
    · rintro ⟨entry, read, rfl⟩
      obtain ⟨slot, member, rfl⟩ := List.mem_map.mp ((represents.entries oe).mp ⟨entry, read⟩)
      obtain ⟨a, level, other, _, _, _, _, readOther, stands⟩ := represents.locate member
      rw [read, Option.some_inj] at readOther
      exact ⟨slot, member, rfl, readOther ▸ stands.orderId.symm⟩
  listed oe entry read := by
    obtain ⟨slot, member, rfl⟩ := List.mem_map.mp ((represents.entries oe).mp ⟨entry, read⟩)
    obtain ⟨a, level, _, inTree, readLevel, isPrice, _, _, stands⟩ := represents.locate member
    refine ⟨a, ⟨⟨slot.2.side, slot.2.sided, inTree⟩, ?_⟩, ?_⟩
    · rw [represents.queueAt_eq slot.2.sided inTree, priceAt_of_read readLevel, isPrice]
      exact List.mem_map_of_mem (mem_members.mpr ⟨member, rfl, rfl⟩)
    · rintro b ⟨⟨other, otherSided, inOther⟩, inQueue⟩
      rw [represents.queueAt_eq otherSided inOther] at inQueue
      obtain ⟨same, inMembers, sameAddress⟩ := List.mem_map.mp inQueue
      obtain ⟨inLive, isSide, isOther⟩ := mem_members.mp inMembers
      cases represents.slot_injective inLive member sameAddress
      subst isSide
      apply (represents.tree _ slot.2.sided).price_injective inOther inTree
      rw [priceAt_of_read readLevel, isPrice, isOther]

/-- Every reachable book is consistent. -/
theorem consistent_applyAll (events : List MarketDataEvent) : ∃ book trees queues,
    (applyAll events).run {} = some ((), book) ∧ Consistent book trees queues := by
  obtain ⟨book, run, live, trees, represents, _⟩ := run_applyAll holds_empty events
  exact ⟨book, trees, _, run, represents.consistent⟩

/-- The list between the ends of the level at a price describes a queue, followed in either direction. -/
def Queues (book : LimitOrderBook) (side : Side) (price : ScaledPrice) (queue : List RestingOrder) : Prop :=
  match (book.levelsFor side).find? price with
  | none => queue = []
  | some a => ∃ level nodes, book.priceLevels.read a = some level ∧
      DoublyLinked.follow DoublyLinked.next book.orderEntries book.orderEntries.next level.front = some nodes ∧
      DoublyLinked.follow DoublyLinked.prev book.orderEntries book.orderEntries.next level.back = some nodes.reverse ∧
      List.Forall₂
        (fun oe order => ∃ entry, book.orderEntries.read oe = some entry ∧ entry.StandsFor order a) nodes queue

/-- The list of a level describes the orders of its price in time priority. -/
theorem Represents.queues_members (represents : Represents book live trees none) (sided : side ≠ .none)
    (price : ScaledPrice) : Queues book side price ((members live side price).map Prod.snd) := by
  unfold Queues
  have tree := represents.tree side sided
  cases found : (book.levelsFor side).find? price with
  | none =>
    rw [List.map_eq_nil_iff]
    by_contra occupied
    obtain ⟨a, here⟩ := (represents.exists_level sided).mp occupied
    have := (tree.levels price a).mpr here
    rw [found] at this
    contradiction
  | some a =>
    obtain ⟨inTree, isPrice⟩ := (tree.levels price a).mp found
    obtain ⟨level, read⟩ := tree.read inTree
    have holds := (represents.queues side sided).holds a inTree level read
    rw [priceAt_of_read read] at isPrice
    subst isPrice
    have enough : ((members live side level.price).map Prod.fst).length ≤ book.orderEntries.next := by
      have nodup : ((members live side level.price).map Prod.fst).Nodup :=
        (List.filter_sublist.map _).nodup represents.addresses
      have bound : (members live side level.price).map Prod.fst ⊆ List.range book.orderEntries.next := by
        intro n member
        obtain ⟨slot, inside, rfl⟩ := List.mem_map.mp member
        obtain ⟨entry, readEntry, _⟩ := holds.stands slot inside
        exact List.mem_range.mpr (read_bound readEntry)
      simpa using (nodup.subperm bound).length_le
    refine ⟨level, _, read, DoublyLinked.follow_next holds.segment enough,
      DoublyLinked.follow_prev holds.segment enough, ?_⟩
    rw [List.forall₂_map_left_iff, List.forall₂_map_right_iff, List.forall₂_same]
    exact holds.stands

/-- In every reachable book the list of a level is the queue of its price in the priority book, which is sorted by
when each order last entered. -/
theorem queues_applyAll (events : List MarketDataEvent) : ∃ book, (applyAll events).run {} = some ((), book) ∧
    (∀ side ≠ .none, ∀ price, Queues book side price ((PriorityBook.run events).queue side price)) ∧
    ∃ time : UInt64 → ℕ,
      (∀ order ∈ (PriorityBook.run events).orders, PriorityBook.LastEntered events order.id (time order.id)) ∧
      ∀ side price, ((PriorityBook.run events).queue side price).Pairwise
        fun order behind => time order.id < time behind.id := by
  obtain ⟨book, run, live, trees, represents, same⟩ := run_applyAll holds_empty events
  obtain ⟨time, entered, sorted⟩ := PriorityBook.run_sorted events
  refine ⟨book, run, ?_, time, entered, fun side price => sorted.sublist List.filter_sublist⟩
  intro side sided price
  have queue : (PriorityBook.run events).queue side price = (members live side price).map Prod.snd := by
    rw [PriorityBook.queue, PriorityBook.run, ← same, List.filter_map]
    rfl
  rw [queue]
  exact represents.queues_members sided price

/-- The source totals in `int64_t`: no run of fewer than `2 ^ 31` events takes a total out of that range. -/
theorem volumeAt_lt {events : List MarketDataEvent} (few : events.length < 2 ^ 31) (side : Side) (price : ScaledPrice) :
    (ReferenceBook.run events).volumeAt side price < 2 ^ 63 := by
  have perm := (PriorityBook.matches_run events).values_perm
  have count := PriorityBook.length_run_le events
  let quantities := (((ReferenceBook.run events).onSide side).filter fun order => order.price = price).map fun order =>
    order.quantity.toNat
  have short : quantities.length ≤ events.length := by
    calc quantities.length = _ := List.length_map ..
      _ ≤ (ReferenceBook.run events).values.length := (List.length_filter_le _ _).trans (List.length_filter_le _ _)
      _ = (PriorityBook.run events).orders.length := by rw [perm.length_eq, List.length_map]
      _ ≤ events.length := count
  have small : ∀ quantity ∈ quantities, quantity ≤ 2 ^ 32 := by
    intro quantity member
    obtain ⟨order, _, rfl⟩ := List.mem_map.mp member
    exact order.quantity.toNat_lt.le
  calc (ReferenceBook.run events).volumeAt side price = quantities.sum := rfl
    _ ≤ quantities.length * 2 ^ 32 := by simpa using List.sum_le_card_nsmul quantities _ small
    _ < 2 ^ 63 := by omega

/-- Slots that hold the orders of a run hold those of the reference book. -/
theorem sameOrders_run {events : List MarketDataEvent}
    (same : live.map Prod.snd = (events.foldl PriorityBook.step ∅).orders) :
    SameOrders live (ReferenceBook.run events) := by
  have := (PriorityBook.matches_run events).values_perm
  rwa [PriorityBook.run, ← same, List.map_map] at this

/-- Every reachable book answers as the map of its orders does. -/
theorem answers_applyAll (events : List MarketDataEvent) : ∃ book, (applyAll events).run {} = some ((), book) ∧
    ∀ side ≠ .none, book.bestPrice side = some ((ReferenceBook.run events).bestPrice side) ∧
      (∀ price, book.volumeAt side price = some (UInt64.ofNat ((ReferenceBook.run events).volumeAt side price))) ∧
      book.empty side = (ReferenceBook.run events).empty side ∧
      book.sideLevels side =
        some (((ReferenceBook.run events).sideLevels side).map fun (price, volume) => (price, (volume : ℤ))) := by
  obtain ⟨book, run, live, trees, represents, same⟩ := run_applyAll holds_empty events
  have sameOrders := sameOrders_run same
  refine ⟨book, run, fun side sided => ⟨?_, ?_, ?_, ?_⟩⟩
  · exact represents.bestPrice sameOrders sided
  · exact represents.volumeAt sameOrders sided
  · exact represents.empty sameOrders sided
  · exact represents.sideLevels sameOrders sided

/-- Every resting order has a quantity, and so has every level. -/
structure Sized (book : LimitOrderBook) : Prop where
  entries : ∀ oe entry, book.orderEntries.read oe = some entry → 1 ≤ entry.quantity
  levels : ∀ a level, book.priceLevels.read a = some level → 0 < level.totalQuantity

theorem sized_iff {resting : PriorityBook} (holds : Holds book resting) : Sized book ↔ resting.Sized := by
  obtain ⟨live, trees, represents, same⟩ := holds
  have positive {order : RestingOrder} : order.quantity ≠ 0 ↔ 1 ≤ order.quantity.toNat := by
    rw [Nat.one_le_iff_ne_zero, ne_eq, ← UInt32.toNat_inj]
    rfl
  constructor
  · intro sized order member
    rw [← same] at member
    obtain ⟨slot, inside, rfl⟩ := List.mem_map.mp member
    obtain ⟨a, level, entry, _, _, _, _, read, stands⟩ := represents.locate inside
    have quantity := sized.entries slot.1 entry read
    rw [stands.quantity] at quantity
    exact positive.mpr (by omega)
  · intro sized
    have slotSized (slot : Slot) (inside : slot ∈ live) : 1 ≤ slot.2.quantity.toNat :=
      positive.mp (sized slot.2 (same ▸ List.mem_map_of_mem inside))
    constructor
    · intro oe entry read
      obtain ⟨slot, inside, rfl⟩ := List.mem_map.mp ((represents.entries oe).mp ⟨entry, read⟩)
      obtain ⟨a, level, other, _, _, _, _, readOther, stands⟩ := represents.locate inside
      rw [read, Option.some_inj] at readOther
      have := slotSized slot inside
      rw [readOther, stands.quantity]
      omega
    · intro a level read
      obtain ⟨side, sided, inTree⟩ := (represents.levels a).mp ⟨level, read⟩
      have queues := represents.queues side sided
      have total := (queues.holds a inTree level read).total
      have occupied := (queues.occupied a inTree).resolve_right (by simp)
      rw [priceAt_of_read read] at occupied
      obtain ⟨slot, member⟩ := List.exists_mem_of_ne_nil _ occupied
      have atMost :
          slot.2.quantity.toNat ≤ ((members live side level.price).map fun slot => slot.2.quantity.toNat).sum :=
        List.le_sum_of_mem (List.mem_map.mpr ⟨slot, member, rfl⟩)
      have := slotSized slot (mem_members.mp member).1
      omega

/-- Every order has a quantity after every event just where none enters empty. -/
theorem sized_applyAll_iff (events : List MarketDataEvent) :
    (∀ n, ∃ book, (applyAll (events.take n)).run {} = some ((), book) ∧ Sized book) ↔
      ∀ n e, events[n]? = some e → (PriorityBook.run (events.take n)).enters e → e.size ≠ 0 := by
  have here (prior : List MarketDataEvent) :
      (∃ book, (applyAll prior).run {} = some ((), book) ∧ Sized book) ↔ (PriorityBook.run prior).Sized := by
    obtain ⟨book, run, holds⟩ := run_applyAll holds_empty prior
    constructor
    · rintro ⟨other, otherRun, sized⟩
      rw [run, Option.some_inj, Prod.mk.injEq] at otherRun
      obtain ⟨_, rfl⟩ := otherRun
      exact (sized_iff holds).mp sized
    · intro sized
      exact ⟨book, run, (sized_iff holds).mpr sized⟩
  simp only [here]
  exact PriorityBook.sized_run_iff events

/-- A modify to another price and size 0 leaves an empty order at the new price. -/
theorem not_sized_applyAll : ¬∀ events, ∃ book, (applyAll events).run {} = some ((), book) ∧ Sized book := by
  intro always
  let events : List MarketDataEvent :=
    [{ orderId := 1, side := .buy, price := 100, size := 10, action := .add },
      { orderId := 1, price := 101, size := 0, action := .modify }]
  obtain ⟨book, run, sized⟩ := always events
  obtain ⟨other, otherRun, holds⟩ := run_applyAll holds_empty events
  rw [run, Option.some_inj, Prod.mk.injEq] at otherRun
  obtain ⟨_, rfl⟩ := otherRun
  have empty : ¬(PriorityBook.run events).Sized := by
    unfold PriorityBook.Sized
    decide
  exact empty ((sized_iff holds).mp sized)

/-- A book in order. -/
structure BookInOrder where
  book : LimitOrderBook
  inOrder : ∃ resting, Holds book resting

/-- No event gets stuck on a book in order. -/
theorem BookInOrder.isSome (sound : BookInOrder) (e : MarketDataEvent) :
    ((applyImpl e).run sound.book).isSome := by
  obtain ⟨resting, holds⟩ := sound.inOrder
  obtain ⟨book', run, _⟩ := run_applyImpl holds e
  simp [run]

instance : OrderBook BookInOrder where
  fresh := ⟨{}, ∅, holds_empty⟩
  apply sound e := ⟨(((applyImpl e).run sound.book).get (sound.isSome e)).2, by
    obtain ⟨resting, holds⟩ := sound.inOrder
    obtain ⟨book', run, holds', _⟩ := run_applyImpl holds e
    exact ⟨_, by simpa [run] using holds'⟩⟩

end BackTester.LimitOrderBook
