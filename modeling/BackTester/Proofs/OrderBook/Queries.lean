import BackTester.Abstract.ReferenceBook
import BackTester.Proofs.OrderBook.Represents
import BackTester.Proofs.OrderBook.Traversal

/-! # Queries of the limit order book

A book in order answers every query as a map from ids to what rests under them would, computed from
scratch: its levels, read from the best one on, are the sorted prices of the map, and the total of
each level is the sum of the quantities there.
-/

namespace BackTester.LimitOrderBook

open BinaryTree Heap PriceLevel

variable {book : LimitOrderBook} {live : List Slot} {side : Side} {tree : BinaryTree ℕ} {a : ℕ} {price : ScaledPrice}
  {trees : Side → BinaryTree ℕ} {reference : ReferenceBook}

/-- A total that is a natural number wraps as one. -/
theorem ofInt_natCast (n : ℕ) : UInt64.ofInt n = UInt64.ofNat n := by
  apply UInt64.toNat_inj.mp
  rw [UInt64.ofInt, UInt64.toNat_ofNat', UInt64.toNat_ofNat']
  omega

/-- The levels of a tree, the best first. -/
def ranked (side : Side) (tree : BinaryTree ℕ) : List ℕ := if side = .buy then tree.inorder.reverse else tree.inorder

@[simp] theorem mem_ranked : a ∈ ranked side tree ↔ a ∈ tree.inorder := by
  unfold ranked
  split <;> simp

@[simp] theorem length_ranked (side : Side) (tree : BinaryTree ℕ) :
    (ranked side tree).length = tree.inorder.length := by
  unfold ranked
  split <;> simp

theorem head?_ranked (side : Side) (tree : BinaryTree ℕ) : (ranked side tree).head? = bestOf side tree := by
  unfold ranked bestOf
  split <;> simp

/-- Along the ranking every price is better than the next. -/
theorem SideTree.pairwise_ranked (holds : SideTree book side tree) : (ranked side tree).Pairwise fun m n =>
    ReferenceBook.better side (priceAt book.priceLevels m) (priceAt book.priceLevels n) ∧
      priceAt book.priceLevels m ≠ priceAt book.priceLevels n := by
  unfold ranked
  split
  · next buy =>
    subst buy
    rw [List.pairwise_reverse]
    apply holds.ascending.imp
    intro m n below
    exact ⟨ReferenceBook.better_buy.mpr below.le, below.ne'⟩
  · next notBuy =>
    apply holds.ascending.imp
    intro m n below
    exact ⟨(ReferenceBook.better_of_ne_buy notBuy).mpr below.le, below.ne⟩

/-- The map holds the same orders as the slots. -/
def SameOrders (live : List Slot) (reference : ReferenceBook) : Prop :=
  reference.values.Perm (live.map fun slot => slot.2.resting)

section SameOrders

variable (same : SameOrders live reference)

include same

theorem SameOrders.onSide (side : Side) :
    (reference.onSide side).Perm ((live.filter fun slot => slot.2.side = side).map fun slot => slot.2.resting) := by
  have := same.filter fun order => order.side = side
  rwa [List.filter_map] at this

/-- The sum of the quantities at a price. -/
theorem SameOrders.volumeAt (side : Side) (price : ScaledPrice) :
    reference.volumeAt side price = ((members live side price).map fun slot => slot.2.quantity.toNat).sum := by
  have here := ((same.onSide side).filter fun order => order.price = price).map fun order => order.quantity.toNat
  rw [ReferenceBook.volumeAt, here.sum_nat, List.filter_map, List.map_map, List.filter_filter, members]
  congr 2
  apply List.filter_congr
  intro slot _
  simp [RestingOrder.resting, and_comm]

theorem SameOrders.mem_onSide (side : Side) (price : ScaledPrice) :
    (∃ order ∈ reference.onSide side, order.price = price) ↔ members live side price ≠ [] := by
  constructor
  · rintro ⟨order, member, isPrice⟩
    obtain ⟨slot, inSide, rfl⟩ := List.mem_map.mp ((same.onSide side).mem_iff.mp member)
    rw [List.mem_filter, decide_eq_true_eq] at inSide
    exact List.ne_nil_of_mem (mem_members.mpr ⟨inSide.1, inSide.2, isPrice⟩)
  · intro occupied
    obtain ⟨slot, member⟩ := List.exists_mem_of_ne_nil _ occupied
    obtain ⟨inLive, isSide, isPrice⟩ := mem_members.mp member
    refine ⟨slot.2.resting, (same.onSide side).mem_iff.mpr (List.mem_map_of_mem ?_), isPrice⟩
    simp [inLive, isSide]

end SameOrders

/-- A price has a level where orders rest. -/
theorem Represents.exists_level (represents : Represents book live trees none) (sided : side ≠ .none) :
    members live side price ≠ [] ↔ ∃ a ∈ (trees side).inorder, priceAt book.priceLevels a = price := by
  constructor
  · intro occupied
    obtain ⟨slot, member⟩ := List.exists_mem_of_ne_nil _ occupied
    obtain ⟨inLive, isSide, rfl⟩ := mem_members.mp member
    exact (represents.queues side sided).covered slot inLive isSide
  · rintro ⟨a, inTree, rfl⟩
    exact ((represents.queues side sided).occupied a inTree).resolve_right (by simp)

/-- The levels, the best first, are the prices of the map. -/
theorem Represents.prices (represents : Represents book live trees none) (same : SameOrders live reference)
    (sided : side ≠ .none) : reference.prices side = (ranked side (trees side)).map (priceAt book.priceLevels) := by
  have ordered := (represents.tree side sided).pairwise_ranked
  apply ReferenceBook.prices_eq
  · exact List.pairwise_map.mpr (ordered.imp And.right)
  · exact List.pairwise_map.mpr (ordered.imp And.left)
  · intro price
    rw [same.mem_onSide, represents.exists_level sided, List.mem_map]
    simp only [mem_ranked]

/-- The total of a level is the volume of the map. -/
theorem Represents.quote (represents : Represents book live trees none) (same : SameOrders live reference)
    (sided : side ≠ .none) (inTree : a ∈ (trees side).inorder) : ∃ level, book.priceLevels.read a = some level ∧
      level.totalQuantity = reference.volumeAt side (priceAt book.priceLevels a) := by
  obtain ⟨level, read⟩ := (represents.tree side sided).read inTree
  have holds := (represents.queues side sided).holds a inTree level read
  exact ⟨level, read, by rw [same.volumeAt, priceAt_of_read read, holds.total]⟩

theorem bestPrice_eq (sided : side ≠ .none) : book.bestPrice side = match book.bestFor side with
    | none => some none
    | some best => (book.priceLevels.read best).map fun level => some level.price := by
  cases side with
  | none => contradiction
  | buy | sell => rfl

/-- The best price. -/
theorem Represents.bestPrice (represents : Represents book live trees none) (same : SameOrders live reference)
    (sided : side ≠ .none) : book.bestPrice side = some (reference.bestPrice side) := by
  rw [bestPrice_eq sided, ReferenceBook.bestPrice_eq_head? sided, represents.prices same sided,
    List.head?_map, head?_ranked, (represents.tree side sided).best]
  cases isBest : bestOf side (trees side) with
  | none => rfl
  | some best =>
    have inTree : best ∈ (trees side).inorder := by
      rw [← head?_ranked] at isBest
      exact mem_ranked.mp (List.mem_of_head? isBest)
    obtain ⟨level, read⟩ := (represents.tree side sided).read inTree
    simp [read, priceAt]

/-- The volume at a price. -/
theorem Represents.volumeAt (represents : Represents book live trees none) (same : SameOrders live reference)
    (sided : side ≠ .none) (price : ScaledPrice) :
    book.volumeAt side price = some (UInt64.ofNat (reference.volumeAt side price)) := by
  have oneSide : ¬(side ≠ .buy ∧ side ≠ .sell) := by
    cases side <;> simp at sided ⊢
  rw [LimitOrderBook.volumeAt, if_neg oneSide]
  cases found : (book.levelsFor side).find? price with
  | none =>
    have vacant : members live side price = [] := by
      by_contra occupied
      obtain ⟨a, inTree, isPrice⟩ := (represents.exists_level sided).mp occupied
      have := ((represents.tree side sided).levels price a).mpr ⟨inTree, isPrice⟩
      rw [found] at this
      contradiction
    rw [same.volumeAt, vacant]
    rfl
  | some a =>
    obtain ⟨inTree, isPrice⟩ := ((represents.tree side sided).levels price a).mp found
    obtain ⟨level, read, total⟩ := represents.quote same sided inTree
    rw [isPrice] at total
    simp [read, total, ofInt_natCast]

/-- Whether a side is empty. -/
theorem Represents.empty (represents : Represents book live trees none) (same : SameOrders live reference)
    (sided : side ≠ .none) : book.empty side = reference.empty side := by
  have unfolded : book.empty side = decide (book.treeFor side = none) := by
    cases side with
    | none => contradiction
    | buy | sell => rfl
  have noTree : book.treeFor side = none ↔ (trees side).inorder = [] := by
    have linked := (represents.tree side sided).linked
    cases isTree : trees side with
    | nil =>
      rw [isTree, linkedTree_nil] at linked
      simp [linked]
    | node n left right =>
      rw [isTree, linkedTree_node] at linked
      simp [linked.1]
  rw [unfolded, ReferenceBook.empty_of_sided sided, ← ReferenceBook.isEmpty_prices, Bool.eq_iff_iff, decide_eq_true_eq,
    noTree, List.isEmpty_iff, represents.prices same sided, List.map_eq_nil_iff, ← List.length_eq_zero_iff,
    ← length_ranked side, List.length_eq_zero_iff]

/-- The levels, the best first, with their totals. -/
theorem Represents.sideLevels (represents : Represents book live trees none) (same : SameOrders live reference)
    (sided : side ≠ .none) : book.sideLevels side =
      some ((reference.sideLevels side).map fun (price, volume) => (price, (volume : ℤ))) := by
  have holds := represents.tree side sided
  have few := holds.linked.length_le_next holds.nodup
  have walk : book.sideLevels side = some ((ranked side (trees side)).map (LimitOrderBook.quote book.priceLevels)) := by
    have live : ∀ n ∈ ranked side (trees side), ∃ level, book.priceLevels.read n = some level :=
      fun n member => holds.read (mem_ranked.mp member)
    have enough : (ranked side (trees side)).length ≤ book.priceLevels.next + 1 := by
      rw [length_ranked]
      omega
    have walks :
        Walks (if side = .buy then inorderPredecessor else inorderSuccessor) book.priceLevels (book.bestFor side)
        (ranked side (trees side)) := by
      rw [holds.best, ← head?_ranked]
      cases side with
      | none => contradiction
      | buy =>
        have walks := walks_inorderPredecessor holds.linked holds.nodup
        rw [← List.head?_reverse] at walks
        exact walks
      | sell => exact walks_inorderSuccessor holds.linked holds.nodup
    have run := walks.run_listLevels enough live
    cases side with
    | none => contradiction
    | buy | sell => exact congrArg (Option.map Prod.fst) run
  rw [walk, ReferenceBook.sideLevels, represents.prices same sided, List.map_map, List.map_map]
  congr 1
  apply List.map_congr_left
  intro n member
  obtain ⟨level, read, total⟩ := represents.quote same sided (mem_ranked.mp member)
  simp [LimitOrderBook.quote, read, total]

end BackTester.LimitOrderBook
