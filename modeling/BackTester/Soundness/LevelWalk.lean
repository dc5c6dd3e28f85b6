import BackTester.Proofs.OrderBook.Traversal

/-! # Walks over the tree of price levels

Whatever the shape of a search tree, going on from its minimum by `inorder_successor` meets every
level once, in ascending order, and then null; and going on from its maximum by
`inorder_predecessor` meets them in descending order. So the loops of `side_levels` end, and list
every level.
-/

namespace BackTester.LimitOrderBook

open BinaryTree Heap PriceLevel

/-- At every node the prices below on the left are lower than its own and those on the right higher. -/
def Ordered (heap : Heap PriceLevel) : BinaryTree ℕ → Prop
  | .nil => True
  | .node n left right =>
    Ordered heap left ∧ Ordered heap right ∧ (∀ m ∈ left.inorder, priceAt heap m < priceAt heap n) ∧
      ∀ m ∈ right.inorder, priceAt heap n < priceAt heap m

variable {ok : BinaryTree ℕ → ℤ → Prop} {heap : Heap PriceLevel} {root : Ptr} {tree : BinaryTree ℕ}

/-- The prices of a search tree ascend in symmetric order. -/
theorem ascending_inorder (ordered : Ordered heap tree) : Ascending heap tree.inorder := by
  induction tree with
  | nil => exact List.Pairwise.nil
  | node n left right ihLeft ihRight =>
    obtain ⟨leftOrdered, rightOrdered, lower, higher⟩ := ordered
    rw [inorder_node, Ascending, List.pairwise_append, List.pairwise_cons]
    refine ⟨ihLeft leftOrdered, ⟨higher, ihRight rightOrdered⟩, ?_⟩
    intro m inLeft other behind
    rcases List.mem_cons.mp behind with rfl | inRight
    · exact lower m inLeft
    · exact (lower m inLeft).trans (higher other inRight)

/-- What the two walks over the tree under `root` are, when `nodes` are its nodes in ascending
order: each starts at one end, and the loop of `side_levels` that follows it lists every level. -/
structure WalksBothWays (heap : Heap PriceLevel) (root : Ptr) (nodes : List ℕ) : Prop where
  once : nodes.Nodup
  ascending : Ascending heap nodes
  up : ∃ first, (treeMin (heap.next + 1) root).run heap = some (first, heap) ∧ Walks inorderSuccessor heap first nodes ∧
    ∀ book : LimitOrderBook, book.priceLevels = heap → book.ask.best = first →
      book.sideLevels .sell = some (nodes.map (quote heap))
  down : ∃ last, (treeMax (heap.next + 1) root).run heap = some (last, heap) ∧
    Walks inorderPredecessor heap last nodes.reverse ∧
    ∀ book : LimitOrderBook, book.priceLevels = heap → book.bid.best = last →
      book.sideLevels .buy = some (nodes.reverse.map (quote heap))

/-- Both walks over a search tree of any shape meet each of its nodes once, in the order of the prices. -/
theorem walksBothWays_inorder (linked : LinkedTree ok heap none root tree) (ordered : Ordered heap tree) :
    WalksBothWays heap root tree.inorder := by
  have ascending := ascending_inorder ordered
  have nodup := nodup_of_ascending ascending
  have few := linked.length_le_next nodup
  have low := tree.height_le_length_inorder
  have live : ∀ n ∈ tree.inorder, ∃ level, heap.read n = some level := fun n member => linked.read member
  have walksUp := walks_inorderSuccessor linked nodup
  have walksDown := walks_inorderPredecessor linked nodup
  refine ⟨nodup, ascending, ⟨_, run_treeMin (by omega) linked, walksUp, ?_⟩,
    ⟨_, run_treeMax (by omega) linked, walksDown, ?_⟩⟩
  · rintro book rfl isFirst
    rw [← isFirst] at walksUp
    exact congrArg (Option.map Prod.fst) (walksUp.run_listLevels (by omega) live)
  · rintro book rfl isLast
    rw [← isLast] at walksDown
    have enough : tree.inorder.reverse.length ≤ book.priceLevels.next + 1 := by
      rw [List.length_reverse]
      omega
    exact congrArg (Option.map Prod.fst) (walksDown.run_listLevels enough fun n member =>
      live n (List.mem_reverse.mp member))

/-- A root without a left child, whose right child has no right child: far from balanced, with stale heights. -/
def zigzag : Heap PriceLevel :=
  (((∅ : Heap PriceLevel).alloc { price := 100, rightChild := some 1 }).alloc
    { price := 300, parent := some 0, leftChild := some 2 }).alloc { price := 200, parent := some 1 }

theorem walksBothWays_inorder_zigzag : WalksBothWays zigzag (some 0) [0, 2, 1] := by
  have linked : LinkedTree (fun _ _ => True) zigzag none (some 0) (.node 0 .nil (.node 1 (.node 2 .nil .nil) .nil)) :=
    ⟨rfl, _, rfl, rfl, trivial, rfl, rfl, _, rfl, rfl, trivial, ⟨rfl, _, rfl, rfl, trivial, rfl, rfl⟩, rfl⟩
  exact walksBothWays_inorder linked (by simp only [Ordered]; decide)

end BackTester.LimitOrderBook
