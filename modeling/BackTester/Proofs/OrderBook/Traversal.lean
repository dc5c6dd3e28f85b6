import BackTester.Model.OrderBook.LimitOrderBook
import BackTester.Proofs.OrderBook.Mirror
import BackTester.Proofs.OrderBook.Rotation

/-! # Traversal in price order

The successor of a node is what follows it in symmetric order, whatever the shape of the tree, and
the predecessor is the successor in the mirror image. A walk from either end therefore meets every
level once.
-/

namespace BackTester.LimitOrderBook

open BinaryTree Heap PriceLevel

variable {ok : BinaryTree ℕ → ℤ → Prop} {heap : Heap PriceLevel} {parent root par top : Ptr} {tree : BinaryTree ℕ}
  {context : Context ℕ} {n : ℕ} {x : PriceLevel}

theorem run_treeMin {fuel : ℕ} (enough : tree.height ≤ fuel) (treeLinked : LinkedTree ok heap parent root tree) :
    (treeMin fuel root).run heap = some (tree.inorder.head?, heap) := by
  induction tree generalizing fuel parent root with
  | nil =>
    rw [linkedTree_nil] at treeLinked
    subst treeLinked
    cases fuel <;> rfl
  | node n left right ih _ =>
    simp only [BinaryTree.height] at enough
    obtain ⟨fuel, rfl⟩ : ∃ less, fuel = less + 1 := ⟨fuel - 1, by omega⟩
    obtain ⟨rfl, level, read, rfl, _, leftLinked, _⟩ := treeLinked
    cases left with
    | nil =>
      rw [linkedTree_nil] at leftLinked
      simp [treeMin, read, leftLinked]
    | node k l r =>
      obtain ⟨m, toM⟩ := leftLinked.exists_root (by simp)
      have run := ih (show _ ≤ fuel by omega) leftLinked
      rw [toM] at run
      simp [treeMin, read, toM, run]

theorem mirrored_treeMin (fuel : ℕ) (p : Ptr) : mirrored (treeMin fuel p) = treeMax fuel p := by
  induction fuel generalizing p with
  | zero =>
    cases p with
    | none => exact mirrored_pure _
    | some n => rfl
  | succ fuel ih =>
    cases p with
    | none => exact mirrored_pure _
    | some n =>
      simp only [treeMin, treeMax, mirrored_bind, mirrored_load, map_eq_pure_bind,
        bind_assoc, pure_bind, mirror_leftChild]
      congr 1
      funext level
      cases level.rightChild with
      | none => exact mirrored_pure _
      | some next => exact ih _

theorem run_treeMax {fuel : ℕ} (enough : tree.height ≤ fuel) (treeLinked : LinkedTree ok heap parent root tree) :
    (treeMax fuel root).run heap = some (tree.inorder.getLast?, heap) := by
  have run := run_treeMin (by simpa using enough) treeLinked.mirror
  rw [← mirrored_treeMin, run_mirrored, run]
  simp

/-- Going up until a left subtree is left finds the first node behind everything below. -/
theorem run_leaveRight {fuel : ℕ} (enough : context.length < fuel) (read : heap.read n = some x)
    (linked : LinkedContext ok heap context x.parent (some n) none top) (outside : n ∉ context.around)
    (nodup : context.around.Nodup) : (leaveRight fuel n).run heap = some (context.after.head?, heap) := by
  induction context generalizing n x fuel with
  | nil =>
    obtain ⟨fuel, rfl⟩ : ∃ less, fuel = less + 1 := ⟨fuel - 1, by simp at enough; omega⟩
    obtain ⟨noParent, _⟩ := linked
    simp [leaveRight, read, noParent]
  | cons frame rest ih =>
    obtain ⟨fuel, rfl⟩ : ∃ less, fuel = less + 1 := ⟨fuel - 1, by simp at enough; omega⟩
    simp only [Context.around_cons, List.mem_cons, List.mem_append, not_or, List.nodup_cons] at outside nodup
    cases frame with
    | left m sibling =>
      obtain ⟨toM, level, readM, _, siblingLinked, _⟩ := linked
      have notRight : level.rightChild ≠ some n := fun same => outside.2.1 (siblingLinked.root_mem same)
      simp [leaveRight, read, toM, readM, notRight, Frame.after]
    | right sibling m =>
      obtain ⟨toM, level, readM, toN, _, restLinked⟩ := linked
      have run := ih (show rest.length < fuel by simpa using enough) readM restLinked nodup.1.2
        (List.nodup_append'.mp nodup.2).2.1
      simp [leaveRight, read, toM, readM, toN, run, Frame.after]

/-- The successor of a node is what follows it in symmetric order. -/
theorem run_inorderSuccessor {front back : List ℕ} (treeLinked : LinkedTree ok heap none root tree)
    (nodup : tree.inorder.Nodup) (whole : tree.inorder = front ++ n :: back) :
    (inorderSuccessor (some n)).run heap = some (back.head?, heap) := by
  have few := treeLinked.length_le_next nodup
  obtain ⟨context, left, right, rfl⟩ := Context.exists_of_mem_inorder (show n ∈ tree.inorder by simp [whole])
  obtain ⟨nodeNodup, aroundNodup, apart⟩ := Context.nodup_inorder_plug.mp nodup
  obtain ⟨_, rightNodup, notLeft, notRight, _⟩ := nodup_inorder_node.mp nodeNodup
  have notAround : n ∉ context.around := fun around => apart (by simp) around
  have isBack : right.inorder ++ context.after = back := by
    have split : (context.before ++ left.inorder) ++ n :: (right.inorder ++ context.after) = front ++ n :: back := by
      rw [← whole, Context.inorder_plug, inorder_node]
      simp
    rw [Context.mem_around, not_or] at notAround
    exact ((List.append_cons_inj_of_notMem (by simp [notAround, notLeft]) (by simp [notAround, notRight])).mp split).2.2
  obtain ⟨_, _, ⟨rfl, x, read, rfl, _, _, rightLinked⟩, contextLinked⟩ := treeLinked.split
  rw [← isBack]
  cases right with
  | nil =>
    rw [linkedTree_nil] at rightLinked
    have short := Context.length_le_length_inorder_plug context (.node n left .nil)
    have run := run_leaveRight (show context.length < heap.next + 1 by omega) read contextLinked notAround aroundNodup
    simp [inorderSuccessor, read, rightLinked, run]
  | node k l r =>
    obtain ⟨m, toM⟩ := rightLinked.exists_root (by simp)
    have enough : (node k l r).height ≤ heap.next + 1 := by
      have := (node k l r).height_le_length_inorder
      have := rightLinked.length_le_next rightNodup
      omega
    have run := run_treeMin enough rightLinked
    rw [toM] at run
    simp [inorderSuccessor, read, toM, run]

theorem mirrored_get : mirrored get = mirrorHeap <$> (get : LevelM (Heap PriceLevel)) := by
  funext heap
  change some (mirrorHeap heap, mirrorHeap (mirrorHeap heap)) = some (mirrorHeap heap, heap)
  rw [mirrorHeap_mirrorHeap]

theorem mirrored_leaveRight (fuel n : ℕ) : mirrored (leaveRight fuel n) = leaveLeft fuel n := by
  induction fuel generalizing n with
  | zero => rfl
  | succ fuel ih =>
    simp only [leaveRight, leaveLeft, mirrored_bind, mirrored_load, map_eq_pure_bind, bind_assoc, pure_bind]
    congr 1
    funext level
    simp only [mirror_parent]
    cases level.parent with
    | none => exact mirrored_pure _
    | some above =>
      simp only [mirrored_bind, mirrored_load, map_eq_pure_bind, bind_assoc, pure_bind, mirror_rightChild,
        apply_ite mirrored, ih, mirrored_pure]
      rfl

theorem mirrored_inorderSuccessor (p : Ptr) : mirrored (inorderSuccessor p) = inorderPredecessor p := by
  cases p with
  | none => exact mirrored_pure _
  | some n =>
    simp only [inorderSuccessor, inorderPredecessor, mirrored_bind, mirrored_get, mirrored_load, map_eq_pure_bind,
      bind_assoc, pure_bind, mirror_rightChild, next_map]
    congr 1
    funext heap
    congr 1
    funext level
    cases level.leftChild with
    | none => exact mirrored_leaveRight _ _
    | some below => exact mirrored_treeMin _ _

/-- The predecessor of a node is what precedes it in symmetric order. -/
theorem run_inorderPredecessor {front back : List ℕ} (treeLinked : LinkedTree ok heap none root tree)
    (nodup : tree.inorder.Nodup) (whole : tree.inorder = front ++ n :: back) :
    (inorderPredecessor (some n)).run heap = some (front.getLast?, heap) := by
  have run := run_inorderSuccessor treeLinked.mirror (by simpa using nodup)
    (show tree.mirror.inorder = back.reverse ++ n :: front.reverse by simp [whole])
  rw [← mirrored_inorderSuccessor, run_mirrored, run]
  simp

/-- Going on from a pointer by `step` meets the nodes, one after the other, and reaches null behind the last. -/
inductive Walks (step : Ptr → LevelM Ptr) (heap : Heap PriceLevel) : Ptr → List ℕ → Prop
  | ended : Walks step heap none []
  | meets {n : ℕ} {next : Ptr} {back : List ℕ} (isNext : (step (some n)).run heap = some (next, heap))
      (rest : Walks step heap next back) : Walks step heap (some n) (n :: back)

/-- Steps along a sequence walk the rest of it. -/
theorem walks_of_steps {step : Ptr → LevelM Ptr} {order back : List ℕ}
    (steps : ∀ front n back, order = front ++ n :: back → (step (some n)).run heap = some (back.head?, heap))
    (suffix : back <:+ order) : Walks step heap back.head? back := by
  induction back with
  | nil => exact .ended
  | cons n back ih =>
    obtain ⟨front, whole⟩ := suffix
    exact .meets (steps front n back whole.symm) (ih ⟨front ++ [n], by simp [whole]⟩)

theorem walks_inorderSuccessor (treeLinked : LinkedTree ok heap none root tree) (nodup : tree.inorder.Nodup) :
    Walks inorderSuccessor heap tree.inorder.head? tree.inorder := by
  apply walks_of_steps _ List.suffix_rfl
  intro front n back whole
  exact run_inorderSuccessor treeLinked nodup whole

theorem walks_inorderPredecessor (treeLinked : LinkedTree ok heap none root tree) (nodup : tree.inorder.Nodup) :
    Walks inorderPredecessor heap tree.inorder.getLast? tree.inorder.reverse := by
  rw [← List.head?_reverse]
  apply walks_of_steps _ List.suffix_rfl
  intro front n back whole
  have flipped : tree.inorder = back.reverse ++ n :: front.reverse := by
    simpa using congrArg List.reverse whole
  rw [run_inorderPredecessor treeLinked nodup flipped, List.getLast?_reverse]

/-- Price and total at an address. -/
def quote (heap : Heap PriceLevel) (n : ℕ) : ScaledPrice × ℤ :=
  (priceAt heap n, ((heap.read n).map PriceLevel.totalQuantity).getD 0)

/-- The loop over the levels lists what a walk meets. -/
theorem Walks.run_listLevels {step : Ptr → LevelM Ptr} {p : Ptr} {nodes : List ℕ} {fuel : ℕ}
    (walks : Walks step heap p nodes)
    (enough : nodes.length ≤ fuel) (live : ∀ n ∈ nodes, ∃ level, heap.read n = some level) :
    (listLevels step fuel p).run heap = some (nodes.map (quote heap), heap) := by
  induction walks generalizing fuel with
  | ended => cases fuel <;> rfl
  | @meets n next back isNext _ ih =>
    obtain ⟨fuel, rfl⟩ : ∃ less, fuel = less + 1 := ⟨fuel - 1, by simp at enough; omega⟩
    obtain ⟨level, read⟩ := live n List.mem_cons_self
    have run := ih (Nat.le_of_succ_le_succ enough) fun m member => live m (List.mem_cons_of_mem n member)
    simp [listLevels, read, isNext, run, quote, priceAt]

end BackTester.LimitOrderBook
