import BackTester.Proofs.OrderBook.AvlInsert
import BackTester.Proofs.OrderBook.AvlRemove

/-! # Soundness of the tree of price levels

Inserting and removing a level keep an AVL search tree one, and change its sequence of levels in one
place. Only links and heights change: every level keeps its address and its price.
-/

namespace BackTester.PriceLevel

open BinaryTree Heap

/-- The root heads an AVL tree with consistent parent links and exact heights, in which the levels
follow one another in this order, and their prices ascend strictly. -/
def SearchTree (heap : Heap PriceLevel) (root : Ptr) (addresses : List ℕ) : Prop :=
  ∃ tree : BinaryTree ℕ, LinkedTree ExactHeight heap none root tree ∧ tree.Balanced ∧ tree.inorder = addresses ∧
    Ascending heap addresses

/-- Every level has the price, the orders and the totals that it had. -/
def SamePayloads (heap heap' : Heap PriceLevel) : Prop := ∀ n, (heap'.read n).map payload = (heap.read n).map payload

variable {heap : Heap PriceLevel} {root : Ptr} {addresses : List ℕ} {n : ℕ} {level : PriceLevel}

/-- A level with a new price goes to its sorted place. -/
theorem avlInsert_searchTree (holds : SearchTree heap root addresses) (live : heap.read n = some level)
    (fresh : ∀ a ∈ addresses, priceAt heap a ≠ level.price) :
    ∃ heap' root' front back, (avlInsert root (some n)).run heap = some (root', heap') ∧ addresses = front ++ back ∧
      SearchTree heap' root' (front ++ n :: back) ∧ SamePayloads heap heap' := by
  obtain ⟨tree, linked, balanced, rfl, ascending⟩ := holds
  have outside : n ∉ tree.inorder := fun inside => fresh n inside (priceAt_of_read live)
  obtain ⟨heap', root', tree', front, back, run, linked', balanced', ascending', before, after, relinked⟩ :=
    avlInsert_spec linked (nodup_of_ascending ascending) balanced ascending live outside fresh
  exact ⟨heap', root', front, back, run, before, ⟨tree', linked', balanced', after, after ▸ ascending'⟩,
    relinked.payload⟩

/-- A level of the tree is taken out of it, and has no links behind. -/
theorem avlRemove_searchTree (holds : SearchTree heap root addresses) (live : heap.read n = some level)
    (inside : n ∈ addresses) :
    ∃ heap' root' front back, (avlRemove root (some n)).run heap = some (root', heap') ∧
    addresses = front ++ n :: back ∧
      SearchTree heap' root' (front ++ back) ∧ SamePayloads heap heap' ∧
      heap'.read n = some { level with parent := none, leftChild := none, rightChild := none, height := 1 } := by
  obtain ⟨tree, linked, balanced, rfl, ascending⟩ := holds
  obtain ⟨heap', root', tree', front, back, run, linked', balanced', before, after, detached, relinked⟩ :=
    run_avlRemove linked (nodup_of_ascending ascending) balanced inside live
  have others : (front ++ back).Sublist tree.inorder := by
    rw [before]
    exact List.sublist_cons_self n back |>.append_left front
  exact ⟨heap', root', front, back, run, before,
    ⟨tree', linked', balanced', after, relinked.ascending.mpr (ascending.sublist others)⟩, relinked.payload, detached⟩

/-- A root with two children, and a level that is in no tree. -/
def fourLevels : Heap PriceLevel :=
  ((((∅ : Heap PriceLevel).alloc { price := 100, leftChild := some 1, rightChild := some 2, height := 2 }).alloc
    { price := 50, parent := some 0 }).alloc { price := 150, parent := some 0 }).alloc { price := 175 }

theorem fourLevels_searchTree : SearchTree fourLevels (some 0) [1, 0, 2] := by
  refine ⟨.node 0 (.node 1 .nil .nil) (.node 2 .nil .nil), ?_,
    by simp [BinaryTree.height], rfl, by unfold Ascending; decide⟩
  exact ⟨rfl, _, rfl, rfl, rfl, ⟨rfl, _, rfl, rfl, rfl, rfl, rfl⟩, ⟨rfl, _, rfl, rfl, rfl, rfl, rfl⟩⟩

theorem avlInsert_searchTree_fourLevels :
    ∃ heap' root' front back, (avlInsert (some 0) (some 3)).run fourLevels = some (root', heap') ∧
    [1, 0, 2] = front ++ back ∧
      SearchTree heap' root' (front ++ 3 :: back) ∧ SamePayloads fourLevels heap' := by
  have live : fourLevels.read 3 = some { price := 175 } := rfl
  exact avlInsert_searchTree fourLevels_searchTree live (by decide)

theorem avlRemove_searchTree_fourLevels :
    ∃ heap' root' front back, (avlRemove (some 0) (some 0)).run fourLevels = some (root', heap') ∧
    [1, 0, 2] = front ++ 0 :: back ∧
      SearchTree heap' root' (front ++ back) ∧ SamePayloads fourLevels heap' ∧
      heap'.read 0 = some { price := 100, height := 1 } := by
  have live : fourLevels.read 0 = some { price := 100, leftChild := some 1, rightChild := some 2, height := 2 } := rfl
  exact avlRemove_searchTree fourLevels_searchTree live (by decide)

end BackTester.PriceLevel
