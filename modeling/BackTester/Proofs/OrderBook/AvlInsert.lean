import BackTester.Proofs.OrderBook.RebalanceUp

/-! # AVL insertion

The descent ends at an empty position whose left neighbours are not above the new price and whose
right neighbours are; the upward walk then rebuilds the tree around the new leaf.
-/

namespace BackTester.PriceLevel

open BinaryTree Heap

variable {ok : BinaryTree ℕ → ℤ → Prop} {heap heap' : Heap PriceLevel} {parent root : Ptr} {tree : BinaryTree ℕ}
  {n : ℕ} {x : PriceLevel} {addresses : List ℕ}

/-- The search for a price ends at an empty position with the prices above it on its right. -/
theorem run_insertBelow {fuel : ℕ} (enough : tree.height ≤ fuel) (treeLinked : LinkedTree ok heap parent root tree)
    (nonempty : tree ≠ .nil) (nodup : tree.inorder.Nodup) (atN : heap.read n = some x) (outside : n ∉ tree.inorder) :
    ∃ heap' context m, (insertBelow fuel (some n) root).run heap = some ((), heap') ∧
      tree = Context.plug context .nil ∧ heap'.read n = some { x with parent := some m } ∧
      LinkedContext ok heap' context (some m) (some n) parent root ∧ Relinked (n :: tree.inorder) heap heap' ∧
      (Ascending heap tree.inorder → (∀ a ∈ Context.before context, ¬x.price < priceAt heap a) ∧
        ∀ a ∈ Context.after context, x.price < priceAt heap a) := by
  induction tree generalizing fuel parent root with
  | nil => contradiction
  | node m left right ihLeft ihRight =>
    obtain ⟨fuel, rfl⟩ : ∃ less, fuel = less + 1 := ⟨fuel - 1, by simp only [BinaryTree.height] at enough; omega⟩
    obtain ⟨rfl, level, read, rfl, height, leftLinked, rightLinked⟩ := treeLinked
    obtain ⟨leftNodup, rightNodup, notLeft, notRight, apart⟩ := nodup_inorder_node.mp nodup
    simp only [inorder_node, List.mem_append, List.mem_cons, not_or] at outside
    obtain ⟨outLeft, ne, outRight⟩ := outside
    simp only [BinaryTree.height] at enough
    -- the two link assignments at the end of the descent
    have linkHere (update : PriceLevel → PriceLevel) (kept : ∀ level, payload (update level) = payload level) :
        Relinked (n :: (BinaryTree.node m left right).inorder) heap
          ((heap.modify m update).modify n fun level => { level with parent := some m }) :=
      ((Relinked.refl _ heap).modify (by simp) kept).modify (by simp) fun _ => rfl
    by_cases less : x.price < level.price
    · have ahead : Ascending heap (BinaryTree.node m left right).inorder →
          ∀ a ∈ m :: right.inorder, x.price < priceAt heap a := by
        intro ascending a member
        have above := (List.pairwise_cons.mp (List.pairwise_append.mp ascending).2.1).1
        rcases List.mem_cons.mp member with rfl | inRight
        · rwa [priceAt_of_read read]
        · exact less.trans ((priceAt_of_read read) ▸ above a inRight)
      cases left with
      | nil =>
        rw [linkedTree_nil] at leftLinked
        refine ⟨(heap.modify m fun level => { level with leftChild := some n }).modify n
          fun level => { level with parent := some m }, [.left m right], m, ?_, rfl, ?_, ?_,
          linkHere _ fun _ => rfl, ?_⟩
        · simp [insertBelow, atN, read, less, leftLinked, read_modify, ne]
        · simp [read_modify, ne, atN]
        · exact ⟨rfl, { level with leftChild := some n }, by simp [read_modify, Ne.symm ne, read], rfl,
            (rightLinked.modify notRight _).modify outRight _, rfl, rfl⟩
        · exact fun ascending => ⟨by simp [Frame.before], by simpa [Frame.after] using ahead ascending⟩
      | node k l r =>
        obtain ⟨k', toK⟩ := leftLinked.exists_root (by simp)
        obtain ⟨heap', context, c, run, whole, atN', linked, relinked, sided⟩ :=
          ihLeft (show _ ≤ fuel by omega) leftLinked (by simp) leftNodup outLeft
        have atM : heap'.read m = some level :=
          (relinked.outside m (by simp only [List.mem_cons, not_or]; exact ⟨Ne.symm ne, notLeft⟩)).trans read
        refine ⟨heap', context ++ [.left m right], c, ?_, ?_, atN', ?_, ?_, ?_⟩
        · rw [toK] at run
          simp [insertBelow, atN, read, less, toK, run]
        · rw [Context.plug_append, ← whole]
          rfl
        · refine linkedContext_append.mpr ⟨some m, level.leftChild, linked, rfl, level, atM, rfl, ?_, rfl, rfl⟩
          refine rightLinked.frame fun a member => relinked.outside a ?_
          simp only [List.mem_cons, not_or]
          exact ⟨fun same => outRight (same ▸ member), fun inLeft => apart inLeft member⟩
        · exact relinked.mono (List.cons_subset_cons _ fun a inside => List.mem_append.mpr (.inl inside))
        · intro ascending
          obtain ⟨before, after⟩ := sided (List.pairwise_append.mp ascending).1
          refine ⟨by simpa [Context.before_append, Frame.before] using before, ?_⟩
          intro a member
          simp only [Context.after_append, Context.after_cons, Context.after_nil, Frame.after, List.append_nil,
            List.mem_append] at member
          exact member.elim (after a) (ahead ascending a)
    · have behind : Ascending heap (BinaryTree.node m left right).inorder →
          ∀ a ∈ left.inorder ++ [m], ¬x.price < priceAt heap a := by
        intro ascending a member
        have below := (List.pairwise_append.mp ascending).2.2
        rcases List.mem_append.mp member with inLeft | isM
        · have := below a inLeft m (by simp)
          rw [priceAt_of_read read] at this
          exact fun above => less (above.trans this)
        · rw [List.mem_singleton.mp isM, priceAt_of_read read]
          exact less
      cases right with
      | nil =>
        rw [linkedTree_nil] at rightLinked
        refine ⟨(heap.modify m fun level => { level with rightChild := some n }).modify n
          fun level => { level with parent := some m }, [.right left m], m, ?_, rfl, ?_, ?_,
          linkHere _ fun _ => rfl, ?_⟩
        · simp [insertBelow, atN, read, less, rightLinked, read_modify, ne]
        · simp [read_modify, ne, atN]
        · exact ⟨rfl, { level with rightChild := some n }, by simp [read_modify, Ne.symm ne, read], rfl,
            (leftLinked.modify notLeft _).modify outLeft _, rfl, rfl⟩
        · exact fun ascending => ⟨by simpa [Frame.before] using behind ascending, by simp [Frame.after]⟩
      | node k l r =>
        obtain ⟨k', toK⟩ := rightLinked.exists_root (by simp)
        obtain ⟨heap', context, c, run, whole, atN', linked, relinked, sided⟩ :=
          ihRight (show _ ≤ fuel by omega) rightLinked (by simp) rightNodup outRight
        have atM : heap'.read m = some level :=
          (relinked.outside m (by simp only [List.mem_cons, not_or]; exact ⟨Ne.symm ne, notRight⟩)).trans read
        refine ⟨heap', context ++ [.right left m], c, ?_, ?_, atN', ?_, ?_, ?_⟩
        · rw [toK] at run
          simp [insertBelow, atN, read, less, toK, run]
        · rw [Context.plug_append, ← whole]
          rfl
        · refine linkedContext_append.mpr ⟨some m, level.rightChild, linked, rfl, level, atM, rfl, ?_, rfl, rfl⟩
          refine leftLinked.frame fun a member => relinked.outside a ?_
          simp only [List.mem_cons, not_or]
          exact ⟨fun same => outLeft (same ▸ member), fun inRight => apart member inRight⟩
        · exact relinked.mono (List.cons_subset_cons _ fun a inside =>
            List.mem_append.mpr (.inr (List.mem_cons_of_mem _ inside)))
        · intro ascending
          obtain ⟨before, after⟩ := sided (List.pairwise_cons.mp (List.pairwise_append.mp ascending).2.1).2
          refine ⟨?_, by simpa [Context.after_append, Frame.after] using after⟩
          intro a member
          simp only [Context.before_append, Context.before_cons, Context.before_nil, Frame.before, List.nil_append,
            List.mem_append] at member
          exact member.elim (fun inLeft => behind ascending a (List.mem_append.mpr inLeft)) (before a)

/-- `avl_insert` rebuilds the tree around a leaf for the new node. -/
theorem run_avlInsert (treeLinked : LinkedTree ExactHeight heap none root tree) (nodup : tree.inorder.Nodup)
    (atN : heap.read n = some x) (outside : n ∉ tree.inorder) :
    ∃ heap' q context, (avlInsert root (some n)).run heap = some (q, heap') ∧ tree = Context.plug context .nil ∧
      LinkedTree ExactHeight heap' none q (Context.rebuild context (.node n .nil .nil)) ∧
      Relinked (n :: tree.inorder) heap heap' ∧
      (Ascending heap tree.inorder → (∀ a ∈ Context.before context, ¬x.price < priceAt heap a) ∧
        ∀ a ∈ Context.after context, x.price < priceAt heap a) := by
  let leaf : PriceLevel := { x with leftChild := none, rightChild := none, parent := none, height := 1 }
  let heap₁ := heap.modify n fun level =>
    { level with leftChild := none, rightChild := none, parent := none, height := 1 }
  have atN₁ : heap₁.read n = some leaf := by simp [heap₁, leaf, atN]
  have relinked₁ : Relinked (n :: tree.inorder) heap heap₁ := (Relinked.refl _ heap).modify (by simp) fun _ => rfl
  have treeLinked₁ : LinkedTree ExactHeight heap₁ none root tree := treeLinked.modify outside _
  by_cases empty : tree = .nil
  · subst empty
    rw [linkedTree_nil] at treeLinked
    subst treeLinked
    refine ⟨heap₁, some n, [], by simp [avlInsert, atN, heap₁], rfl, ?_, relinked₁, by simp⟩
    exact ⟨rfl, leaf, atN₁, rfl, by simp [ExactHeight, leaf], rfl, rfl⟩
  · obtain ⟨m, rfl⟩ := treeLinked₁.exists_root empty
    have enough : tree.inorder.length ≤ heap₁.next := treeLinked₁.length_le_next nodup
    obtain ⟨heap₂, context, c, run₂, rfl, atN₂, linked₂, relinked₂, sided⟩ :=
      run_insertBelow (show _ ≤ heap₁.next + 1 by have := tree.height_le_length_inorder; omega)
        treeLinked₁ empty nodup atN₁ outside
    have leafLinked : LinkedTree ExactHeight heap₂ (some c) (some n) (.node n .nil .nil) :=
      ⟨rfl, _, atN₂, rfl, by simp [ExactHeight, leaf], rfl, rfl⟩
    have wholeNodup : (Context.plug context (.node n .nil .nil)).inorder.Nodup := by
      obtain ⟨_, aroundNodup, _⟩ := Context.nodup_inorder_plug.mp nodup
      refine Context.nodup_inorder_plug.mpr ⟨by simp, aroundNodup, ?_⟩
      simpa using fun around => outside (Context.mem_inorder_plug.mpr (.inr around))
    have short : context.length ≤ heap₂.next + 1 := by
      have := Context.length_le_length_inorder_plug context (.nil : BinaryTree ℕ)
      have := relinked₂.next
      omega
    obtain ⟨heap₃, q, run₃, linked₃, relinked₃⟩ := run_rebalanceUp short leafLinked linked₂ wholeNodup
    refine ⟨heap₃, q, context, ?_, rfl, linked₃, ?_, ?_⟩
    · simp [avlInsert, atN, heap₁] at run₂ run₃ ⊢
      simp [run₂, atN₂, run₃]
    · refine (relinked₁.trans relinked₂).trans (relinked₃.mono ?_)
      intro a member
      rcases Context.mem_inorder_plug.mp member with isLeaf | around
      · exact List.mem_cons.mpr (.inl (by simpa using isLeaf))
      · exact List.mem_cons_of_mem _ (Context.mem_inorder_plug.mpr (.inr around))
    · intro ascending
      simpa only [relinked₁.priceAt] using sided (relinked₁.ascending.mpr ascending)

/-- A level with a price of its own goes to its place in a balanced search tree. -/
theorem avlInsert_spec (treeLinked : LinkedTree ExactHeight heap none root tree) (nodup : tree.inorder.Nodup)
    (balanced : tree.Balanced) (ascending : Ascending heap tree.inorder) (atN : heap.read n = some x)
    (outside : n ∉ tree.inorder) (fresh : ∀ a ∈ tree.inorder, priceAt heap a ≠ x.price) :
    ∃ heap' q tree' front back, (avlInsert root (some n)).run heap = some (q, heap') ∧
      LinkedTree ExactHeight heap' none q tree' ∧ tree'.Balanced ∧ Ascending heap' tree'.inorder ∧
      tree.inorder = front ++ back ∧ tree'.inorder = front ++ n :: back ∧
      Relinked (n :: tree.inorder) heap heap' := by
  obtain ⟨heap', q, context, run, rfl, linked, relinked, sided⟩ := run_avlInsert treeLinked nodup atN outside
  obtain ⟨below, above⟩ := sided ascending
  have old : (Context.plug context .nil).inorder = Context.before context ++ Context.after context := by
    simp [Context.inorder_plug]
  have new : (Context.rebuild context (.node n .nil .nil)).inorder =
      Context.before context ++ n :: Context.after context := by
    simp [Context.inorder_rebuild]
  refine ⟨heap', q, _, Context.before context, Context.after context, run, linked,
    Context.balanced_rebuild balanced (by simp) (by simp) (by simp), ?_, old, new, relinked⟩
  rw [relinked.ascending, new]
  rw [old] at ascending fresh
  obtain ⟨beforeAscending, afterAscending, across⟩ := List.pairwise_append.mp ascending
  refine List.pairwise_append.mpr ⟨beforeAscending, List.pairwise_cons.mpr ⟨?_, afterAscending⟩, ?_⟩
  · intro a member
    rw [priceAt_of_read atN]
    exact above a member
  · intro a member b later
    rcases List.mem_cons.mp later with rfl | later
    · rw [priceAt_of_read atN]
      exact lt_of_le_of_ne (not_lt.mp (below a member)) (fresh a (List.mem_append.mpr (.inl member)))
    · exact across a member b later

end BackTester.PriceLevel
