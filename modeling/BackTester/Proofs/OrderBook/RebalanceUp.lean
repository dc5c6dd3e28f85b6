import BackTester.Proofs.OrderBook.Rotation

/-! # The upward walk

`rebalance_up` starts at the parent of a hole that holds an exact tree and ends with an exact tree
at the root. The invariant of the loop is the pair of `LinkedTree` below the current node and
`LinkedContext` above it; nothing is assumed about the heights stored on the path.
-/

namespace BackTester.PriceLevel

open BinaryTree Heap

variable {ok : BinaryTree ℕ → ℤ → Prop} {heap : Heap PriceLevel} {context : Context ℕ} {tree : BinaryTree ℕ}
  {par hole top : Ptr}

/-- Only the end of a path has no parent. -/
theorem LinkedContext.par_eq_none (linked : LinkedContext ok heap context par hole none top) :
    par = none ↔ context = [] := by
  rcases context with _ | ⟨⟨n, sibling⟩ | ⟨sibling, n⟩, rest⟩
  · simp [linked.1]
  · simp [linked.1]
  · simp [linked.1]

/-- The child pointer that led to `n` is found and redirected; at the root there is none. -/
theorem run_replaceChild {n : ℕ} (linked : LinkedContext ok heap context par (some n) none top)
    (nodup : context.around.Nodup) (outside : n ∉ context.around) (next : Ptr) :
    ∃ heap', (replaceChild par (some n) next).run heap = some ((), heap') ∧
      LinkedContext ok heap' context par next none (if par = none then next else top) ∧
      Relinked context.around heap heap' := by
  cases context with
  | nil =>
    obtain ⟨rfl, rfl⟩ := linked
    exact ⟨heap, rfl, ⟨rfl, rfl⟩, Relinked.refl _ _⟩
  | cons frame rest =>
    simp only [Context.around_cons, List.nodup_cons, List.mem_append, not_or] at nodup
    have within (update : PriceLevel → PriceLevel) (kept : ∀ level, payload (update level) = payload level) :
        Relinked (Context.around (frame :: rest)) heap (heap.modify frame.value update) :=
      (Relinked.refl _ heap).modify (by simp) kept
    cases frame with
    | left m sibling =>
      obtain ⟨rfl, level, read, toN, siblingLinked, restLinked⟩ := linked
      refine ⟨heap.modify m fun level => { level with leftChild := next }, by simp [replaceChild, read, toN], ?_,
        within _ fun _ => rfl⟩
      exact ⟨rfl, { level with leftChild := next }, by simp [read], rfl,
        siblingLinked.modify nodup.1.1 _, restLinked.modify nodup.1.2 _⟩
    | right sibling m =>
      obtain ⟨rfl, level, read, toN, siblingLinked, restLinked⟩ := linked
      -- the other child pointer leads into the sibling, where `n` is not
      have other : level.leftChild ≠ some n := fun same =>
        outside (by simp [Frame.sibling, siblingLinked.root_mem same])
      refine ⟨heap.modify m fun level => { level with rightChild := next }, by simp [replaceChild, read, other], ?_,
        within _ fun _ => rfl⟩
      exact ⟨rfl, { level with rightChild := next }, by simp [read], rfl,
        siblingLinked.modify nodup.1.1 _, restLinked.modify nodup.1.2 _⟩

/-- After the repair of a node the pointer above it leads to whatever came up. -/
theorem run_reattach {n : ℕ} {next : Ptr} (treeLinked : LinkedTree ok heap par next tree)
    (member : n ∈ tree.inorder) (linked : LinkedContext ok heap context par (some n) none top)
    (nodup : (context.plug tree).inorder.Nodup) :
    ∃ heap', (reattach par (some n) next).run heap = some ((), heap') ∧
      LinkedTree ok heap' par next tree ∧
      LinkedContext ok heap' context par next none (if par = none then next else top) ∧
      Relinked (context.plug tree).inorder heap heap' := by
  obtain ⟨treeNodup, contextNodup, apart⟩ := Context.nodup_inorder_plug.mp nodup
  have inWhole : context.around ⊆ (context.plug tree).inorder := fun _ inside =>
    Context.mem_inorder_plug.mpr (.inr inside)
  by_cases same : next = some n
  · subst same
    refine ⟨heap, by simp [reattach], treeLinked, ?_, Relinked.refl _ _⟩
    split
    · next isRoot =>
      obtain rfl := linked.par_eq_none.mp isRoot
      exact ⟨linked.1, rfl⟩
    · exact linked
  · obtain ⟨heap₁, run, linked₁, relinked⟩ :=
      run_replaceChild linked contextNodup (fun inside => apart member inside) next
    have treeLinked₁ : LinkedTree ok heap₁ par next tree :=
      treeLinked.frame fun m inside => relinked.outside m fun around => apart inside around
    obtain ⟨m, rfl⟩ := treeLinked.exists_root (by rintro rfl; simp at member)
    have rootMember := treeLinked.root_mem rfl
    obtain ⟨level, read⟩ := treeLinked₁.read rootMember
    refine ⟨reparented heap₁ (some m) par, ?_, treeLinked₁.reparent treeNodup par,
      linked₁.modify (fun around => apart rootMember around) _, (relinked.mono inWhole).reparented ?_ _⟩
    · simp [reattach, same, run, read, reparented]
    · rintro _ ⟨⟩
      exact Context.mem_inorder_plug.mpr (.inl rootMember)

/-- `rebalance_up` rebuilds the tree around an exact subtree, whatever heights its ancestors
stored. Induction along the path; the node repaired is the one at its lower end. -/
theorem run_rebalanceUp {fuel : ℕ} (enough : context.length ≤ fuel)
    (treeLinked : LinkedTree ExactHeight heap par hole tree)
    (linked : LinkedContext ExactHeight heap context par hole none top)
    (nodup : (context.plug tree).inorder.Nodup) :
    ∃ heap' q, (rebalanceUp fuel par top).run heap = some (q, heap') ∧
      LinkedTree ExactHeight heap' none q (context.rebuild tree) ∧
      Relinked (context.plug tree).inorder heap heap' := by
  induction context generalizing heap tree par hole top fuel with
  | nil =>
    obtain ⟨rfl, rfl⟩ := linked
    exact ⟨heap, hole, by cases fuel <;> rfl, treeLinked, Relinked.refl _ _⟩
  | cons frame rest ih =>
    obtain ⟨fuel, rfl⟩ : ∃ less, fuel = less + 1 := ⟨fuel - 1, by simp at enough; omega⟩
    change (Context.plug rest (frame.plug tree)).inorder.Nodup at nodup
    obtain ⟨plugNodup, restNodup, apart⟩ := Context.nodup_inorder_plug.mp nodup
    have fixed : ∃ n x heap₁ q, par = some n ∧ heap.read n = some x ∧
        n ∈ (frame.rebalance tree).inorder ∧
        LinkedContext ExactHeight heap rest x.parent (some n) none top ∧
        (fixOne (some n)).run heap = some (q, heap₁) ∧
        LinkedTree ExactHeight heap₁ x.parent q (frame.rebalance tree) ∧
        Relinked (frame.plug tree).inorder heap heap₁ := by
      cases frame with
      | left n sibling =>
        obtain ⟨rfl, x, read, rfl, siblingLinked, restLinked⟩ := linked
        obtain ⟨heap₁, q, run, fixedLinked, relinked⟩ := run_fixOne read treeLinked siblingLinked plugNodup
        exact ⟨n, x, heap₁, q, rfl, read, by simp [Frame.rebalance], restLinked, run, fixedLinked, relinked⟩
      | right sibling n =>
        obtain ⟨rfl, x, read, rfl, siblingLinked, restLinked⟩ := linked
        obtain ⟨heap₁, q, run, fixedLinked, relinked⟩ := run_fixOne read siblingLinked treeLinked plugNodup
        exact ⟨n, x, heap₁, q, rfl, read, by simp [Frame.rebalance], restLinked, run, fixedLinked, relinked⟩
    obtain ⟨n, x, heap₁, q, rfl, read, member, restLinked, run₁, fixedLinked, relinked₁⟩ := fixed
    have restLinked₁ := restLinked.frame fun m around => relinked₁.outside m fun inside => apart inside around
    have sameInorder :
        (Context.plug rest (frame.rebalance tree)).inorder = (Context.plug rest (frame.plug tree)).inorder := by
      simp only [Context.inorder_plug, Frame.inorder_rebalance, Frame.inorder_plug]
    obtain ⟨heap₂, run₂, fixedLinked₂, restLinked₂, relinked₂⟩ :=
      run_reattach fixedLinked member restLinked₁ (sameInorder ▸ nodup)
    obtain ⟨heap₃, root, run₃, linked₃, relinked₃⟩ :=
      ih (by simpa using enough) fixedLinked₂ restLinked₂ (sameInorder ▸ nodup)
    refine ⟨heap₃, root, ?_, linked₃, ?_⟩
    · simp [rebalanceUp, read, run₁, run₂, run₃]
    · have inWhole : (frame.plug tree).inorder ⊆ (Context.plug rest (frame.plug tree)).inorder := fun _ inside =>
        Context.mem_inorder_plug.mpr (.inl inside)
      rw [sameInorder] at relinked₂ relinked₃
      exact ((relinked₁.mono inWhole).trans relinked₂).trans relinked₃

end BackTester.PriceLevel
