import BackTester.Proofs.OrderBook.AvlRemove
import BackTester.Proofs.OrderBook.SideChange
import BackTester.Proofs.OrderBook.Traversal

/-! # Closing a level

A level without orders leaves the tree, the level map and, where it was the best one, the best
pointer; then its object is deleted.
-/

namespace BackTester.LimitOrderBook

open BinaryTree Heap PriceLevel

variable {book : LimitOrderBook} {live : List Slot} {side : Side} {tree tree' : BinaryTree ℕ} {a : ℕ}
  {price : ScaledPrice} {trees : Side → BinaryTree ℕ} {heap : Heap PriceLevel} {q : Ptr}

/-- Another level than the best one leaves the best one in place. -/
theorem bestOf_remove {front back : List ℕ} (old : tree.inorder = front ++ a :: back)
    (new : tree'.inorder = front ++ back)
    (notBest : bestOf side tree ≠ some a) : bestOf side tree' = bestOf side tree := by
  by_cases buy : side = .buy
  · simp only [bestOf, buy, if_true, old, new] at notBest ⊢
    rcases List.eq_nil_or_concat back with rfl | ⟨back, last, rfl⟩
    · simp at notBest
    · rw [List.concat_eq_append, ← List.append_assoc, List.getLast?_concat, ← List.cons_append, ← List.append_assoc,
        List.getLast?_concat]
  · simp only [bestOf, buy, if_false, old, new] at notBest ⊢
    cases front with
    | nil => simp at notBest
    | cons first front => simp

theorem run_extreme (treeLinked : LinkedTree ExactHeight heap none q tree) (nodup : tree.inorder.Nodup) :
    (extreme side q).run heap = some (bestOf side tree, heap) := by
  have enough : tree.height ≤ heap.next + 1 := by
    have := tree.height_le_length_inorder
    have := treeLinked.length_le_next nodup
    omega
  by_cases buy : side = .buy
  · simp [extreme, bestOf, buy, run_treeMax enough treeLinked]
  · simp [extreme, bestOf, buy, run_treeMin enough treeLinked]

theorem run_refreshBest (treeLinked : LinkedTree ExactHeight book.priceLevels none q tree) (nodup : tree.inorder.Nodup)
    (side : Side) (a : ℕ) : (refreshBest side (some a) q).run book = some ((), setSide side (fun fields =>
      { fields with best := if book.bestFor side = some a then bestOf side tree else book.bestFor side }) book) := by
  by_cases isBest : book.bestFor side = some a
  · simp [refreshBest, isBest, run_extreme treeLinked nodup]
  · have keep : setSide side (fun fields => { fields with best := book.bestFor side }) book = book := by
      cases side <;> rfl
    have notBest : ¬some a = book.bestFor side := fun same => isBest same.symm
    simp [refreshBest, isBest, notBest, keep]

section Left

variable {front back : List ℕ} {level : PriceLevel} (old : tree.inorder = front ++ a :: back)
  (new : tree'.inorder = front ++ back)

/-- The book without a level of a side. -/
def without (book : LimitOrderBook) (side : Side) (heap : Heap PriceLevel) (q : Ptr) (tree' : BinaryTree ℕ)
    (price : ScaledPrice) : LimitOrderBook :=
  setSide side (fun fields => { tree := q, best := bestOf side tree', levels := fields.levels.remove price })
    { book with priceLevels := heap }

include old new in
theorem mem_left {n : ℕ} : n ∈ tree.inorder ↔ n = a ∨ n ∈ tree'.inorder := by
  simp only [new, old, List.mem_append, List.mem_cons]
  tauto

include old new in
theorem nodup_left (nodup : tree.inorder.Nodup) : a ∉ tree'.inorder ∧ tree'.inorder.Nodup := by
  rwa [old, List.perm_middle.nodup_iff, List.nodup_cons, ← new] at nodup

include old new in
/-- The steps of `remove_level` behind the removal from the tree. -/
theorem run_removeLevel_eq (best : book.bestFor side = bestOf side tree)
    (treeLinked : LinkedTree ExactHeight heap none q tree')
    (nodup : tree'.inorder.Nodup) (read : heap.read a = some level)
    (runRemove : (avlRemove (book.treeFor side) (some a)).run book.priceLevels = some (q, heap)) :
    (removeLevel (some a) side).run book = some ((), without book side (heap.free a) q tree' level.price) := by
  let book₁ := setSide side (fun fields => { fields with tree := q }) { book with priceLevels := heap }
  have levels₁ : book₁.priceLevels = heap := priceLevels_setSide ..
  have best₁ : book₁.bestFor side = bestOf side tree := by
    rw [bestFor, sideFor_setSide_self]
    exact best
  have runRefresh := run_refreshBest (levels₁ ▸ treeLinked) nodup side a
  have newBest :
      (if book₁.bestFor side = some a then bestOf side tree' else book₁.bestFor side) = bestOf side tree' := by
    split
    · rfl
    · next notBest => rw [best₁, bestOf_remove old new (best₁ ▸ notBest)]
  rw [newBest] at runRefresh
  simp only [removeLevel, StateT.run_bind, run_onLevels, Option.bind_eq_bind, Option.bind_some, StateT.run_get,
    StateT.run_modify, Option.pure_def]
  change Option.bind (Option.map _ ((avlRemove (book.treeFor side) (some a)).run book.priceLevels)) _ = _
  simp only [runRemove, Option.map_some, Option.bind_some]
  change Option.bind ((refreshBest side (some a) q).run book₁) _ = _
  simp only [runRefresh, Option.bind_some, run_load, priceLevels_setSide, levels₁, read, Option.map_some, run_delete]
  refine congrArg (fun book => some ((), book)) ?_
  cases side <;> rfl

include old new in
/-- The side without the level. -/
theorem SideTree.leave (holds : SideTree book side tree) (treeLinked : LinkedTree ExactHeight heap none q tree')
    (balanced : tree'.Balanced) (same : ∀ n ≠ a, priceAt heap n = priceAt book.priceLevels n) :
    SideTree (without book side heap q tree' (priceAt book.priceLevels a)) side tree' := by
  obtain ⟨notInTree, nodup⟩ := nodup_left old new holds.nodup
  have member : a ∈ tree.inorder := (mem_left old new).mpr (.inl rfl)
  have apart {n : ℕ} (inTree : n ∈ tree'.inorder) : n ≠ a := by
    rintro rfl
    exact notInTree inTree
  have levels' : (without book side heap q tree' (priceAt book.priceLevels a)).priceLevels = heap :=
    priceLevels_setSide ..
  have side' : (without book side heap q tree' (priceAt book.priceLevels a)).sideFor side =
      ⟨q, bestOf side tree', (book.levelsFor side).remove (priceAt book.priceLevels a)⟩ := sideFor_setSide_self ..
  refine ⟨?_, nodup, balanced, ?_, fun p n => ?_, ?_⟩
  · rw [treeFor, side', levels']
    exact treeLinked
  · have sublist : tree'.inorder.Sublist tree.inorder := by
      rw [new, old]
      exact (List.sublist_cons_self a back).append_left front
    rw [levels']
    refine (holds.ascending.sublist sublist).imp_of_mem fun {m n} inM inN below => ?_
    rwa [same m (apart inM), same n (apart inN)]
  · rw [levelsFor, side', UnorderedMap.find?_remove, levels']
    split
    · next isPrice =>
      refine iff_of_false (by simp) ?_
      rintro ⟨inTree, here⟩
      rw [same n (apart inTree), isPrice] at here
      exact apart inTree (holds.price_injective ((mem_left old new).mpr (.inr inTree)) member here)
    · next isOther =>
      rw [holds.levels, mem_left old new]
      constructor
      · rintro ⟨rfl | inTree, here⟩
        · exact absurd here.symm isOther
        · exact ⟨inTree, (same n (apart inTree)).trans here⟩
      · rintro ⟨inTree, here⟩
        exact ⟨.inr inTree, (same n (apart inTree)).symm.trans here⟩
  · rw [bestFor, side']

end Left

/-- The queues of the side without a level that nothing rests at. -/
theorem SideQueues.leave {addresses addresses' : List ℕ} (queues : SideQueues book live side addresses (some a))
    (mem : ∀ n, n ∈ addresses ↔ n = a ∨ n ∈ addresses') (notHere : a ∉ addresses')
    (emptied : members live side (priceAt book.priceLevels a) = []) : SideQueues book live side addresses' none := by
  refine ⟨fun n inside => queues.holds n ((mem n).mpr (.inr inside)), fun n inside => .inl ?_,
    fun slot inLive isSide => ?_⟩
  · refine (queues.occupied n ((mem n).mpr (.inr inside))).resolve_right fun isSpare => notHere ?_
    rwa [Option.some.inj isSpare]
  · obtain ⟨n, inside, here⟩ := queues.covered slot inLive isSide
    rcases (mem n).mp inside with rfl | inside
    · have inMembers : slot ∈ members live side (priceAt book.priceLevels n) :=
        mem_members.mpr ⟨inLive, isSide, here.symm⟩
      rw [emptied] at inMembers
      exact absurd inMembers List.not_mem_nil
    · exact ⟨n, inside, here⟩

/-- Closing an empty level leaves the rest of the book as it was. -/
theorem run_removeLevel (represents : Represents book live trees (some a)) (sided : side ≠ .none)
    (member : a ∈ (trees side).inorder) (emptied : members live side (priceAt book.priceLevels a) = []) :
    ∃ book' tree', (removeLevel (some a) side).run book = some ((), book') ∧
      Represents book' live (Function.update trees side tree') none ∧
      book'.orders = book.orders ∧ book'.anomalies = book.anomalies := by
  have holds := represents.tree side sided
  obtain ⟨level, read⟩ := holds.read member
  obtain ⟨heap₁, q, tree', front, back, runRemove, linked₁, balanced₁, old, new, detached, relinked⟩ :=
    run_avlRemove holds.linked holds.nodup holds.balanced member read
  obtain ⟨notInTree, nodup⟩ := nodup_left old new holds.nodup
  have same₂ {n : ℕ} (apart : n ≠ a) : (heap₁.free a).read n = heap₁.read n := if_neg apart
  have priceAt₂ (n : ℕ) (apart : n ≠ a) : priceAt (heap₁.free a) n = priceAt book.priceLevels n := by
    rw [priceAt, same₂ apart]
    exact relinked.priceAt n
  have linked₂ : LinkedTree ExactHeight (heap₁.free a) none q tree' := linked₁.frame fun n inTree => same₂ (by
    rintro rfl
    exact notInTree inTree)
  have notOther (other : Side) (otherSided : other ≠ .none) (different : other ≠ side) : a ∉ (trees other).inorder :=
    fun inOther => represents.apart side sided other otherSided different member inOther
  let book' := without book side (heap₁.free a) q tree' (priceAt book.priceLevels a)
  have levels' : book'.priceLevels = heap₁.free a := priceLevels_setSide ..
  have run := run_removeLevel_eq old new holds.best linked₁ nodup detached runRemove
  rw [← priceAt_of_read read] at run
  have change : SideChange book book' trees side tree' a := by
    refine ⟨holds.leave old new linked₂ balanced₁ priceAt₂, fun n apart => ?_, notOther, fun n apart => ?_,
      fun n apart outside => ?_, fun other otherSided different => sideFor_setSide_of_ne _ _ sided otherSided different,
      orders_setSide .., orderEntries_setSide ..⟩
    · rw [mem_left old new, or_iff_right apart]
    · rw [levels', same₂ apart, relinked.payload]
    · rw [levels', same₂ apart, relinked.outside n outside]
  have queues : SideQueues book' live side tree'.inorder none :=
    change.congr_queues notInTree ((represents.queues side sided).leave (fun _ => mem_left old new) notInTree emptied)
  refine ⟨book', tree', run, change.represents represents sided ?_ queues fun other otherSided different =>
    (represents.queues other otherSided).fill (notOther other otherSided different),
      orders_setSide .., anomalies_setSide ..⟩
  rw [levels', read_free, if_pos rfl]
  exact iff_of_false (by simp) notInTree

end BackTester.LimitOrderBook
