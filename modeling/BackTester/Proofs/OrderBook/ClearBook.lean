import BackTester.Proofs.OrderBook.Represents

/-! # Clearing the book

Every entry and every level is deleted exactly once, and nothing is left on either store.
-/

namespace BackTester.LimitOrderBook

open BinaryTree Heap PriceLevel

variable {book : LimitOrderBook} {live : List Slot} {trees : Side → BinaryTree ℕ} {tree : BinaryTree ℕ}
  {ok : BinaryTree ℕ → ℤ → Prop} {heap : Heap PriceLevel} {parent root : Ptr}

/-- Deleting distinct live objects succeeds and leaves the others. -/
theorem run_deleteAll {α : Type} {heap : Heap α} {addresses : List ℕ} (nodup : addresses.Nodup)
    (alive : ∀ n ∈ addresses, ∃ object, heap.read n = some object) :
    ∃ heap', (addresses.forM fun n => delete (some n) : StateT (Heap α) Option PUnit).run heap = some ((), heap') ∧
      heap'.next = heap.next ∧ ∀ n, heap'.read n = if n ∈ addresses then none else heap.read n := by
  induction addresses generalizing heap with
  | nil => exact ⟨heap, rfl, rfl, fun n => by simp⟩
  | cons m rest ih =>
    obtain ⟨notRest, restNodup⟩ := List.nodup_cons.mp nodup
    obtain ⟨object, read⟩ := alive m (by simp)
    have restAlive : ∀ n ∈ rest, ∃ object, (heap.free m).read n = some object := fun n inside => by
      rw [read_free, if_neg (by rintro rfl; exact notRest inside)]
      exact alive n (by simp [inside])
    obtain ⟨heap', run, next, same⟩ := ih restNodup restAlive
    refine ⟨heap', ?_, next, fun n => ?_⟩
    · simp [List.forM_cons, read]
      exact run
    · rw [same, read_free]
      by_cases inRest : n ∈ rest <;> by_cases isM : n = m <;> simp [inRest, isM]

/-- Freeing a tree deletes its nodes and nothing else. -/
theorem run_freeTree {fuel : ℕ} (enough : tree.height ≤ fuel) (treeLinked : LinkedTree ok heap parent root tree)
    (nodup : tree.inorder.Nodup) :
    ∃ heap', (freeTree fuel root).run heap = some ((), heap') ∧ heap'.next = heap.next ∧
      ∀ n, heap'.read n = if n ∈ tree.inorder then none else heap.read n := by
  induction tree generalizing fuel heap parent root with
  | nil =>
    rw [linkedTree_nil] at treeLinked
    subst treeLinked
    exact ⟨heap, by cases fuel <;> rfl, rfl, fun n => by simp⟩
  | node n left right ihLeft ihRight =>
    simp only [BinaryTree.height] at enough
    obtain ⟨fuel, rfl⟩ : ∃ less, fuel = less + 1 := ⟨fuel - 1, by omega⟩
    obtain ⟨rfl, level, read, rfl, _, leftLinked, rightLinked⟩ := treeLinked
    obtain ⟨leftNodup, rightNodup, notLeft, notRight, apart⟩ := nodup_inorder_node.mp nodup
    obtain ⟨heap₁, run₁, next₁, same₁⟩ := ihLeft (show _ ≤ fuel by omega) leftLinked leftNodup
    have rightLinked₁ : LinkedTree ok heap₁ (some n) level.rightChild right := rightLinked.frame fun m inside => by
      rw [same₁, if_neg fun inLeft => apart inLeft inside]
    obtain ⟨heap₂, run₂, next₂, same₂⟩ := ihRight (show _ ≤ fuel by omega) rightLinked₁ rightNodup
    have read₁ : heap₁.read n = some level := by rw [same₁, if_neg notLeft, read]
    have read₂ : heap₂.read n = some level := by rw [same₂, if_neg notRight, read₁]
    refine ⟨heap₂.free n, ?_, next₂.trans next₁, fun m => ?_⟩
    · simp [freeTree, read, run₁, read₁, run₂, read₂]
    · rw [read_free, same₂, same₁]
      by_cases isN : m = n <;> by_cases inLeft : m ∈ left.inorder <;> by_cases inRight : m ∈ right.inorder <;>
        simp [isN, inLeft, inRight]

/-- The map lists every live entry once. -/
theorem Represents.values (represents : Represents book live trees none) :
    book.orders.values.Nodup ∧ ∀ n, n ∈ book.orders.values ↔ n ∈ live.map Prod.fst := by
  have listed (n : ℕ) : n ∈ book.orders.values ↔ n ∈ live.map Prod.fst := by
    rw [UnorderedMap.mem_values, List.mem_map]
    constructor
    · rintro ⟨id, found⟩
      obtain ⟨slot, inLive, here, _⟩ := (represents.orders id n).mp found
      exact ⟨slot, inLive, here⟩
    · rintro ⟨slot, inLive, rfl⟩
      exact ⟨slot.2.id, (represents.orders _ _).mpr ⟨slot, inLive, rfl, rfl⟩⟩
  refine ⟨?_, listed⟩
  refine List.Nodup.map_on ?_ book.orders.nodupKeys.nodup
  rintro ⟨id, n⟩ inside ⟨id', n'⟩ inside' same
  obtain rfl : n = n' := same
  rw [UnorderedMap.mem_entries, represents.orders] at inside inside'
  obtain ⟨slot, inLive, here, rfl⟩ := inside
  obtain ⟨slot', inLive', here', rfl⟩ := inside'
  rw [represents.slot_injective inLive inLive' (here.trans here'.symm)]

/-- After a clear the book is a new one, except for what was logged. -/
theorem run_clearBook (represents : Represents book live trees none) :
    ∃ book', clearBook.run book = some ((), book') ∧ Represents book' [] (fun _ => .nil) none ∧
      book'.anomalies = book.anomalies := by
  obtain ⟨valuesNodup, listed⟩ := represents.values
  obtain ⟨entries', runDelete, _, sameEntries⟩ := run_deleteAll valuesNodup fun n inside =>
    (represents.entries n).mpr ((listed n).mp inside)
  have enough (side : Side) (sided : side ≠ .none) {heap : Heap PriceLevel}
      (linked : LinkedTree ExactHeight heap none (book.treeFor side) (trees side)) :
      (trees side).height ≤ heap.next + 1 := by
    have := (trees side).height_le_length_inorder
    have := linked.length_le_next (represents.tree side sided).nodup
    omega
  have bids := represents.tree .buy (by simp)
  have asks := represents.tree .sell (by simp)
  have apart := represents.apart .buy (by simp) .sell (by simp) (by simp)
  obtain ⟨heap₁, run₁, next₁, same₁⟩ := run_freeTree (enough .buy (by simp) bids.linked) bids.linked bids.nodup
  have asksLinked₁ : LinkedTree ExactHeight heap₁ none (book.treeFor .sell) (trees .sell) :=
    asks.linked.frame fun n inside => by rw [same₁, if_neg fun inBids => apart inBids inside]
  obtain ⟨heap₂, run₂, next₂, same₂⟩ := run_freeTree (enough .sell (by simp) asksLinked₁) asksLinked₁ asks.nodup
  refine ⟨{
    priceLevels := heap₂
    orderEntries := entries'
    bid := {}
    ask := {}
    orders := ∅
    anomalies := book.anomalies }, ?_, ?_, rfl⟩
  · simp only [clearBook, StateT.run_bind, StateT.run_get, Option.bind_eq_bind, Option.bind_some,
      run_onEntries, runDelete, Option.map_some, StateT.run_modify, Option.pure_def]
    change Option.bind
      (Option.map _ ((freeTree (book.priceLevels.next + 1) (book.treeFor .buy)).run book.priceLevels)) _ = _
    simp only [run₁, Option.map_some, Option.bind_some]
    change Option.bind (Option.map _ ((freeTree (book.priceLevels.next + 1) (book.treeFor .sell)).run heap₁)) _ = _
    rw [next₁] at run₂
    simp only [run₂, Option.map_some, Option.bind_some]
  · refine represents_empty (fun n => ?_) (fun n => ?_) book.anomalies
    · by_contra! alive
      obtain ⟨level, read⟩ := Option.ne_none_iff_exists'.mp alive
      have old : ∃ level, book.priceLevels.read n = some level := by
        refine ⟨level, ?_⟩
        rw [same₂, same₁] at read
        by_cases inAsks : n ∈ (trees .sell).inorder <;> by_cases inBids : n ∈ (trees .buy).inorder <;>
          simp_all
      obtain ⟨side, sided, inside⟩ := (represents.levels n).mp old
      rw [same₂, same₁] at alive
      cases side with
      | none => exact sided rfl
      | buy => simp [inside] at alive
      | sell => simp [inside] at alive
    · rw [sameEntries]
      split
      · rfl
      · next outside =>
        by_contra alive
        obtain ⟨entry, read⟩ := Option.ne_none_iff_exists'.mp alive
        exact outside ((listed n).mpr ((represents.entries n).mp ⟨entry, read⟩))

end BackTester.LimitOrderBook
