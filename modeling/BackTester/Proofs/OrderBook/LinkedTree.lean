import BackTester.ToMathlib.AvlTree
import BackTester.Model.OrderBook.PriceLevel

/-! # Trees of price levels on the free store

`LinkedTree` reads a tree off the child links of the store, with parent links that agree and a
condition on each stored height. `LinkedContext` is the same for the path from a hole to the root;
it says nothing about the heights stored on the path, which go stale while a change below them has
not been propagated. Both depend only on the links of the addresses they name.
-/

namespace BackTester.PriceLevel

open BinaryTree

/-- The fields the tree owns. -/
def links (level : PriceLevel) : Ptr × Ptr × Ptr × ℤ :=
  (level.parent, level.leftChild, level.rightChild, level.height)

/-- The fields the tree leaves alone. -/
def payload (level : PriceLevel) : ScaledPrice × ℤ × ℤ × Ptr × Ptr :=
  (level.price, level.orderCount, level.totalQuantity, level.front, level.back)

/-- The stored height is the height of the subtree. -/
def ExactHeight (tree : BinaryTree ℕ) (height : ℤ) : Prop := height = tree.height

/-- `root` heads `tree`: child and parent links agree and every stored height is `ok`. -/
def LinkedTree (ok : BinaryTree ℕ → ℤ → Prop) (heap : Heap PriceLevel) : Ptr → Ptr → BinaryTree ℕ → Prop
  | _, root, .nil => root = none
  | parent, root, .node n left right => root = some n ∧ ∃ level, heap.read n = some level ∧
      level.parent = parent ∧ ok (.node n left right) level.height ∧
      LinkedTree ok heap (some n) level.leftChild left ∧ LinkedTree ok heap (some n) level.rightChild right

/-- The path above a hole: `hole` is what the nearest ancestor `par` points to, and `top`, whose
parent link is `topPar`, is the end of the path. -/
def LinkedContext (ok : BinaryTree ℕ → ℤ → Prop) (heap : Heap PriceLevel) :
    Context ℕ → Ptr → Ptr → Ptr → Ptr → Prop
  | [], par, hole, topPar, top => par = topPar ∧ hole = top
  | .left n sibling :: rest, par, hole, topPar, top => par = some n ∧ ∃ level, heap.read n = some level ∧
      level.leftChild = hole ∧ LinkedTree ok heap (some n) level.rightChild sibling ∧
      LinkedContext ok heap rest level.parent (some n) topPar top
  | .right sibling n :: rest, par, hole, topPar, top => par = some n ∧ ∃ level, heap.read n = some level ∧
      level.rightChild = hole ∧ LinkedTree ok heap (some n) level.leftChild sibling ∧
      LinkedContext ok heap rest level.parent (some n) topPar top

/-- The price at an address. -/
def priceAt (heap : Heap PriceLevel) (n : ℕ) : ScaledPrice := ((heap.read n).map price).getD 0

theorem priceAt_of_read {heap : Heap PriceLevel} {n : ℕ} {level : PriceLevel} (read : heap.read n = some level) :
    priceAt heap n = level.price := by
  simp [priceAt, read]

/-- Prices ascend strictly along the addresses. -/
def Ascending (heap : Heap PriceLevel) (addresses : List ℕ) : Prop :=
  addresses.Pairwise fun m n => priceAt heap m < priceAt heap n

theorem nodup_of_ascending {heap : Heap PriceLevel} {addresses : List ℕ} (ascending : Ascending heap addresses) :
    addresses.Nodup :=
  ascending.imp fun less same => absurd (same ▸ less) (lt_irrefl _)

variable {ok : BinaryTree ℕ → ℤ → Prop} {heap heap' : Heap PriceLevel} {parent root : Ptr} {tree : BinaryTree ℕ}

@[simp] theorem linkedTree_nil : LinkedTree ok heap parent root .nil ↔ root = none := Iff.rfl

theorem linkedTree_node {n : ℕ} {left right : BinaryTree ℕ} :
    LinkedTree ok heap parent root (.node n left right) ↔ root = some n ∧ ∃ level,
      heap.read n = some level ∧ level.parent = parent ∧ ok (.node n left right) level.height ∧
      LinkedTree ok heap (some n) level.leftChild left ∧
      LinkedTree ok heap (some n) level.rightChild right := Iff.rfl

/-- Two stores with the same links at the addresses of a tree hold the same tree. -/
theorem LinkedTree.congr (linked : LinkedTree ok heap parent root tree)
    (same : ∀ n ∈ tree.inorder, (heap'.read n).map links = (heap.read n).map links) :
    LinkedTree ok heap' parent root tree := by
  induction tree generalizing parent root with
  | nil => exact linked
  | node n left right ihLeft ihRight =>
    obtain ⟨rfl, level, read, rfl, height, leftLinked, rightLinked⟩ := linked
    have here := same n (by simp)
    rw [read, Option.map_some, Option.map_eq_some_iff] at here
    obtain ⟨level', read', links'⟩ := here
    simp only [links, Prod.mk.injEq] at links'
    refine ⟨rfl, level', read', links'.1, links'.2.2.2 ▸ height, ?_, ?_⟩
    · rw [links'.2.1]
      exact ihLeft leftLinked (fun m member => same m (by simp [member]))
    · rw [links'.2.2.1]
      exact ihRight rightLinked (fun m member => same m (by simp [member]))

/-- Nothing outside a tree's addresses matters to it. -/
theorem LinkedTree.frame (linked : LinkedTree ok heap parent root tree)
    (same : ∀ n ∈ tree.inorder, heap'.read n = heap.read n) : LinkedTree ok heap' parent root tree :=
  linked.congr fun n member => by rw [same n member]

theorem LinkedTree.modify (linked : LinkedTree ok heap parent root tree) {n : ℕ}
    (outside : n ∉ tree.inorder) (update : PriceLevel → PriceLevel) :
    LinkedTree ok (heap.modify n update) parent root tree :=
  linked.frame fun _ member => heap.read_modify_of_ne update (fun same => outside (same ▸ member))

theorem LinkedTree.read (linked : LinkedTree ok heap parent root tree) {n : ℕ} (member : n ∈ tree.inorder) :
    ∃ level, heap.read n = some level := by
  induction tree generalizing parent root with
  | nil => simp at member
  | node m left right ihLeft ihRight =>
    obtain ⟨rfl, level, read, _, _, leftLinked, rightLinked⟩ := linked
    simp only [inorder_node, List.mem_append, List.mem_cons] at member
    rcases member with inLeft | rfl | inRight
    · exact ihLeft leftLinked inLeft
    · exact ⟨level, read⟩
    · exact ihRight rightLinked inRight

/-- The height that is stored in a tree is at most that of the tree. -/
theorem LinkedTree.height_le (linked : LinkedTree ExactHeight heap parent root tree)
    {a : ℕ} {level : PriceLevel} (inside : a ∈ tree.inorder) (read : heap.read a = some level) :
    1 ≤ level.height ∧ level.height ≤ tree.height := by
  induction tree generalizing parent root with
  | nil => contradiction
  | node n left right ihLeft ihRight =>
    obtain ⟨rfl, root, readRoot, -, height, leftLinked, rightLinked⟩ := linked
    have isHeight : (BinaryTree.node n left right).height = max left.height right.height + 1 := rfl
    simp only [inorder_node, List.mem_append, List.mem_cons] at inside
    rcases inside with inLeft | rfl | inRight
    · obtain ⟨positive, le⟩ := ihLeft leftLinked inLeft
      exact ⟨positive, by omega⟩
    · obtain rfl := Option.some.inj (readRoot.symm.trans read)
      unfold ExactHeight at height
      omega
    · obtain ⟨positive, le⟩ := ihRight rightLinked inRight
      exact ⟨positive, by omega⟩

/-- The root pointer of a nonempty tree is one of its addresses. -/
theorem LinkedTree.root_mem (linked : LinkedTree ok heap parent root tree) {n : ℕ} (isRoot : root = some n) :
    n ∈ tree.inorder := by
  cases tree with
  | nil => rw [linked] at isRoot; contradiction
  | node m left right =>
    obtain ⟨isNode, _⟩ := linked
    simp [Option.some.inj (isRoot.symm.trans isNode)]

/-- No more levels than addresses ever handed out. -/
theorem LinkedTree.length_le_next (linked : LinkedTree ok heap parent root tree) (nodup : tree.inorder.Nodup) :
    tree.inorder.length ≤ heap.next := by
  have bound : tree.inorder ⊆ List.range heap.next := fun n member => by
    obtain ⟨level, read⟩ := linked.read member
    exact List.mem_range.mpr (Heap.read_bound read)
  simpa using (nodup.subperm bound).length_le

/-- A tree in a hole and the path above it come apart. -/
theorem LinkedTree.split {context : Context ℕ} {topPar top : Ptr}
    (linked : LinkedTree ok heap topPar top (context.plug tree)) :
    ∃ par hole, LinkedTree ok heap par hole tree ∧ LinkedContext ok heap context par hole topPar top := by
  induction context generalizing tree with
  | nil => exact ⟨topPar, top, linked, rfl, rfl⟩
  | cons frame rest ih =>
    obtain ⟨par, hole, frameLinked, restLinked⟩ := ih linked
    cases frame with
    | left n sibling =>
      obtain ⟨rfl, level, read, rfl, _, leftLinked, rightLinked⟩ := frameLinked
      exact ⟨some n, level.leftChild, leftLinked, rfl, level, read, rfl, rightLinked, restLinked⟩
    | right sibling n =>
      obtain ⟨rfl, level, read, rfl, _, leftLinked, rightLinked⟩ := frameLinked
      exact ⟨some n, level.rightChild, rightLinked, rfl, level, read, rfl, leftLinked, restLinked⟩

section Context

variable {context : Context ℕ} {par hole topPar top : Ptr}

/-- Two stores with the same links along a path and beside it hold the same path. -/
theorem LinkedContext.congr (linked : LinkedContext ok heap context par hole topPar top)
    (same : ∀ n ∈ context.around, (heap'.read n).map links = (heap.read n).map links) :
    LinkedContext ok heap' context par hole topPar top := by
  induction context generalizing par hole with
  | nil => exact linked
  | cons frame rest ih =>
    simp only [Context.around_cons, List.mem_cons, List.mem_append] at same
    have here := same frame.value (.inl rfl)
    have beside := fun n member => same n (.inr (.inl member))
    have above := fun n member => same n (.inr (.inr member))
    cases frame with
    | left n sibling =>
      obtain ⟨rfl, level, read, rfl, siblingLinked, restLinked⟩ := linked
      rw [Frame.value, read, Option.map_some, Option.map_eq_some_iff] at here
      obtain ⟨level', read', links'⟩ := here
      simp only [links, Prod.mk.injEq] at links'
      refine ⟨rfl, level', read', links'.2.1, ?_, links'.1 ▸ ih restLinked above⟩
      rw [links'.2.2.1]
      exact siblingLinked.congr beside
    | right sibling n =>
      obtain ⟨rfl, level, read, rfl, siblingLinked, restLinked⟩ := linked
      rw [Frame.value, read, Option.map_some, Option.map_eq_some_iff] at here
      obtain ⟨level', read', links'⟩ := here
      simp only [links, Prod.mk.injEq] at links'
      refine ⟨rfl, level', read', links'.2.2.1, ?_, links'.1 ▸ ih restLinked above⟩
      rw [links'.2.1]
      exact siblingLinked.congr beside

theorem LinkedContext.frame (linked : LinkedContext ok heap context par hole topPar top)
    (same : ∀ n ∈ context.around, heap'.read n = heap.read n) :
    LinkedContext ok heap' context par hole topPar top :=
  linked.congr fun n member => by rw [same n member]

theorem LinkedContext.modify (linked : LinkedContext ok heap context par hole topPar top) {n : ℕ}
    (outside : n ∉ context.around) (update : PriceLevel → PriceLevel) :
    LinkedContext ok (heap.modify n update) context par hole topPar top :=
  linked.frame fun _ member => heap.read_modify_of_ne update (fun same => outside (same ▸ member))

/-- Paths compose at their shared end. -/
theorem linkedContext_append {inner outer : Context ℕ} :
    LinkedContext ok heap (inner ++ outer) par hole topPar top ↔ ∃ midPar mid,
      LinkedContext ok heap inner par hole midPar mid ∧ LinkedContext ok heap outer midPar mid topPar top := by
  induction inner generalizing par hole with
  | nil =>
    constructor
    · intro linked
      exact ⟨par, hole, ⟨rfl, rfl⟩, linked⟩
    · rintro ⟨midPar, mid, ⟨rfl, rfl⟩, linked⟩
      exact linked
  | cons frame rest ih =>
    cases frame with
    | left n sibling =>
      constructor
      · rintro ⟨rfl, level, read, rfl, siblingLinked, restLinked⟩
        obtain ⟨midPar, mid, innerLinked, outerLinked⟩ := ih.mp restLinked
        exact ⟨midPar, mid, ⟨rfl, level, read, rfl, siblingLinked, innerLinked⟩, outerLinked⟩
      · rintro ⟨midPar, mid, ⟨rfl, level, read, rfl, siblingLinked, innerLinked⟩, outerLinked⟩
        exact ⟨rfl, level, read, rfl, siblingLinked, ih.mpr ⟨midPar, mid, innerLinked, outerLinked⟩⟩
    | right sibling n =>
      constructor
      · rintro ⟨rfl, level, read, rfl, siblingLinked, restLinked⟩
        obtain ⟨midPar, mid, innerLinked, outerLinked⟩ := ih.mp restLinked
        exact ⟨midPar, mid, ⟨rfl, level, read, rfl, siblingLinked, innerLinked⟩, outerLinked⟩
      · rintro ⟨midPar, mid, ⟨rfl, level, read, rfl, siblingLinked, innerLinked⟩, outerLinked⟩
        exact ⟨rfl, level, read, rfl, siblingLinked, ih.mpr ⟨midPar, mid, innerLinked, outerLinked⟩⟩

end Context

end BackTester.PriceLevel
