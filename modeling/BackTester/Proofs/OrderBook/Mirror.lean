import BackTester.Proofs.OrderBook.LinkedTree

/-! # The tree code and its mirror image

The tree code comes in pairs that differ by exchanging left and right. Here that is a fact about
computations: running one of a pair is running the other on the mirrored store. A statement about
one of them is then a statement about both.
-/

namespace BackTester.PriceLevel

open BinaryTree Heap

/-- The level with its child links exchanged. -/
def mirror (level : PriceLevel) : PriceLevel :=
  { level with leftChild := level.rightChild, rightChild := level.leftChild }

@[simp] theorem mirror_mirror (level : PriceLevel) : level.mirror.mirror = level := rfl

@[simp] theorem mirror_parent (level : PriceLevel) : level.mirror.parent = level.parent := rfl

@[simp] theorem mirror_leftChild (level : PriceLevel) : level.mirror.leftChild = level.rightChild := rfl

@[simp] theorem mirror_rightChild (level : PriceLevel) : level.mirror.rightChild = level.leftChild := rfl

/-- The store with every level mirrored. -/
abbrev mirrorHeap (heap : Heap PriceLevel) : Heap PriceLevel := heap.map mirror

@[simp] theorem mirrorHeap_mirrorHeap (heap : Heap PriceLevel) : mirrorHeap (mirrorHeap heap) = heap := by
  ext1
  · rfl
  · simp [Function.comp_def]

@[simp] theorem mirrorHeap_modify (heap : Heap PriceLevel) (n : ℕ) (update : PriceLevel → PriceLevel) :
    mirrorHeap (heap.modify n update) = (mirrorHeap heap).modify n fun level => (update level.mirror).mirror := by
  apply Heap.ext
  · rfl
  · intro m
    simp only [read_map, read_modify]
    split <;> simp [Function.comp_def]

/-- Run a computation on the mirrored store and mirror the store it leaves. -/
def mirrored {α : Type} (run : LevelM α) : LevelM α := fun heap =>
  (run (mirrorHeap heap)).map fun (value, heap') => (value, mirrorHeap heap')

section Computations

variable {α β : Type}

theorem run_mirrored (run : LevelM α) (heap : Heap PriceLevel) :
    (mirrored run).run heap = (run.run (mirrorHeap heap)).map fun (value, heap') => (value, mirrorHeap heap') := rfl

@[simp] theorem mirrored_mirrored (run : LevelM α) : mirrored (mirrored run) = run := by
  funext heap
  simp [mirrored, Function.comp_def]

@[simp] theorem mirrored_pure (value : α) : mirrored (pure value) = pure value := by
  funext heap
  change some (value, mirrorHeap (mirrorHeap heap)) = some (value, heap)
  rw [mirrorHeap_mirrorHeap]

theorem mirrored_bind (run : LevelM α) (next : α → LevelM β) :
    mirrored (run >>= next) = mirrored run >>= fun value => mirrored (next value) := by
  funext heap
  change Option.map _ ((run (mirrorHeap heap)).bind _) = ((run (mirrorHeap heap)).map _).bind _
  cases run (mirrorHeap heap) with
  | none => rfl
  | some result =>
    obtain ⟨value, heap'⟩ := result
    simp [mirrored]

theorem mirrored_map (f : α → β) (run : LevelM α) : mirrored (f <$> run) = f <$> mirrored run := by
  rw [map_eq_pure_bind, mirrored_bind, map_eq_pure_bind]
  simp

theorem mirrored_load (p : Ptr) : mirrored (load p) = mirror <$> load p := by
  funext heap
  cases p with
  | none => rfl
  | some n =>
    change Option.map _ ((load (some n)).run (mirrorHeap heap)) = (mirror <$> load (some n)).run heap
    cases read : heap.read n <;> simp [read]

theorem mirrored_store (p : Ptr) (update : PriceLevel → PriceLevel) :
    mirrored (store p update) = store p fun level => (update level.mirror).mirror := by
  funext heap
  cases p with
  | none => rfl
  | some n =>
    change Option.map _ ((store (some n) update).run (mirrorHeap heap)) = (store (some n) _).run heap
    cases read : heap.read n with
    | none => simp [read]
    | some level =>
      simp only [run_store, read_map, read, Option.map_some, mirrorHeap_modify, mirrorHeap_mirrorHeap]

end Computations

theorem mirrored_heightOf (p : Ptr) : mirrored (heightOf p) = heightOf p := by
  cases p with
  | none => exact mirrored_pure 0
  | some n => simp [heightOf, mirrored_map, mirrored_load, mirror]

/-- Heights are read without changing the store. -/
theorem exists_run_heightOf (p : Ptr) (heap : Heap PriceLevel) :
    ∃ height : Option ℤ, (heightOf p).run heap = height.map fun height => (height, heap) := by
  cases p with
  | none => exact ⟨some 0, rfl⟩
  | some n => exact ⟨(heap.read n).map height, by simp [heightOf, Function.comp_def]⟩

/-- The heights of the children can be read in either order. -/
theorem childHeights_comm {α : Type} (n : Ptr) (next : ℤ → ℤ → LevelM α) :
    (load n >>= fun level => heightOf level.rightChild >>= fun right =>
      load n >>= fun level => heightOf level.leftChild >>= fun left => next left right) =
    load n >>= fun level => heightOf level.leftChild >>= fun left =>
      load n >>= fun level => heightOf level.rightChild >>= fun right => next left right := by
  apply StateT.ext
  intro heap
  cases n with
  | none => rfl
  | some n =>
    cases read : heap.read n with
    | none => simp [read]
    | some level =>
      obtain ⟨left, readLeft⟩ := exists_run_heightOf level.leftChild heap
      obtain ⟨right, readRight⟩ := exists_run_heightOf level.rightChild heap
      cases left <;> cases right <;> simp [read, readLeft, readRight]

theorem mirrored_updateHeight (n : Ptr) : mirrored (updateHeight n) = updateHeight n := by
  simp only [updateHeight, mirrored_bind, mirrored_load, mirrored_heightOf, mirrored_store, map_eq_pure_bind,
    bind_assoc, pure_bind, mirror_leftChild, mirror_rightChild]
  -- the mirrored run reads the right height first
  rw [childHeights_comm]
  simp only [max_comm]
  rfl

theorem mirrored_setParent (p q : Ptr) : mirrored (setParent p q) = setParent p q := by
  cases p with
  | none => exact mirrored_pure ()
  | some n => simp [setParent, mirrored_store, mirror]

theorem mirrored_balanceFactor (n : Ptr) : mirrored (balanceFactor n) = (fun bf => -bf) <$> balanceFactor n := by
  simp only [balanceFactor, mirrored_bind, mirrored_load, mirrored_heightOf, mirrored_pure, map_eq_pure_bind,
    bind_assoc, pure_bind, mirror_leftChild, mirror_rightChild]
  rw [childHeights_comm]
  simp only [neg_sub]

theorem mirrored_rotateRight (n : Ptr) : mirrored (rotateRight n) = rotateLeft n := by
  simp [rotateRight, rotateLeft, mirrored_bind, mirrored_map, mirrored_load, mirrored_store, mirrored_setParent,
    mirrored_updateHeight, mirror]

theorem mirrored_rotateLeft (n : Ptr) : mirrored (rotateLeft n) = rotateRight n := by
  rw [← mirrored_rotateRight, mirrored_mirrored]

theorem mirrored_straightenLeft (n : Ptr) : mirrored (straightenLeft n) = straightenRight n := by
  simp only [straightenLeft, straightenRight, mirrored_bind, mirrored_load, mirrored_balanceFactor, mirrored_rotateLeft,
    mirrored_store, mirrored_pure, map_eq_pure_bind, bind_assoc, pure_bind, mirror_leftChild, apply_ite mirrored,
    Left.neg_neg_iff, gt_iff_lt]
  rfl

theorem LinkedTree.mirror {ok : BinaryTree ℕ → ℤ → Prop} {heap : Heap PriceLevel} {parent root : Ptr}
    {tree : BinaryTree ℕ} (linked : LinkedTree ok heap parent root tree) :
    LinkedTree (fun tree => ok tree.mirror) (mirrorHeap heap) parent root tree.mirror := by
  induction tree generalizing parent root with
  | nil => exact linked
  | node n left right ihLeft ihRight =>
    obtain ⟨rfl, level, read, rfl, height, leftLinked, rightLinked⟩ := linked
    refine ⟨rfl, level.mirror, by simp [read], rfl, ?_, ihRight rightLinked, ihLeft leftLinked⟩
    change ok (node n left right).mirror.mirror level.height
    rwa [BinaryTree.mirror_mirror]

theorem exactHeight_mirror : (fun tree : BinaryTree ℕ => ExactHeight tree.mirror) = ExactHeight := by
  funext tree height
  simp only [ExactHeight, height_mirror]

theorem LinkedTree.mirror_exact {heap : Heap PriceLevel} {parent root : Ptr} {tree : BinaryTree ℕ}
    (linked : LinkedTree ExactHeight heap parent root tree) :
    LinkedTree ExactHeight (mirrorHeap heap) parent root tree.mirror :=
  exactHeight_mirror ▸ linked.mirror

end BackTester.PriceLevel
