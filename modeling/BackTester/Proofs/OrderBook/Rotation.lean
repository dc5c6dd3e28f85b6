import BackTester.Proofs.OrderBook.Mirror

/-! # Rotations and the repair of one node

Each function of the tree code is matched with the functional tree operation it performs. A
statement about a run says which heap comes out by its trees and by `Relinked`: only links changed,
and only at the addresses of the trees involved.
-/

namespace BackTester.PriceLevel

open BinaryTree Heap

/-- Only links changed, and only at the given addresses. -/
structure Relinked (addresses : List ℕ) (heap heap' : Heap PriceLevel) : Prop where
  next : heap'.next = heap.next
  outside : ∀ n ∉ addresses, heap'.read n = heap.read n
  payload : ∀ n, (heap'.read n).map payload = (heap.read n).map payload

namespace Relinked

variable {addresses others : List ℕ} {heap heap' heap'' : Heap PriceLevel}

theorem refl (addresses : List ℕ) (heap : Heap PriceLevel) : Relinked addresses heap heap :=
  ⟨rfl, fun _ _ => rfl, fun _ => rfl⟩

theorem trans (first : Relinked addresses heap heap') (second : Relinked addresses heap' heap'') :
    Relinked addresses heap heap'' :=
  ⟨second.next.trans first.next, fun n outside => (second.outside n outside).trans (first.outside n outside),
    fun n => (second.payload n).trans (first.payload n)⟩

theorem mono (relinked : Relinked addresses heap heap') (subset : addresses ⊆ others) :
    Relinked others heap heap' :=
  ⟨relinked.next, fun n outside => relinked.outside n fun member => outside (subset member), relinked.payload⟩

theorem apart (relinked : Relinked addresses heap heap') (apart : others.Disjoint addresses) :
    ∀ n ∈ others, heap'.read n = heap.read n :=
  fun n member => relinked.outside n fun inside => apart member inside

theorem modify {n : ℕ} {update : PriceLevel → PriceLevel} (relinked : Relinked addresses heap heap')
    (member : n ∈ addresses) (kept : ∀ level, PriceLevel.payload (update level) = PriceLevel.payload level) :
    Relinked addresses heap (heap'.modify n update) :=
  relinked.trans ⟨rfl, fun _ outside => heap'.read_modify_of_ne update (fun same => outside (same ▸ member)),
    fun m => heap'.map_read_modify n m kept⟩

theorem mirror (relinked : Relinked addresses (mirrorHeap heap) heap') :
    Relinked addresses heap (mirrorHeap heap') := by
  have payload_mirror (level : PriceLevel) : PriceLevel.payload level.mirror = PriceLevel.payload level := rfl
  refine ⟨relinked.next, fun n outside => ?_, fun n => ?_⟩
  · simp [relinked.outside n outside, Function.comp_def]
  · have := relinked.payload n
    simpa [Function.comp_def, payload_mirror] using this

/-- A price is part of what the tree code leaves alone. -/
theorem priceAt (relinked : Relinked addresses heap heap') (n : ℕ) :
    PriceLevel.priceAt heap' n = PriceLevel.priceAt heap n := by
  have := congrArg (Option.map fun kept => kept.1) (relinked.payload n)
  rw [Option.map_map, Option.map_map] at this
  exact congrArg (Option.getD · 0) this

theorem ascending (relinked : Relinked addresses heap heap') {others : List ℕ} :
    Ascending heap' others ↔ Ascending heap others := by
  simp only [Ascending, relinked.priceAt]

end Relinked

variable {ok : BinaryTree ℕ → ℤ → Prop} {heap heap' : Heap PriceLevel} {parent root : Ptr} {tree : BinaryTree ℕ}

/-- The effect of `if (p) p->parent = q;`. -/
def reparented (heap : Heap PriceLevel) (p q : Ptr) : Heap PriceLevel :=
  match p with
  | none => heap
  | some n => heap.modify n fun level => { level with parent := q }

theorem run_setParent (linked : LinkedTree ok heap parent root tree) (q : Ptr) :
    (setParent root q).run heap = some ((), reparented heap root q) := by
  cases tree with
  | nil => rw [linked]; rfl
  | node n left right =>
    obtain ⟨rfl, level, read, _⟩ := linked
    simp [setParent, reparented, read]

theorem read_reparented (linked : LinkedTree ok heap parent root tree) (q : Ptr) {other : Heap PriceLevel} {n : ℕ}
    (outside : n ∉ tree.inorder) : (reparented other root q).read n = other.read n := by
  cases root with
  | none => rfl
  | some m => exact read_modify_of_ne _ _ fun same => outside (same ▸ linked.root_mem rfl)

/-- The root pointer of a nonempty tree is not null. -/
theorem LinkedTree.exists_root (linked : LinkedTree ok heap parent root tree) (nonempty : tree ≠ .nil) :
    ∃ n, root = some n := by
  cases tree with
  | nil => contradiction
  | node n left right => exact ⟨n, linked.1⟩

theorem LinkedTree.reparent (linked : LinkedTree ok heap parent root tree) (nodup : tree.inorder.Nodup) (q : Ptr) :
    LinkedTree ok (reparented heap root q) q root tree := by
  cases tree with
  | nil => exact linked
  | node n left right =>
    obtain ⟨rfl, level, read, rfl, height, leftLinked, rightLinked⟩ := linked
    simp only [inorder_node, List.nodup_append, List.nodup_cons, List.mem_cons] at nodup
    refine ⟨rfl, { level with parent := q }, by simp [reparented, read], rfl, height, ?_, ?_⟩
    · exact leftLinked.modify (fun member => nodup.2.2 n member n (Or.inl rfl) rfl) _
    · exact rightLinked.modify nodup.2.1.1 _

/-- A tree apart from the one whose root is reparented is not affected. -/
theorem LinkedTree.reparent_other (linked : LinkedTree ok heap parent root tree) (q : Ptr)
    {other : Heap PriceLevel} {parent' root' : Ptr} {tree' : BinaryTree ℕ}
    (linked' : LinkedTree ok other parent' root' tree') (apart : tree.inorder.Disjoint tree'.inorder) :
    LinkedTree ok (reparented other root q) parent' root' tree' :=
  linked'.frame fun _ member => read_reparented linked q fun inside => apart inside member

theorem Relinked.reparented {addresses : List ℕ} (relinked : Relinked addresses heap heap') {p : Ptr}
    (member : ∀ n, p = some n → n ∈ addresses) (q : Ptr) : Relinked addresses heap (reparented heap' p q) := by
  cases p with
  | none => exact relinked
  | some n => exact relinked.modify (member n rfl) fun _ => rfl

theorem run_heightOf (linked : LinkedTree ExactHeight heap parent root tree) :
    (heightOf root).run heap = some ((tree.height : ℤ), heap) := by
  cases tree with
  | nil =>
    rw [linkedTree_nil] at linked
    subst linked
    rfl
  | node n left right =>
    obtain ⟨rfl, level, read, _, height, _, _⟩ := linked
    have height : level.height = _ := height
    simp [heightOf, read, height]

section Node

variable {n : ℕ} {level : PriceLevel} {left right : BinaryTree ℕ}

theorem run_updateHeight (read : heap.read n = some level)
    (leftLinked : LinkedTree ExactHeight heap (some n) level.leftChild left)
    (rightLinked : LinkedTree ExactHeight heap (some n) level.rightChild right) :
    (updateHeight (some n)).run heap = some ((), heap.modify n fun level =>
      { level with height := 1 + max (left.height : ℤ) (right.height : ℤ) }) := by
  simp only [updateHeight, StateT.run_bind, run_load, read, Option.map_some, Option.bind_eq_bind, Option.bind_some,
    run_heightOf leftLinked, run_heightOf rightLinked, run_store]

theorem run_balanceFactor (read : heap.read n = some level)
    (leftLinked : LinkedTree ExactHeight heap (some n) level.leftChild left)
    (rightLinked : LinkedTree ExactHeight heap (some n) level.rightChild right) :
    (balanceFactor (some n)).run heap = some ((left.height : ℤ) - right.height, heap) := by
  simp only [balanceFactor, StateT.run_bind, run_load, read, Option.map_some, Option.bind_eq_bind, Option.bind_some,
    run_heightOf leftLinked, run_heightOf rightLinked, StateT.run_pure, Option.pure_def]

/-- Once its height is recomputed, a node heads an exact tree. -/
theorem linkedTree_updateHeight (read : heap.read n = some level)
    (leftLinked : LinkedTree ExactHeight heap (some n) level.leftChild left)
    (rightLinked : LinkedTree ExactHeight heap (some n) level.rightChild right)
    (nodup : (node n left right).inorder.Nodup) :
    LinkedTree ExactHeight (heap.modify n fun level =>
      { level with height := 1 + max (left.height : ℤ) (right.height : ℤ) }) level.parent (some n)
        (node n left right) := by
  obtain ⟨_, _, notLeft, notRight, _⟩ := nodup_inorder_node.mp nodup
  refine ⟨rfl, { level with height := 1 + max (left.height : ℤ) (right.height : ℤ) },
    by rw [read_modify_self, read]; rfl, rfl, ?_, leftLinked.modify notLeft _, rightLinked.modify notRight _⟩
  simp only [ExactHeight, BinaryTree.height]
  push_cast
  omega

end Node

section Rotation

variable {n : ℕ} {x : PriceLevel} {left right side : BinaryTree ℕ}

/-- `rotate_right` brings the left child up, with exact heights at both nodes whatever was stored
there before. -/
theorem run_rotateRight (atN : heap.read n = some x)
    (leftLinked : LinkedTree ExactHeight heap (some n) x.leftChild left) (nonempty : left ≠ .nil)
    (sideLinked : LinkedTree ExactHeight heap (some n) x.rightChild side)
    (nodup : (BinaryTree.node n left side).inorder.Nodup) :
    ∃ heap' q, (rotateRight (some n)).run heap = some (q, heap') ∧
      LinkedTree ExactHeight heap' x.parent q (BinaryTree.node n left side).rotateRight ∧
      Relinked (BinaryTree.node n left side).inorder heap heap' := by
  cases left with
  | nil => contradiction
  | node p outer inner =>
    obtain ⟨toP, y, atP, _, _, outerLinked, innerLinked⟩ := leftLinked
    obtain ⟨_, sideNodup, notPivot, notSide, apart⟩ := nodup_inorder_node.mp nodup
    obtain ⟨outerNodup, innerNodup, notOuter, notInner, apart'⟩ := nodup_inorder_node.mp ‹_›
    simp only [inorder_node, List.mem_append, List.mem_cons, not_or, List.disjoint_append_left,
      List.disjoint_cons_left] at notPivot apart
    have ne : p ≠ n := fun same => notPivot.2.1 same.symm
    -- the store after the link assignments, before the heights are recomputed
    let relinked := (((reparented (heap.modify n fun level => { level with leftChild := y.rightChild })
      y.rightChild (some n)).modify p fun level => { level with rightChild := some n }).modify p
        fun level => { level with parent := x.parent }).modify n fun level => { level with parent := some p }
    have run : (rotateRight (some n)).run heap =
        (do updateHeight (some n); updateHeight (some p); return some p : LevelM Ptr).run relinked := by
      simp [rotateRight, atN, toP, atP, relinked, run_setParent (innerLinked.modify notPivot.2.2 _),
        read_reparented innerLinked, notPivot, notInner, read_modify, ne]
    have readN : relinked.read n = some { x with leftChild := y.rightChild, parent := some p } := by
      simp [relinked, read_modify, ne.symm, read_reparented innerLinked, notPivot, atN]
    have readP : relinked.read p = some { y with rightChild := some n, parent := x.parent } := by
      simp [relinked, read_modify, ne, read_reparented innerLinked, notInner, atP]
    have outer' : LinkedTree ExactHeight relinked (some p) y.leftChild outer :=
      (((innerLinked.reparent_other _ (outerLinked.modify notPivot.1 _) apart'.symm).modify notOuter _).modify
        notOuter _).modify notPivot.1 _
    have inner' : LinkedTree ExactHeight relinked (some n) y.rightChild inner :=
      ((((innerLinked.modify notPivot.2.2 _).reparent innerNodup (some n)).modify notInner _).modify notInner _).modify
        notPivot.2.2 _
    have side' : LinkedTree ExactHeight relinked (some n) x.rightChild side :=
      (((innerLinked.reparent_other _ (sideLinked.modify notSide _) apart.2.2).modify apart.2.1 _).modify
        apart.2.1 _).modify notSide _
    have within : Relinked (BinaryTree.node n (.node p outer inner) side).inorder heap relinked := by
      refine (((((Relinked.refl _ heap).modify ?_ fun _ => by rfl).reparented ?_ _).modify ?_ fun _ => by rfl).modify ?_
        fun _ => by rfl).modify ?_ fun _ => rfl
      · simp
      · intro m isRoot
        simp [innerLinked.root_mem isRoot]
      · simp
      · simp
      · simp
    -- first the old root's height, then the new root's
    have nodupLow : (BinaryTree.node n inner side).inorder.Nodup :=
      nodup_inorder_node.mpr ⟨innerNodup, sideNodup, notPivot.2.2, notSide, apart.2.2⟩
    have low := linkedTree_updateHeight readN inner' side' nodupLow
    have outer'' := outer'.modify notPivot.1 fun level =>
      { level with height := 1 + max (inner.height : ℤ) (side.height : ℤ) }
    have readP' := (relinked.read_modify_of_ne (fun level =>
      { level with height := 1 + max (inner.height : ℤ) (side.height : ℤ) }) ne).trans readP
    have nodupHigh : (BinaryTree.node p outer (.node n inner side)).inorder.Nodup := by
      refine nodup_inorder_node.mpr ⟨outerNodup, nodupLow, notOuter, ?_, ?_⟩
      · simp [notInner, ne, apart.2.1]
      · simp [apart', notPivot.1, apart.1]
    have high := linkedTree_updateHeight readP' outer'' low nodupHigh
    refine ⟨_, some p, ?_, high, (within.modify (by simp) fun _ => by rfl).modify (by simp) fun _ => rfl⟩
    simp [run, run_updateHeight readN inner' side', run_updateHeight readP' outer'' low]

/-- `rotate_left`, as the mirror image. -/
theorem run_rotateLeft (atN : heap.read n = some x)
    (sideLinked : LinkedTree ExactHeight heap (some n) x.leftChild side)
    (rightLinked : LinkedTree ExactHeight heap (some n) x.rightChild right) (nonempty : right ≠ .nil)
    (nodup : (BinaryTree.node n side right).inorder.Nodup) :
    ∃ heap' q, (rotateLeft (some n)).run heap = some (q, heap') ∧
      LinkedTree ExactHeight heap' x.parent q (BinaryTree.node n side right).rotateLeft ∧
      Relinked (BinaryTree.node n side right).inorder heap heap' := by
  have atN' : (mirrorHeap heap).read n = some x.mirror := by simp [atN]
  have nonempty' : right.mirror ≠ .nil := by cases right <;> simp_all
  have nodup' : (BinaryTree.node n right.mirror side.mirror).inorder.Nodup := by
    rw [← mirror_node, inorder_mirror]
    exact List.nodup_reverse.mpr nodup
  obtain ⟨heap', q, run, linked, relinked⟩ :=
    run_rotateRight atN' rightLinked.mirror_exact nonempty' sideLinked.mirror_exact nodup'
  rw [← mirror_node, mirror_rotateRight] at linked
  rw [← mirror_node, inorder_mirror] at relinked
  refine ⟨mirrorHeap heap', q, ?_, ?_, ?_⟩
  · rw [← mirrored_rotateRight, run_mirrored, run]
    rfl
  · have := linked.mirror_exact
    rwa [BinaryTree.mirror_mirror] at this
  · exact (relinked.mono (fun _ => List.mem_reverse.mp)).mirror

/-- The LR case leaves a left subtree that no longer leans to the right. -/
theorem run_straightenLeft (atN : heap.read n = some x)
    (leftLinked : LinkedTree ExactHeight heap (some n) x.leftChild left) (nonempty : left ≠ .nil)
    (sideLinked : LinkedTree ExactHeight heap (some n) x.rightChild side)
    (nodup : (BinaryTree.node n left side).inorder.Nodup) :
    ∃ heap' q, (straightenLeft (some n)).run heap = some ((), heap') ∧
      heap'.read n = some { x with leftChild := q } ∧
      LinkedTree ExactHeight heap' (some n) q (if left.leansRight then left.rotateLeft else left) ∧
      LinkedTree ExactHeight heap' (some n) x.rightChild side ∧
      Relinked (BinaryTree.node n left side).inorder heap heap' := by
  obtain ⟨leftNodup, sideNodup, notLeft, notSide, apart⟩ := nodup_inorder_node.mp nodup
  cases left with
  | nil => contradiction
  | node p outer inner =>
    obtain ⟨toP, y, atP, aboveP, height, outerLinked, innerLinked⟩ := leftLinked
    have factor := run_balanceFactor atP outerLinked innerLinked
    by_cases leans : outer.height < inner.height
    · have nonempty' : inner ≠ .nil := by rintro rfl; simp at leans
      obtain ⟨heap₁, q, run, linked, relinked⟩ := run_rotateLeft atP outerLinked innerLinked nonempty' leftNodup
      have sameInorder := inorder_rotateLeft (node p outer inner)
      obtain ⟨m, rfl⟩ := linked.exists_root (by rcases inner with _ | ⟨_, _, _⟩ <;> simp_all)
      have atN₁ : heap₁.read n = some x := (relinked.outside n notLeft).trans atN
      have inLeft : m ∈ (node p outer inner).inorder := sameInorder ▸ linked.root_mem rfl
      have ne : m ≠ n := fun same => notLeft (same ▸ inLeft)
      obtain ⟨z, atM⟩ := linked.read (linked.root_mem rfl)
      refine ⟨reparented (heap₁.modify n fun level => { level with leftChild := some m }) (some m) (some n), some m,
        ?_, ?_, ?_, ?_, ?_⟩
      · have negative : (outer.height : ℤ) - inner.height < 0 := by omega
        simp [straightenLeft, atN, toP, factor, negative, run, atN₁, read_modify, ne, atM, reparented]
      · simp [reparented, read_modify, ne.symm, atN₁]
      · rw [if_pos (by simpa [leansRight] using leans)]
        exact (linked.modify (sameInorder ▸ notLeft) _).reparent (sameInorder ▸ leftNodup) _
      · refine ((sideLinked.frame fun k member => relinked.outside k ?_).modify notSide _).modify ?_ _
        · exact fun inside => apart inside member
        · exact fun inside => apart inLeft inside
      · have within := relinked.mono (fun k (member : k ∈ (node p outer inner).inorder) =>
          (show k ∈ (BinaryTree.node n (node p outer inner) side).inorder by simp at member ⊢; tauto))
        exact (within.modify (by simp) fun _ => by rfl).reparented (by simp at inLeft ⊢; tauto) _
    · refine ⟨heap, some p, ?_, ?_, ?_, sideLinked, Relinked.refl _ _⟩
      · have nonnegative : ¬(outer.height : ℤ) - inner.height < 0 := by omega
        simp only [straightenLeft, StateT.run_bind, run_load, atN, Option.map_some, Option.bind_eq_bind,
          Option.bind_some, toP, factor, if_neg nonnegative]
        rfl
      · rw [atN, ← toP]
      · rw [if_neg (by simpa [leansRight] using leans)]
        exact ⟨rfl, y, atP, aboveP, height, outerLinked, innerLinked⟩

/-- The RL case, as the mirror image. -/
theorem run_straightenRight (atN : heap.read n = some x)
    (sideLinked : LinkedTree ExactHeight heap (some n) x.leftChild side)
    (rightLinked : LinkedTree ExactHeight heap (some n) x.rightChild right) (nonempty : right ≠ .nil)
    (nodup : (BinaryTree.node n side right).inorder.Nodup) :
    ∃ heap' q, (straightenRight (some n)).run heap = some ((), heap') ∧
      heap'.read n = some { x with rightChild := q } ∧
      LinkedTree ExactHeight heap' (some n) x.leftChild side ∧
      LinkedTree ExactHeight heap' (some n) q (if right.leansLeft then right.rotateRight else right) ∧
      Relinked (BinaryTree.node n side right).inorder heap heap' := by
  have atN' : (mirrorHeap heap).read n = some x.mirror := by simp [atN]
  have nonempty' : right.mirror ≠ .nil := by cases right <;> simp_all
  have nodup' : (BinaryTree.node n right.mirror side.mirror).inorder.Nodup := by
    rw [← mirror_node, inorder_mirror]
    exact List.nodup_reverse.mpr nodup
  obtain ⟨heap', q, run, atN'', linked, sideLinked', relinked⟩ :=
    run_straightenLeft atN' rightLinked.mirror_exact nonempty' sideLinked.mirror_exact nodup'
  rw [← mirror_node, inorder_mirror] at relinked
  refine ⟨mirrorHeap heap', q, ?_, ?_, ?_, ?_, ?_⟩
  · rw [← mirrored_straightenLeft, run_mirrored, run]
    rfl
  · rw [read_map, atN'']
    rfl
  · have := sideLinked'.mirror_exact
    rwa [BinaryTree.mirror_mirror] at this
  · have := linked.mirror_exact
    rw [leansRight_mirror, mirror_rotateLeft, ← apply_ite BinaryTree.mirror, BinaryTree.mirror_mirror] at this
    exact this
  · exact (relinked.mono (fun _ => List.mem_reverse.mp)).mirror

/-- `fix_one` is the functional repair of a node, whatever height the node stored before. -/
theorem run_fixOne (atN : heap.read n = some x)
    (leftLinked : LinkedTree ExactHeight heap (some n) x.leftChild left)
    (rightLinked : LinkedTree ExactHeight heap (some n) x.rightChild right)
    (nodup : (BinaryTree.node n left right).inorder.Nodup) :
    ∃ heap' q, (fixOne (some n)).run heap = some (q, heap') ∧
      LinkedTree ExactHeight heap' x.parent q (rebalance n left right) ∧
      Relinked (BinaryTree.node n left right).inorder heap heap' := by
  obtain ⟨_, _, notLeft, notRight, _⟩ := nodup_inorder_node.mp nodup
  let refreshed := heap.modify n fun level =>
    { level with height := 1 + max (left.height : ℤ) (right.height : ℤ) }
  have within : Relinked (BinaryTree.node n left right).inorder heap refreshed :=
    (Relinked.refl _ heap).modify (by simp) fun _ => rfl
  have atN' : refreshed.read n = some { x with height := 1 + max (left.height : ℤ) (right.height : ℤ) } := by
    simp [refreshed, atN]
  have left' : LinkedTree ExactHeight refreshed (some n) x.leftChild left := leftLinked.modify notLeft _
  have right' : LinkedTree ExactHeight refreshed (some n) x.rightChild right := rightLinked.modify notRight _
  have start : (fixOne (some n)).run heap =
      (if (left.height : ℤ) - right.height > 1 then do straightenLeft (some n); rotateRight (some n)
        else if (left.height : ℤ) - right.height < -1 then do straightenRight (some n); rotateLeft (some n)
        else return some n : LevelM Ptr).run refreshed := by
    simp only [fixOne, StateT.run_bind, run_updateHeight atN leftLinked rightLinked,
      Option.bind_eq_bind, Option.bind_some, run_balanceFactor atN' left' right', refreshed]
  by_cases leftHigh : right.height + 1 < left.height
  · have nonempty : left ≠ .nil := by rintro rfl; simp at leftHigh
    obtain ⟨heap₂, q, run₂, atN₂, left₂, right₂, relinked₂⟩ := run_straightenLeft atN' left' nonempty right' nodup
    have sameInorder : (if left.leansRight then left.rotateLeft else left).inorder = left.inorder := by
      split <;> simp
    have sameNode : (BinaryTree.node n (if left.leansRight then left.rotateLeft else left) right).inorder =
        (BinaryTree.node n left right).inorder := by simp only [inorder_node, sameInorder]
    obtain ⟨heap₃, r, run₃, linked₃, relinked₃⟩ :=
      run_rotateRight atN₂ left₂ (ne_nil_of_inorder_eq sameInorder nonempty) right₂ (sameNode ▸ nodup)
    refine ⟨heap₃, r, ?_, ?_, (within.trans relinked₂).trans (sameNode ▸ relinked₃)⟩
    · rw [start, if_pos (by omega)]
      simp [run₂, run₃]
    · rwa [rebalance, if_pos leftHigh]
  by_cases rightHigh : left.height + 1 < right.height
  · have nonempty : right ≠ .nil := by rintro rfl; simp at rightHigh
    obtain ⟨heap₂, q, run₂, atN₂, left₂, right₂, relinked₂⟩ := run_straightenRight atN' left' right' nonempty nodup
    have sameInorder : (if right.leansLeft then right.rotateRight else right).inorder = right.inorder := by
      split <;> simp
    have sameNode : (BinaryTree.node n left (if right.leansLeft then right.rotateRight else right)).inorder =
        (BinaryTree.node n left right).inorder := by simp only [inorder_node, sameInorder]
    obtain ⟨heap₃, r, run₃, linked₃, relinked₃⟩ :=
      run_rotateLeft atN₂ left₂ right₂ (ne_nil_of_inorder_eq sameInorder nonempty) (sameNode ▸ nodup)
    refine ⟨heap₃, r, ?_, ?_, (within.trans relinked₂).trans (sameNode ▸ relinked₃)⟩
    · rw [start, if_neg (by omega), if_pos (by omega)]
      simp [run₂, run₃]
    · rwa [rebalance, if_neg leftHigh, if_pos rightHigh]
  · refine ⟨refreshed, some n, ?_, ?_, within⟩
    · rw [start, if_neg (by omega), if_neg (by omega)]
      rfl
    · rw [rebalance_of_balanced n (by omega) (by omega)]
      exact linkedTree_updateHeight atN leftLinked rightLinked nodup

end Rotation

end BackTester.PriceLevel
