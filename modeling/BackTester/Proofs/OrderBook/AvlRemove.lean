import BackTester.Proofs.OrderBook.RebalanceUp

/-! # AVL removal

A node with two children first changes places with its in-order successor. Then it has at most one
child, which takes its place, and the upward walk rebuilds the tree. In terms of paths the swap
lengthens the path above the node by the successor and the nodes down to its old position.
-/

namespace BackTester.PriceLevel

open BinaryTree Heap

variable {ok : BinaryTree ℕ → ℤ → Prop} {heap heap' : Heap PriceLevel} {parent root par hole topPar top : Ptr}
  {tree left right : BinaryTree ℕ} {context : Context ℕ} {n s : ℕ} {x y : PriceLevel}

/-- The left-most node ends a path of left children. -/
theorem run_leftmost {fuel : ℕ} (enough : tree.height ≤ fuel) (treeLinked : LinkedTree ok heap parent root tree)
    (nonempty : tree ≠ .nil) :
    ∃ context s right, (leftmost fuel root).run heap = some (some s, heap) ∧
      tree = Context.plug context (.node s .nil right) ∧ Context.before context = [] := by
  induction tree generalizing fuel parent root with
  | nil => contradiction
  | node n left right ih _ =>
    simp only [BinaryTree.height] at enough
    obtain ⟨fuel, rfl⟩ : ∃ less, fuel = less + 1 := ⟨fuel - 1, by omega⟩
    obtain ⟨rfl, level, read, rfl, _, leftLinked, _⟩ := treeLinked
    cases left with
    | nil =>
      rw [linkedTree_nil] at leftLinked
      exact ⟨[], n, right, by simp [leftmost, read, leftLinked], rfl, rfl⟩
    | node k l r =>
      obtain ⟨m, toM⟩ := leftLinked.exists_root (by simp)
      obtain ⟨context, s, rest, run, whole, first⟩ := ih (show _ ≤ fuel by omega) leftLinked (by simp)
      refine ⟨context ++ [.left n right], s, rest, ?_, ?_, ?_⟩
      · rw [toM] at run
        simp [leftmost, read, toM, run]
      · rw [Context.plug_append, ← whole]
        rfl
      · simp [Context.before_append, first, Frame.before]

/-- The top of a path with a node on it is one of its nodes. -/
theorem LinkedContext.exists_top (linked : LinkedContext ok heap context par hole topPar top)
    (nonempty : context ≠ []) :
    ∃ t level, top = some t ∧ t ∈ context.around ∧ heap.read t = some level := by
  induction context generalizing par hole with
  | nil => contradiction
  | cons frame rest ih =>
    have step {n : ℕ} {level : PriceLevel} (read : heap.read n = some level) (isValue : frame.value = n)
        (restLinked : LinkedContext ok heap rest level.parent (some n) topPar top) :
        ∃ t level, top = some t ∧ t ∈ Context.around (frame :: rest) ∧ heap.read t = some level := by
      by_cases last : rest = []
      · subst last
        exact ⟨n, level, restLinked.2.symm, by simp [isValue], read⟩
      · obtain ⟨t, level, toT, around, read⟩ := ih restLinked last
        exact ⟨t, level, toT, by simp [around], read⟩
    cases frame with
    | left n sibling =>
      obtain ⟨rfl, level, read, _, _, restLinked⟩ := linked
      exact step read rfl restLinked
    | right sibling n =>
      obtain ⟨rfl, level, read, _, _, restLinked⟩ := linked
      exact step read rfl restLinked

/-- A path with a node on it may be given another parent at its top. -/
theorem LinkedContext.reparent (linked : LinkedContext ok heap context par hole topPar top)
    (nodup : context.around.Nodup) (nonempty : context ≠ []) (q : Ptr) :
    LinkedContext ok (reparented heap top q) context par hole q top := by
  induction context generalizing par hole with
  | nil => contradiction
  | cons frame rest ih =>
    simp only [Context.around_cons, List.nodup_cons, List.mem_append, not_or, List.nodup_append'] at nodup
    obtain ⟨⟨notSibling, notRest⟩, _, restNodup, apart⟩ := nodup
    -- the top is either this node or further up, away from the sibling
    have step {n : ℕ} {level : PriceLevel} (read : heap.read n = some level) (isValue : frame.value = n)
        (restLinked : LinkedContext ok heap rest level.parent (some n) topPar top) {side : Ptr}
        (siblingLinked : LinkedTree ok heap (some n) side frame.sibling) :
        ∃ above, (reparented heap top q).read n = some { level with parent := above } ∧
          LinkedTree ok (reparented heap top q) (some n) side frame.sibling ∧
          LinkedContext ok (reparented heap top q) rest above (some n) q top := by
      subst isValue
      by_cases last : rest = []
      · subst last
        obtain ⟨rfl, rfl⟩ := restLinked
        exact ⟨q, by simp [reparented, read], siblingLinked.modify notSibling _, rfl, rfl⟩
      · obtain ⟨t, _, rfl, around, _⟩ := restLinked.exists_top last
        refine ⟨level.parent, ?_, siblingLinked.modify (fun inside => apart inside around) _,
          ih restLinked restNodup last⟩
        rw [reparented, read_modify_of_ne _ _ (fun same => notRest (by rwa [same])), read]
    cases frame with
    | left n sibling =>
      obtain ⟨rfl, level, read, toHole, siblingLinked, restLinked⟩ := linked
      obtain ⟨above, read', siblingLinked', restLinked'⟩ := step read rfl restLinked siblingLinked
      exact ⟨rfl, _, read', toHole, siblingLinked', restLinked'⟩
    | right sibling n =>
      obtain ⟨rfl, level, read, toHole, siblingLinked, restLinked⟩ := linked
      obtain ⟨above, read', siblingLinked', restLinked'⟩ := step read rfl restLinked siblingLinked
      exact ⟨rfl, _, read', toHole, siblingLinked', restLinked'⟩

/-- The node moves down to the position of its successor, whichever of the two cases applies. -/
theorem run_descend (atN : heap.read n = some x) (atS : heap.read s = some y) (ne : n ≠ s)
    (linked : LinkedContext ok heap context par (some s) (some n) top) (first : context.before = [])
    (nodup : context.around.Nodup) (notN : n ∉ context.around) (notS : s ∉ context.around) :
    ∃ heap' par' mid, (descend (decide (some s = top)) (some n) top (some s) par).run heap = some ((), heap') ∧
      heap'.read s = some { y with rightChild := mid } ∧ heap'.read n = some { x with parent := par' } ∧
      LinkedContext ok heap' context par' (some n) (some s) mid ∧
      Relinked (n :: s :: context.around) heap heap' := by
  rcases context with _ | ⟨⟨m, sibling⟩ | ⟨sibling, m⟩, rest⟩
  · obtain ⟨rfl, rfl⟩ := linked
    refine ⟨(heap.modify s fun level => { level with rightChild := some n }).modify n
      fun level => { level with parent := some s }, some s, some n, ?_, ?_, ?_, ⟨rfl, rfl⟩,
      ((Relinked.refl _ heap).modify (by simp) fun _ => by rfl).modify (by simp) fun _ => rfl⟩
    · simp [descend, atN, atS, read_modify, ne]
    · simp [read_modify, ne.symm, atS]
    · simp [read_modify, ne, atN]
  · obtain ⟨t, _, rfl, around, atT⟩ := linked.exists_top (by simp)
    have notTop : s ≠ t := fun same => notS (same ▸ around)
    let heap₁ := heap.modify s fun level => { level with rightChild := some t }
    let heap₂ := heap₁.modify t fun level => { level with parent := some s }
    obtain ⟨rfl, level, read, toS, siblingLinked, restLinked⟩ :
        LinkedContext ok heap₂ _ par (some s) (some s) (some t) :=
      (linked.modify notS fun level => { level with rightChild := some t }).reparent nodup (by simp) (some s)
    have relinked₂ : Relinked (n :: s :: Context.around (.left m sibling :: rest)) heap heap₂ :=
      ((Relinked.refl _ heap).modify (by simp) fun _ => by rfl).modify
        (List.mem_cons_of_mem _ (List.mem_cons_of_mem _ around)) fun _ => rfl
    have neTop : n ≠ t := fun same => notN (by rwa [same])
    simp only [Context.around_cons, Frame.value, Frame.sibling, List.nodup_cons, List.mem_cons, List.mem_append,
      not_or] at nodup notN notS
    obtain ⟨⟨notSibling, notRest⟩, _⟩ := nodup
    refine ⟨(heap₂.modify m fun level => { level with leftChild := some n }).modify n
      fun level => { level with parent := some m }, some m, some t, ?_, ?_, ?_, ?_, ?_⟩
    · have storeS : (store (some s) fun level => { level with rightChild := some t }).run heap = some ((), heap₁) := by
        simp [atS, heap₁]
      have storeT : (store (some t) fun level => { level with parent := some s }).run heap₁ = some ((), heap₂) := by
        simp [heap₁, heap₂, read_modify, notTop.symm, atT]
      have atN₂ : (heap₂.modify m fun level => { level with leftChild := some n }).read n = some x := by
        simp [heap₂, heap₁, read_modify, neTop, ne, notN.1, atN]
      simp only [descend, Option.some.injEq, notTop, decide_false, Bool.false_eq_true, if_false, StateT.run_bind,
        storeS, storeT, Option.bind_eq_bind, Option.bind_some]
      simp only [run_store, read, atN₂, Option.map_some, Option.bind_some]
    · simp [read_modify, ne.symm, notS.1, heap₂, heap₁, notTop, atS]
    · simp [read_modify, notN.1, heap₂, heap₁, neTop, ne, atN]
    · refine ⟨rfl, { level with leftChild := some n }, ?_, rfl, (siblingLinked.modify notSibling _).modify notN.2.1 _,
        (restLinked.modify notRest _).modify notN.2.2 _⟩
      simp [read_modify, Ne.symm notN.1, read]
    · exact (relinked₂.modify (by simp [Frame.value]) fun _ => by rfl).modify (by simp) fun _ => rfl
  · simp [Frame.before] at first

/-- The successor takes over the parent and the left subtree of the node. -/
theorem run_ascend (atS : heap.read s = some y)
    (contextLinked : LinkedContext ok heap context par (some n) none root) (nodup : context.around.Nodup)
    (notN : n ∉ context.around) (notS : s ∉ context.around)
    (leftLinked : LinkedTree ok heap (some n) hole left) (nonempty : left ≠ .nil) (leftNodup : left.inorder.Nodup)
    (leftS : s ∉ left.inorder) (apart : left.inorder.Disjoint context.around) :
    ∃ heap', (ascend (some n) par hole (some s)).run heap = some ((), heap') ∧
      heap'.read s = some { y with parent := par, leftChild := hole } ∧
      LinkedTree ok heap' (some s) hole left ∧
      LinkedContext ok heap' context par (some s) none (if par = none then some s else root) ∧
      Relinked (s :: (left.inorder ++ context.around)) heap heap' := by
  obtain ⟨l, rfl⟩ := leftLinked.exists_root nonempty
  let heap₁ := heap.modify s fun level => { level with parent := par, leftChild := some l }
  let heap₂ := reparented heap₁ (some l) (some s)
  have leftLinked₁ : LinkedTree ok heap₁ (some n) (some l) left := leftLinked.modify leftS _
  have leftLinked₂ : LinkedTree ok heap₂ (some s) (some l) left := leftLinked₁.reparent leftNodup _
  have relinked₂ : Relinked (s :: left.inorder) heap heap₂ :=
    ((Relinked.refl _ heap).modify (by simp) fun _ => by rfl).reparented (fun a isRoot =>
      by simp [leftLinked.root_mem isRoot]) _
  have contextLinked₂ := contextLinked.frame (relinked₂.apart (by simp [notS, apart.symm]))
  obtain ⟨heap₃, run, contextLinked₃, relinked₃⟩ := run_replaceChild contextLinked₂ nodup notN (some s)
  obtain ⟨level, atL⟩ := leftLinked₁.read (leftLinked₁.root_mem rfl)
  have storeL : (store (some l) fun level => { level with parent := some s }).run heap₁ = some ((), heap₂) := by
    rw [run_store, atL]
    rfl
  refine ⟨heap₃, ?_, ?_, leftLinked₂.frame (relinked₃.apart apart), contextLinked₃,
    (relinked₂.mono (by simp)).trans (relinked₃.mono (by simp))⟩
  · have storeS : (store (some s) fun level => { level with parent := par, leftChild := some l }).run heap =
        some ((), heap₁) := by
      rw [run_store, atS]
      rfl
    simp only [ascend, StateT.run_bind, Option.bind_eq_bind, Option.bind_some, storeS, storeL, run]
  · rw [relinked₃.outside s notS, read_reparented leftLinked₁ _ leftS, read_modify_self, atS]
    rfl

/-- The right subtree of the successor ends up below the node, with an exact height there. -/
theorem run_settle (atN : heap.read n = some x) (atS : heap.read s = some y) (ne : n ≠ s)
    (restLinked : LinkedTree ExactHeight heap (some s) hole tree) (nodup : tree.inorder.Nodup)
    (notN : n ∉ tree.inorder) (notS : s ∉ tree.inorder) :
    ∃ heap' height, (settle (some n) (some s) hole).run heap = some ((), heap') ∧
      heap'.read n = some { x with leftChild := none, rightChild := hole, height := height } ∧
      heap'.read s = some { y with height := x.height } ∧
      LinkedTree ExactHeight heap' (some n) hole tree ∧ Relinked (n :: s :: tree.inorder) heap heap' := by
  let heap₁ := heap.modify n fun level => { level with leftChild := none, rightChild := hole }
  have restLinked₁ : LinkedTree ExactHeight heap₁ (some s) hole tree := restLinked.modify notN _
  let heap₂ := reparented heap₁ hole (some n)
  have restLinked₂ : LinkedTree ExactHeight heap₂ (some n) hole tree := restLinked₁.reparent nodup _
  let heap₃ := heap₂.modify s fun level => { level with height := x.height }
  have restLinked₃ : LinkedTree ExactHeight heap₃ (some n) hole tree := restLinked₂.modify notS _
  have atN₂ : heap₂.read n = some { x with leftChild := none, rightChild := hole } := by
    rw [read_reparented restLinked₁ _ notN, read_modify_self, atN]
    rfl
  have atS₂ : heap₂.read s = some y := by
    rw [read_reparented restLinked₁ _ notS, read_modify_of_ne _ _ (Ne.symm ne), atS]
  have atN₃ : heap₃.read n = some { x with leftChild := none, rightChild := hole } :=
    (read_modify_of_ne _ _ ne).trans atN₂
  have atS₃ : heap₃.read s = some { y with height := x.height } := by
    rw [read_modify_self, atS₂]
    rfl
  let height : ℤ := 1 + max ((BinaryTree.nil : BinaryTree ℕ).height : ℤ) tree.height
  refine ⟨heap₃.modify n fun level => { level with height := height }, height, ?_, ?_,
    (read_modify_of_ne _ _ (Ne.symm ne)).trans atS₃, restLinked₃.modify notN _, ?_⟩
  · have store₁ : (store (some n) fun level => { level with leftChild := none, rightChild := hole }).run heap =
        some ((), heap₁) := by
      rw [run_store, atN]
      rfl
    have store₃ : (store (some s) fun level => { level with height := x.height }).run heap₂ = some ((), heap₃) := by
      rw [run_store, atS₂]
      rfl
    simp only [settle, StateT.run_bind, Option.bind_eq_bind, Option.bind_some, store₁, run_setParent restLinked₁]
    change Option.bind ((load (some n)).run heap₂) _ = _
    simp only [run_load, atN₂, Option.map_some, Option.bind_some, store₃]
    exact run_updateHeight atN₃ rfl restLinked₃
  · rw [read_modify_self, atN₃]
    rfl
  · exact ((((Relinked.refl _ heap).modify (by simp) fun _ => by rfl).reparented
      (fun a isRoot => by simp [restLinked₁.root_mem isRoot]) _).modify (by simp) fun _ =>
        by rfl).modify (by simp) fun _ => rfl

/-- The node and its successor change places: the node is left with at most a right child, below a
path that leads through the successor. -/
theorem run_swapWithSuccessor (atN : heap.read n = some x)
    (contextLinked : LinkedContext ExactHeight heap context x.parent (some n) none root)
    (leftLinked : LinkedTree ExactHeight heap (some n) x.leftChild left) (leftNonempty : left ≠ .nil)
    (rightLinked : LinkedTree ExactHeight heap (some n) x.rightChild right) (rightNonempty : right ≠ .nil)
    (nodup : (context.plug (.node n left right)).inorder.Nodup) :
    ∃ heap' root' inner s rest x', (swapWithSuccessor root (some n)).run heap = some (root', heap') ∧
      right = Context.plug inner (.node s .nil rest) ∧ Context.before inner = [] ∧
      heap'.read n = some x' ∧ x'.leftChild = none ∧ payload x' = payload x ∧
      LinkedTree ExactHeight heap' (some n) x'.rightChild rest ∧
      LinkedContext ExactHeight heap' (inner ++ .right left s :: context) x'.parent (some n) none root' ∧
      Relinked (context.plug (.node n left right)).inorder heap heap' := by
  have rightNodup : right.inorder.Nodup :=
    (nodup_inorder_node.mp (Context.nodup_inorder_plug.mp nodup).1).2.1
  have enough : right.height ≤ heap.next + 1 := by
    have := right.height_le_length_inorder
    have := rightLinked.length_le_next rightNodup
    omega
  obtain ⟨inner, s, rest, runLeftmost, rfl, first⟩ := run_leftmost enough rightLinked rightNonempty
  obtain ⟨succPar, hole, ⟨rfl, y, atS, rfl, _, noLeft, restLinked⟩, innerLinked⟩ := rightLinked.split
  -- every address in play, all different
  have parts : (n :: s :: (left.inorder ++ (rest.inorder ++ (Context.around inner ++ context.around)))).Nodup := by
    refine (List.perm_iff_count.mpr fun a => ?_).nodup_iff.mp nodup
    simp only [(Context.inorder_plug_perm _ _).count_eq, inorder_node, inorder_nil, List.count_append, List.count_cons,
      List.nil_append]
    ring
  simp only [List.nodup_cons, List.mem_cons, List.mem_append, not_or, List.nodup_append', List.disjoint_append_right]
    at parts
  obtain ⟨⟨ne, nLeft, nRest, nInner, nContext⟩, ⟨sLeft, sRest, sInner, sContext⟩, leftNodup,
    ⟨restNodup, ⟨innerNodup, contextNodup, innerContext⟩, restInner, restContext⟩, leftRest,
    leftInner, leftContext⟩ := parts
  have inWhole {a : ℕ} : a ∈ (context.plug (.node n left (Context.plug inner (.node s .nil rest)))).inorder ↔
      a = n ∨ a = s ∨ a ∈ left.inorder ∨ a ∈ rest.inorder ∨ a ∈ Context.around inner ∨ a ∈ context.around := by
    simp only [Context.mem_inorder_plug, inorder_node, inorder_nil, List.nil_append, List.mem_append, List.mem_cons]
    clear * - a
    tauto
  obtain ⟨heap₁, runAscend, atS₁, leftLinked₁, contextLinked₁, relinked₁⟩ := run_ascend atS contextLinked contextNodup
    nContext sContext leftLinked leftNonempty leftNodup sLeft leftContext
  have atN₁ : heap₁.read n = some x := (relinked₁.outside n (by simp [ne, nLeft, nContext])).trans atN
  have innerLinked₁ := innerLinked.frame (relinked₁.apart (by simp [sInner, leftInner.symm, innerContext]))
  have restLinked₁ := restLinked.frame (relinked₁.apart (by simp [sRest, leftRest.symm, restContext]))
  obtain ⟨heap₂, par, mid, runDescend, atS₂, atN₂, innerLinked₂, relinked₂⟩ :=
    run_descend atN₁ atS₁ ne innerLinked₁ first innerNodup nInner sInner
  have restLinked₂ := restLinked₁.frame (relinked₂.apart (by simp [nRest, sRest, restInner]))
  have leftLinked₂ := leftLinked₁.frame (relinked₂.apart (by simp [nLeft, sLeft, leftInner]))
  have contextLinked₂ := contextLinked₁.frame (relinked₂.apart (by simp [nContext, sContext, innerContext.symm]))
  obtain ⟨heap₃, height, runSettle, atN₃, atS₃, restLinked₃, relinked₃⟩ :=
    run_settle atN₂ atS₂ ne restLinked₂ restNodup nRest sRest
  refine ⟨heap₃, if x.parent = none then some s else root, inner, s, rest, _, ?_, rfl, first, atN₃, rfl, rfl,
    restLinked₃, ?_, ?_⟩
  · simp only [swapWithSuccessor, StateT.run_bind, StateT.run_get, StateT.run_pure,
      Option.bind_eq_bind, Option.pure_def,
      Option.bind_some, run_load, atN, atS, Option.map_some, runLeftmost, runAscend, runDescend, runSettle]
  · refine linkedContext_append.mpr ⟨some s, mid, ?_, rfl, _, atS₃, rfl, ?_, ?_⟩
    · exact innerLinked₂.frame (relinked₃.apart (by simp [nInner, sInner, restInner.symm]))
    · exact leftLinked₂.frame (relinked₃.apart (by simp [nLeft, sLeft, leftRest]))
    · exact contextLinked₂.frame (relinked₃.apart (by simp [nContext, sContext, restContext.symm]))
  · refine ((relinked₁.mono ?_).trans (relinked₂.mono ?_)).trans (relinked₃.mono ?_)
    all_goals
      intro a member
      simp only [List.mem_cons, List.mem_append] at member
      rw [inWhole]
      clear * - member
      tauto

/-- The only child of a node takes its place. -/
theorem run_spliceOut (atN : heap.read n = some x)
    (contextLinked : LinkedContext ExactHeight heap context x.parent (some n) none root)
    (leftLinked : LinkedTree ExactHeight heap (some n) x.leftChild left)
    (rightLinked : LinkedTree ExactHeight heap (some n) x.rightChild right) (single : left = .nil ∨ right = .nil)
    (nodup : (context.plug (.node n left right)).inorder.Nodup) (short : context.length ≤ heap.next + 1) :
    ∃ heap' q child, (spliceOut root (some n)).run heap = some (q, heap') ∧
      LinkedTree ExactHeight heap' none q (context.rebuild child) ∧
      (left = .nil ∧ child = right ∨ right = .nil ∧ child = left) ∧
      heap'.read n = some { x with parent := none, leftChild := none, rightChild := none, height := 1 } ∧
      Relinked (context.plug (.node n left right)).inorder heap heap' := by
  obtain ⟨child, p, isChild, childLinked, which⟩ : ∃ child p,
      (if x.rightChild ≠ none then x.rightChild else x.leftChild) = p ∧
      LinkedTree ExactHeight heap (some n) p child ∧ (left = .nil ∧ child = right ∨ right = .nil ∧ child = left) := by
    rcases single with rfl | rfl
    · refine ⟨right, x.rightChild, ?_, rightLinked, .inl ⟨rfl, rfl⟩⟩
      rw [linkedTree_nil] at leftLinked
      by_cases leaf : x.rightChild = none <;> simp [leaf, leftLinked]
    · refine ⟨left, x.leftChild, ?_, leftLinked, .inr ⟨rfl, rfl⟩⟩
      rw [linkedTree_nil] at rightLinked
      simp [rightLinked]
  obtain ⟨nodeNodup, contextNodup, apart⟩ := Context.nodup_inorder_plug.mp nodup
  obtain ⟨leftNodup, rightNodup, notLeft, notRight, _⟩ := nodup_inorder_node.mp nodeNodup
  have childNodup : child.inorder.Nodup := by rcases which with ⟨_, rfl⟩ | ⟨_, rfl⟩ <;> assumption
  have notChild : n ∉ child.inorder := by rcases which with ⟨_, rfl⟩ | ⟨_, rfl⟩ <;> assumption
  have notContext : n ∉ context.around := fun around => apart (by simp) around
  have childApart : child.inorder.Disjoint context.around := by
    simp only [inorder_node, List.disjoint_append_left, List.disjoint_cons_left] at apart
    rcases which with ⟨_, rfl⟩ | ⟨_, rfl⟩
    · exact apart.2.2
    · exact apart.1
  have inWhole {a : ℕ} (member : a = n ∨ a ∈ child.inorder ∨ a ∈ context.around) :
      a ∈ (context.plug (.node n left right)).inorder := by
    simp only [Context.mem_inorder_plug, inorder_node, List.mem_append, List.mem_cons]
    rcases which with ⟨_, rfl⟩ | ⟨_, rfl⟩ <;> clear * - member <;> tauto
  obtain ⟨heap₁, runReplace, contextLinked₁, relinked₁⟩ := run_replaceChild contextLinked contextNodup notContext p
  have childLinked₁ := childLinked.frame (relinked₁.apart childApart)
  let heap₂ := reparented heap₁ p x.parent
  have childLinked₂ : LinkedTree ExactHeight heap₂ x.parent p child := childLinked₁.reparent childNodup _
  have relinked₂ : Relinked (child.inorder ++ context.around) heap heap₂ :=
    (relinked₁.mono (by simp)).reparented (fun a isRoot => by simp [childLinked.root_mem isRoot]) _
  have contextLinked₂ : LinkedContext ExactHeight heap₂ context x.parent p none (if x.parent = none then p else root) :=
    contextLinked₁.frame fun a around => read_reparented childLinked₁ _ fun inside => childApart inside around
  let heap₃ := heap₂.modify n fun level =>
    { level with parent := none, leftChild := none, rightChild := none, height := 1 }
  have atN₂ : heap₂.read n = some x := (relinked₂.outside n (by simp [notChild, notContext])).trans atN
  have relinked₃ : Relinked (n :: (child.inorder ++ context.around)) heap heap₃ :=
    (relinked₂.mono (by simp)).modify (by simp) fun _ => rfl
  have shortEnough : context.length ≤ heap₃.next + 1 := relinked₃.next ▸ short
  obtain ⟨heap₄, q, runRebalance, linked₄, relinked₄⟩ := run_rebalanceUp shortEnough
    (childLinked₂.modify notChild _) (contextLinked₂.modify notContext _)
    (Context.nodup_inorder_plug.mpr ⟨childNodup, contextNodup, childApart⟩)
  refine ⟨heap₄, q, child, ?_, linked₄, which, ?_, ?_⟩
  · have storeN : (store (some n) fun level =>
        { level with parent := none, leftChild := none, rightChild := none, height := 1 }).run heap₂ =
        some ((), heap₃) := by
      rw [run_store, atN₂]
      rfl
    simp only [spliceOut, StateT.run_bind, StateT.run_get, Option.bind_eq_bind, Option.pure_def, Option.bind_some,
      run_load, atN, Option.map_some, isChild, runReplace, run_setParent childLinked₁]
    change Option.bind (StateT.run (store (some n) _) heap₂) _ = _
    rw [storeN]
    exact runRebalance
  · rw [relinked₄.outside n (by simp [Context.mem_inorder_plug, notChild, notContext]), read_modify_self, atN₂]
    rfl
  · refine (relinked₃.mono ?_).trans (relinked₄.mono ?_)
    · intro a member
      exact inWhole (by simpa using member)
    · intro a member
      exact inWhole (.inr (Context.mem_inorder_plug.mp member))

/-- `avl_remove` takes exactly the one node out of a balanced tree, and detaches it. -/
theorem run_avlRemove (treeLinked : LinkedTree ExactHeight heap none root tree) (nodup : tree.inorder.Nodup)
    (balanced : tree.Balanced) (member : n ∈ tree.inorder) (atN : heap.read n = some x) :
    ∃ heap' q tree' front back, (avlRemove root (some n)).run heap = some (q, heap') ∧
      LinkedTree ExactHeight heap' none q tree' ∧ tree'.Balanced ∧
      tree.inorder = front ++ n :: back ∧ tree'.inorder = front ++ back ∧
      heap'.read n = some { x with parent := none, leftChild := none, rightChild := none, height := 1 } ∧
      Relinked tree.inorder heap heap' := by
  have few := treeLinked.length_le_next nodup
  obtain ⟨context, left, right, rfl⟩ := Context.exists_of_mem_inorder member
  have short := Context.length_le_length_inorder_plug context (.node n left right)
  obtain ⟨_, _, ⟨rfl, x, read, rfl, _, leftLinked, rightLinked⟩, contextLinked⟩ := treeLinked.split
  obtain rfl : x = _ := Option.some.inj (read.symm.trans atN)
  by_cases single : left = .nil ∨ right = .nil
  · obtain ⟨heap', q, child, run, linked, which, detached, relinked⟩ :=
      run_spliceOut atN contextLinked leftLinked rightLinked single nodup (by omega)
    refine ⟨heap', q, _, context.before ++ left.inorder, right.inorder ++ context.after, ?_, linked, ?_, ?_, ?_,
      detached, relinked⟩
    · have notBoth : ¬(x.leftChild ≠ none ∧ x.rightChild ≠ none) := by
        rcases single with rfl | rfl
        · exact fun both => both.1 leftLinked
        · exact fun both => both.2 rightLinked
      simp only [avlRemove, StateT.run_bind, run_load, atN, Option.map_some, Option.bind_eq_bind, Option.bind_some,
        if_neg notBoth, run]
    · have node := Context.balanced_of_balanced_plug balanced
      simp only [balanced_node] at node
      refine Context.balanced_rebuild balanced ?_ ?_ ?_ <;> rcases which with ⟨rfl, rfl⟩ | ⟨rfl, rfl⟩ <;>
        simp [BinaryTree.height] at node ⊢ <;> clear * - node <;> tauto
    · simp [Context.inorder_plug]
    · rcases which with ⟨rfl, rfl⟩ | ⟨rfl, rfl⟩ <;> simp [Context.inorder_rebuild]
  · rw [not_or] at single
    obtain ⟨heap₁, root₁, inner, s, rest, x₁, runSwap, rfl, first, atN₁, noLeft, kept,
        restLinked, contextLinked₁, relinked₁⟩ :=
      run_swapWithSuccessor atN contextLinked leftLinked single.1 rightLinked single.2 nodup
    let path : Context ℕ := inner ++ .right left s :: context
    have plugPath (hole : BinaryTree ℕ) :
        Context.plug path hole = context.plug (.node s left (Context.plug inner hole)) := by
      simp [path, Context.plug_append, Frame.plug]
    have samePlaces : (Context.plug path (.node n .nil rest)).inorder.Perm
        (context.plug (.node n left (Context.plug inner (.node s .nil rest)))).inorder := by
      refine List.perm_iff_count.mpr fun a => ?_
      simp only [plugPath, (Context.inorder_plug_perm _ _).count_eq, inorder_node, inorder_nil, List.count_append,
        List.count_cons, List.nil_append]
      ring
    have nodup₁ := samePlaces.nodup_iff.mpr nodup
    have balanced₁ : (Context.plug path (.node n .nil rest)).Balanced := by
      have sameHeight :=
        Context.height_plug_congr inner (show (node n nil rest).height = (node s nil rest).height from rfl)
      have sameBalance : (Context.plug inner (.node s .nil rest)).Balanced →
          (Context.plug inner (.node n .nil rest)).Balanced :=
        Context.balanced_plug_congr rfl id
      rw [plugPath]
      refine Context.balanced_plug_congr ?_ ?_ balanced
      · simp only [BinaryTree.height, sameHeight]
      · simp only [balanced_node, sameHeight]
        tauto
    have shortPath := Context.length_le_length_inorder_plug path (.node n .nil rest)
    rw [samePlaces.length_eq] at shortPath
    obtain ⟨heap₂, q, child, runSplice, linked, which, detached, relinked₂⟩ := run_spliceOut atN₁ contextLinked₁
      (linkedTree_nil.mpr noLeft) restLinked (.inl rfl) nodup₁
      (show path.length ≤ heap₁.next + 1 by have := relinked₁.next; omega)
    obtain rfl : child = rest := by
      rcases which with ⟨_, rfl⟩ | ⟨rfl, rfl⟩ <;> rfl
    have restBalanced := Context.balanced_of_balanced_plug balanced₁
    simp only [balanced_node] at restBalanced
    refine ⟨heap₂, q, _, context.before ++ left.inorder,
      s :: (child.inorder ++ Context.after inner ++ context.after), ?_,
      linked, ?_, ?_, ?_, ?_, ?_⟩
    · have both : x.leftChild ≠ none ∧ x.rightChild ≠ none := by
        obtain ⟨l, toL⟩ := leftLinked.exists_root single.1
        obtain ⟨r, toR⟩ := rightLinked.exists_root single.2
        simp [toL, toR]
      simp only [avlRemove, StateT.run_bind, run_load, atN, Option.map_some, Option.bind_eq_bind, Option.bind_some,
        if_pos both, runSwap, runSplice]
    · exact Context.balanced_rebuild balanced₁ restBalanced.2.1 (by simp [BinaryTree.height]; omega)
        (by simp [BinaryTree.height])
    · simp [Context.inorder_plug, first]
    · simp [Context.inorder_rebuild, Context.before_append, Context.after_append, Frame.before, Frame.after, first]
    · simp only [payload, Prod.mk.injEq] at kept
      rw [detached]
      simp only [kept]
    · refine relinked₁.trans (relinked₂.mono fun a inside => ?_)
      exact samePlaces.subset inside

end BackTester.PriceLevel
