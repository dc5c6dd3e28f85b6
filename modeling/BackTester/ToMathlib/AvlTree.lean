import Mathlib.Data.Nat.Fib.Basic
import Mathlib.Data.Tree.Basic
import Mathlib.Tactic

/-! # Height-balanced binary trees and their zippers

Mathlib's `BinaryTree` supplies nodes and heights. Added here are the in-order sequence, the
AVL balance condition, the rotations that restore it at one node, and the path from a hole to the
root as a list of frames. Restoring the balance frame by frame along that path is the whole of AVL
insertion and deletion: a subtree whose height changed by at most one, put into the hole of a
balanced tree, leaves every frame with a height change of at most one in turn.
-/

namespace BinaryTree

variable {α β : Type*}

/-- Values in symmetric order. -/
def inorder : BinaryTree α → List α
  | nil => []
  | node value left right => left.inorder ++ value :: right.inorder

@[simp] theorem inorder_nil : (nil : BinaryTree α).inorder = [] := rfl

@[simp] theorem inorder_node (value : α) (left right : BinaryTree α) :
    (node value left right).inorder = left.inorder ++ value :: right.inorder := rfl

theorem nodup_inorder_node {value : α} {left right : BinaryTree α} :
    (node value left right).inorder.Nodup ↔ left.inorder.Nodup ∧ right.inorder.Nodup ∧
      value ∉ left.inorder ∧ value ∉ right.inorder ∧ left.inorder.Disjoint right.inorder := by
  simp only [inorder_node, List.nodup_append', List.nodup_cons, List.disjoint_cons_right]
  tauto

theorem ne_nil_of_inorder_eq {tree other : BinaryTree α} (same : tree.inorder = other.inorder)
    (nonempty : other ≠ nil) : tree ≠ nil := by
  rintro rfl
  cases other <;> simp_all

theorem height_le_length_inorder (tree : BinaryTree α) : tree.height ≤ tree.inorder.length := by
  induction tree with
  | nil => rfl
  | node value left right ihLeft ihRight =>
    simp only [inorder_node, List.length_append, List.length_cons, height]
    omega

/-- Sibling heights differ by at most one, everywhere. -/
def Balanced : BinaryTree α → Prop
  | nil => True
  | node _ left right =>
    left.Balanced ∧ right.Balanced ∧ left.height ≤ right.height + 1 ∧ right.height ≤ left.height + 1

@[simp] theorem balanced_nil : (nil : BinaryTree α).Balanced := trivial

@[simp] theorem balanced_node (value : α) (left right : BinaryTree α) :
    (node value left right).Balanced ↔ left.Balanced ∧ right.Balanced ∧
      left.height ≤ right.height + 1 ∧ right.height ≤ left.height + 1 := Iff.rfl

/-- A balanced tree has no fewer nodes than the Fibonacci tree of its height. -/
theorem Balanced.fib_le {tree : BinaryTree α} (balanced : tree.Balanced) :
    Nat.fib (tree.height + 2) ≤ tree.inorder.length + 1 := by
  induction tree with
  | nil => exact le_refl _
  | node value left right ihLeft ihRight =>
    obtain ⟨leftBalanced, rightBalanced, notLeft, notRight⟩ := balanced
    have leftNodes := ihLeft leftBalanced
    have rightNodes := ihRight rightBalanced
    rw [inorder_node, List.length_append, List.length_cons, height]
    rcases le_total left.height right.height with le | le
    · have higher : Nat.fib (right.height + 1) ≤ Nat.fib (left.height + 2) := Nat.fib_mono (by omega)
      have sum : Nat.fib (right.height + 1 + 2) = Nat.fib (right.height + 1) + Nat.fib (right.height + 2) :=
        Nat.fib_add_two
      rw [max_eq_right le]
      omega
    · have higher : Nat.fib (left.height + 1) ≤ Nat.fib (right.height + 2) := Nat.fib_mono (by omega)
      have sum : Nat.fib (left.height + 1 + 2) = Nat.fib (left.height + 1) + Nat.fib (left.height + 2) :=
        Nat.fib_add_two
      rw [max_eq_left le]
      omega

/-- Left and right exchanged, at every node. -/
def mirror : BinaryTree α → BinaryTree α
  | nil => nil
  | node value left right => node value right.mirror left.mirror

@[simp] theorem mirror_nil : (nil : BinaryTree α).mirror = nil := rfl

@[simp] theorem mirror_node (value : α) (left right : BinaryTree α) :
    (node value left right).mirror = node value right.mirror left.mirror := rfl

@[simp] theorem mirror_mirror (tree : BinaryTree α) : tree.mirror.mirror = tree := by
  induction tree with
  | nil => rfl
  | node value left right ihLeft ihRight => simp only [mirror_node, ihLeft, ihRight]

@[simp] theorem height_mirror (tree : BinaryTree α) : tree.mirror.height = tree.height := by
  induction tree with
  | nil => rfl
  | node value left right ihLeft ihRight => simp only [mirror_node, height, ihLeft, ihRight, max_comm]

@[simp] theorem inorder_mirror (tree : BinaryTree α) : tree.mirror.inorder = tree.inorder.reverse := by
  induction tree with
  | nil => rfl
  | node value left right ihLeft ihRight => simp [ihLeft, ihRight]

@[simp] theorem balanced_mirror (tree : BinaryTree α) : tree.mirror.Balanced ↔ tree.Balanced := by
  induction tree with
  | nil => rfl
  | node value left right ihLeft ihRight =>
    simp only [mirror_node, balanced_node, ihLeft, ihRight, height_mirror]
    tauto

/-- The left child comes up. -/
def rotateRight : BinaryTree α → BinaryTree α
  | node value (node pivot outer inner) right => node pivot outer (node value inner right)
  | tree => tree

/-- The right child comes up. -/
def rotateLeft : BinaryTree α → BinaryTree α
  | node value left (node pivot inner outer) => node pivot (node value left inner) outer
  | tree => tree

@[simp] theorem rotateRight_node (value pivot : α) (outer inner right : BinaryTree α) :
    rotateRight (node value (node pivot outer inner) right) = node pivot outer (node value inner right) := rfl

@[simp] theorem rotateLeft_node (value pivot : α) (left inner outer : BinaryTree α) :
    rotateLeft (node value left (node pivot inner outer)) = node pivot (node value left inner) outer := rfl

@[simp] theorem inorder_rotateRight (tree : BinaryTree α) : tree.rotateRight.inorder = tree.inorder := by
  unfold rotateRight
  split <;> simp

@[simp] theorem inorder_rotateLeft (tree : BinaryTree α) : tree.rotateLeft.inorder = tree.inorder := by
  unfold rotateLeft
  split <;> simp

/-- The right subtree is the higher one. -/
def leansRight : BinaryTree α → Bool
  | nil => false
  | node _ left right => decide (left.height < right.height)

/-- The left subtree is the higher one. -/
def leansLeft : BinaryTree α → Bool
  | nil => false
  | node _ left right => decide (right.height < left.height)

/-- Join two subtrees under a value, with a single or a double rotation where one of them is more
than one level higher than the other. -/
def rebalance (value : α) (left right : BinaryTree α) : BinaryTree α :=
  if right.height + 1 < left.height then
    rotateRight (node value (if left.leansRight then left.rotateLeft else left) right)
  else if left.height + 1 < right.height then
    rotateLeft (node value left (if right.leansLeft then right.rotateRight else right))
  else node value left right

@[simp] theorem inorder_rebalance (value : α) (left right : BinaryTree α) :
    (rebalance value left right).inorder = left.inorder ++ value :: right.inorder := by
  unfold rebalance
  split
  · split <;> simp
  · split
    · split <;> simp
    · rfl

theorem rebalance_of_balanced (value : α) {left right : BinaryTree α}
    (notLeft : left.height ≤ right.height + 1) (notRight : right.height ≤ left.height + 1) :
    rebalance value left right = node value left right := by
  rw [rebalance, if_neg (by omega), if_neg (by omega)]

/-- A left subtree two levels too high: after the rotations the tree is balanced and no higher
than the plain join would have been. -/
theorem rebalance_left_high (value : α) {left right : BinaryTree α} (leftBalanced : left.Balanced)
    (rightBalanced : right.Balanced) (high : left.height = right.height + 2) :
    (rebalance value left right).Balanced ∧ left.height ≤ (rebalance value left right).height ∧
      (rebalance value left right).height ≤ left.height + 1 := by
  rw [rebalance, if_pos (by omega)]
  cases left with
  | nil => simp at high
  | node pivot outer inner =>
    simp only [balanced_node, height] at leftBalanced high
    by_cases leans : outer.height < inner.height
    · rw [if_pos (by simpa only [leansRight, decide_eq_true_eq] using leans)]
      cases inner with
      | nil => simp at leans
      | node middle innerLeft innerRight =>
        simp only [height, balanced_node] at leftBalanced high leans
        simp only [rotateLeft_node, rotateRight_node, balanced_node, height]
        refine ⟨⟨⟨?_, ?_, ?_⟩, ⟨?_, ?_, ?_⟩, ?_⟩, ?_, ?_⟩ <;> first | tauto | omega
    · rw [if_neg (by simpa only [leansRight, decide_eq_true_eq] using leans)]
      simp only [rotateRight_node, balanced_node, height]
      refine ⟨⟨?_, ⟨?_, ?_, ?_⟩, ?_⟩, ?_, ?_⟩ <;> first | tauto | omega

theorem mirror_rotateRight (tree : BinaryTree α) : tree.mirror.rotateRight = tree.rotateLeft.mirror := by
  rcases tree with _ | ⟨_, _, _ | _⟩ <;> rfl

theorem mirror_rotateLeft (tree : BinaryTree α) : tree.mirror.rotateLeft = tree.rotateRight.mirror := by
  rcases tree with _ | ⟨_, _ | _, _⟩ <;> rfl

theorem leansRight_mirror (tree : BinaryTree α) : tree.mirror.leansRight = tree.leansLeft := by
  cases tree <;> simp [leansRight, leansLeft]

/-- Which side is too high decides which rotation applies, so the repair commutes with `mirror`. -/
theorem rebalance_mirror (value : α) {left right : BinaryTree α} (high : left.height + 1 < right.height) :
    rebalance value right.mirror left.mirror = (rebalance value left right).mirror := by
  have notLeft : ¬right.height + 1 < left.height := by omega
  simp only [rebalance, height_mirror, if_pos high, if_neg notLeft, leansRight_mirror,
    ← mirror_rotateRight, mirror_node]
  split <;> simp [mirror_rotateLeft]

/-- The mirror image of `rebalance_left_high`. -/
theorem rebalance_right_high (value : α) {left right : BinaryTree α} (leftBalanced : left.Balanced)
    (rightBalanced : right.Balanced) (high : right.height = left.height + 2) :
    (rebalance value left right).Balanced ∧ right.height ≤ (rebalance value left right).height ∧
      (rebalance value left right).height ≤ right.height + 1 := by
  have mirrored := rebalance_left_high value ((balanced_mirror right).mpr rightBalanced)
    ((balanced_mirror left).mpr leftBalanced) (by simpa using high)
  rw [rebalance_mirror value (by omega)] at mirrored
  simpa only [balanced_mirror, height_mirror] using mirrored

/-- One ancestor of a hole: its value and the subtree on the other side of it. -/
inductive Frame (α : Type*) where
  /-- The hole is the left child. -/
  | left (value : α) (sibling : BinaryTree α)
  /-- The hole is the right child. -/
  | right (sibling : BinaryTree α) (value : α)

namespace Frame

/-- The ancestor's own value. -/
def value : Frame α → α
  | left value _ => value
  | right _ value => value

/-- The subtree beside the hole. -/
def sibling : Frame α → BinaryTree α
  | left _ sibling => sibling
  | right sibling _ => sibling

/-- Put a subtree into the hole. -/
def plug (tree : BinaryTree α) : Frame α → BinaryTree α
  | left value sibling => node value tree sibling
  | right sibling value => node value sibling tree

/-- Put a subtree into the hole and restore the balance at the ancestor. -/
def rebalance (tree : BinaryTree α) : Frame α → BinaryTree α
  | left value sibling => BinaryTree.rebalance value tree sibling
  | right sibling value => BinaryTree.rebalance value sibling tree

/-- What precedes the hole in symmetric order. -/
def before : Frame α → List α
  | left _ _ => []
  | right sibling value => sibling.inorder ++ [value]

/-- What follows the hole in symmetric order. -/
def after : Frame α → List α
  | left value sibling => value :: sibling.inorder
  | right _ _ => []

@[simp] theorem inorder_plug (frame : Frame α) (tree : BinaryTree α) :
    (frame.plug tree).inorder = frame.before ++ tree.inorder ++ frame.after := by
  cases frame <;> simp [plug, before, after]

@[simp] theorem inorder_rebalance (frame : Frame α) (tree : BinaryTree α) :
    (frame.rebalance tree).inorder = frame.before ++ tree.inorder ++ frame.after := by
  cases frame <;> simp [rebalance, before, after]

/-- A height change of at most one in the hole becomes one of at most one at the ancestor. -/
theorem balanced_rebalance (frame : Frame α) {old new : BinaryTree α}
    (balanced : (frame.plug old).Balanced) (newBalanced : new.Balanced)
    (notHigher : new.height ≤ old.height + 1) (notLower : old.height ≤ new.height + 1) :
    (frame.rebalance new).Balanced ∧ (frame.rebalance new).height ≤ (frame.plug old).height + 1 ∧
      (frame.plug old).height ≤ (frame.rebalance new).height + 1 := by
  cases frame with
  | left value sibling =>
    simp only [plug, balanced_node, height] at balanced ⊢
    change (BinaryTree.rebalance value new sibling).Balanced ∧ _
    simp only [rebalance]
    obtain ⟨_, siblingBalanced, leftLow, rightLow⟩ := balanced
    by_cases leftHigh : new.height = sibling.height + 2
    · have := rebalance_left_high value newBalanced siblingBalanced leftHigh
      exact ⟨this.1, by omega, by omega⟩
    by_cases rightHigh : sibling.height = new.height + 2
    · have := rebalance_right_high value newBalanced siblingBalanced rightHigh
      exact ⟨this.1, by omega, by omega⟩
    rw [rebalance_of_balanced value (by omega) (by omega)]
    simp only [balanced_node, height]
    exact ⟨⟨newBalanced, siblingBalanced, by omega, by omega⟩, by omega, by omega⟩
  | right sibling value =>
    simp only [plug, balanced_node, height] at balanced ⊢
    change (BinaryTree.rebalance value sibling new).Balanced ∧ _
    simp only [rebalance]
    obtain ⟨siblingBalanced, _, leftLow, rightLow⟩ := balanced
    by_cases leftHigh : sibling.height = new.height + 2
    · have := rebalance_left_high value siblingBalanced newBalanced leftHigh
      exact ⟨this.1, by omega, by omega⟩
    by_cases rightHigh : new.height = sibling.height + 2
    · have := rebalance_right_high value siblingBalanced newBalanced rightHigh
      exact ⟨this.1, by omega, by omega⟩
    rw [rebalance_of_balanced value (by omega) (by omega)]
    simp only [balanced_node, height]
    exact ⟨⟨siblingBalanced, newBalanced, by omega, by omega⟩, by omega, by omega⟩

end Frame

/-- The ancestors of a hole, the nearest first. -/
abbrev Context (α : Type*) := List (Frame α)

namespace Context

/-- Put a subtree into the hole. -/
def plug (context : Context α) (tree : BinaryTree α) : BinaryTree α :=
  context.foldl (fun tree frame => frame.plug tree) tree

/-- Put a subtree into the hole and restore the balance at every ancestor, upwards. -/
def rebuild (context : Context α) (tree : BinaryTree α) : BinaryTree α :=
  context.foldl (fun tree frame => frame.rebalance tree) tree

/-- What precedes the hole in symmetric order. -/
def before : Context α → List α
  | [] => []
  | frame :: rest => before rest ++ frame.before

/-- What follows the hole in symmetric order. -/
def after : Context α → List α
  | [] => []
  | frame :: rest => frame.after ++ after rest

/-- Every value of the path and beside it, in no particular order. -/
def around : Context α → List α
  | [] => []
  | frame :: rest => frame.value :: (frame.sibling.inorder ++ around rest)

@[simp] theorem around_nil : around ([] : Context α) = [] := rfl

@[simp] theorem around_cons (frame : Frame α) (rest : Context α) :
    around (frame :: rest) = frame.value :: (frame.sibling.inorder ++ around rest) := rfl

@[simp] theorem plug_nil (tree : BinaryTree α) : plug [] tree = tree := rfl

@[simp] theorem plug_cons (frame : Frame α) (rest : Context α) (tree : BinaryTree α) :
    plug (frame :: rest) tree = plug rest (frame.plug tree) := rfl

theorem plug_append (inner outer : Context α) (tree : BinaryTree α) :
    plug (inner ++ outer) tree = plug outer (plug inner tree) := List.foldl_append ..

@[simp] theorem rebuild_nil (tree : BinaryTree α) : rebuild [] tree = tree := rfl

@[simp] theorem rebuild_cons (frame : Frame α) (rest : Context α) (tree : BinaryTree α) :
    rebuild (frame :: rest) tree = rebuild rest (frame.rebalance tree) := rfl

@[simp] theorem before_nil : before ([] : Context α) = [] := rfl

@[simp] theorem after_nil : after ([] : Context α) = [] := rfl

@[simp] theorem before_cons (frame : Frame α) (rest : Context α) :
    before (frame :: rest) = before rest ++ frame.before := rfl

@[simp] theorem after_cons (frame : Frame α) (rest : Context α) :
    after (frame :: rest) = frame.after ++ after rest := rfl

theorem before_append (inner outer : Context α) :
    before (inner ++ outer) = before outer ++ before inner := by
  induction inner with
  | nil => simp
  | cons frame rest ih => simp only [List.cons_append, before_cons, ih, List.append_assoc]

theorem after_append (inner outer : Context α) :
    after (inner ++ outer) = after inner ++ after outer := by
  induction inner with
  | nil => simp
  | cons frame rest ih => simp only [List.cons_append, after_cons, ih, List.append_assoc]

theorem inorder_plug (context : Context α) (tree : BinaryTree α) :
    (plug context tree).inorder = before context ++ tree.inorder ++ after context := by
  induction context generalizing tree with
  | nil => simp
  | cons frame rest ih => simp [ih]

theorem inorder_rebuild (context : Context α) (tree : BinaryTree α) :
    (rebuild context tree).inorder = before context ++ tree.inorder ++ after context := by
  induction context generalizing tree with
  | nil => simp
  | cons frame rest ih => simp [ih]

/-- A whole tree has the values of the subtree in the hole and those around the hole. -/
theorem inorder_plug_perm (context : Context α) (tree : BinaryTree α) :
    (plug context tree).inorder.Perm (tree.inorder ++ around context) := by
  induction context generalizing tree with
  | nil => simp
  | cons frame rest ih =>
    refine (ih _).trans ?_
    rw [around_cons, ← List.cons_append, ← List.append_assoc]
    refine List.Perm.append_right _ ?_
    cases frame with
    | left => exact List.Perm.refl _
    | right sibling value =>
      exact List.perm_middle.trans ((List.perm_append_comm.cons value).trans List.perm_middle.symm)

theorem mem_inorder_plug {context : Context α} {tree : BinaryTree α} {value : α} :
    value ∈ (plug context tree).inorder ↔ value ∈ tree.inorder ∨ value ∈ around context := by
  rw [(inorder_plug_perm context tree).mem_iff, List.mem_append]

theorem nodup_inorder_plug {context : Context α} {tree : BinaryTree α} :
    (plug context tree).inorder.Nodup ↔
      tree.inorder.Nodup ∧ (around context).Nodup ∧ tree.inorder.Disjoint (around context) := by
  rw [(inorder_plug_perm context tree).nodup_iff, List.nodup_append']

theorem mem_around {context : Context α} {value : α} :
    value ∈ around context ↔ value ∈ before context ∨ value ∈ after context := by
  have whole : value ∈ (plug context nil).inorder ↔ _ := mem_inorder_plug
  simpa [inorder_plug] using whole.symm

theorem length_le_length_around (context : Context α) : context.length ≤ (around context).length := by
  induction context with
  | nil => rfl
  | cons frame rest ih =>
    simp only [around_cons, List.length_cons, List.length_append]
    omega

theorem length_le_length_inorder_plug (context : Context α) (tree : BinaryTree α) :
    context.length ≤ (plug context tree).inorder.length := by
  have := length_le_length_around context
  rw [(inorder_plug_perm context tree).length_eq, List.length_append]
  omega

theorem balanced_of_balanced_plug {context : Context α} {tree : BinaryTree α}
    (balanced : (plug context tree).Balanced) : tree.Balanced := by
  induction context generalizing tree with
  | nil => exact balanced
  | cons frame rest ih =>
    have := ih balanced
    cases frame with
    | left => exact this.1
    | right => exact this.2.1

theorem height_plug_congr (context : Context α) {old new : BinaryTree α} (same : new.height = old.height) :
    (plug context new).height = (plug context old).height := by
  induction context generalizing old new with
  | nil => exact same
  | cons frame rest ih =>
    refine ih ?_
    cases frame <;> simp only [Frame.plug, height, same]

/-- Balance is a matter of heights: a balanced subtree as high as the old one keeps it. -/
theorem balanced_plug_congr {context : Context α} {old new : BinaryTree α} (same : new.height = old.height)
    (newBalanced : old.Balanced → new.Balanced) (balanced : (plug context old).Balanced) :
    (plug context new).Balanced := by
  induction context generalizing old new with
  | nil => exact newBalanced balanced
  | cons frame rest ih =>
    refine ih ?_ ?_ balanced
    · cases frame <;> simp only [Frame.plug, height, same]
    · cases frame <;> simp only [Frame.plug, balanced_node, same] <;> tauto

/-- A subtree whose height is within one of what it replaces keeps the whole tree balanced, once
the balance is restored along the path. -/
theorem balanced_rebuild {context : Context α} {old new : BinaryTree α}
    (balanced : (plug context old).Balanced) (newBalanced : new.Balanced)
    (notHigher : new.height ≤ old.height + 1) (notLower : old.height ≤ new.height + 1) :
    (rebuild context new).Balanced := by
  induction context generalizing old new with
  | nil => exact newBalanced
  | cons frame rest ih =>
    have here := frame.balanced_rebalance (balanced_of_balanced_plug balanced) newBalanced notHigher notLower
    exact ih balanced here.1 here.2.1 here.2.2

/-- Every value of a tree is the root of a subtree in some context. -/
theorem exists_of_mem_inorder {tree : BinaryTree α} {value : α} (member : value ∈ tree.inorder) :
    ∃ context left right, tree = plug context (node value left right) := by
  induction tree with
  | nil => simp at member
  | node root left right ihLeft ihRight =>
    simp only [inorder_node, List.mem_append, List.mem_cons] at member
    rcases member with inLeft | rfl | inRight
    · obtain ⟨context, l, r, rfl⟩ := ihLeft inLeft
      exact ⟨context ++ [.left root right], l, r, by rw [plug_append]; rfl⟩
    · exact ⟨[], left, right, rfl⟩
    · obtain ⟨context, l, r, rfl⟩ := ihRight inRight
      exact ⟨context ++ [.right left root], l, r, by rw [plug_append]; rfl⟩

end Context

end BinaryTree
