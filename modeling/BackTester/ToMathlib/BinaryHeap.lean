import BackTester.ToMathlib.PriorityQueue
import Mathlib.Data.List.Induction
import Mathlib.Tactic.Cases

/-! # Binary heaps in an array

The heap algorithms of the standard library over a vector: the children of index `i` are `2 * i + 1`
and `2 * i + 2`. A push appends a hole and lets the hole rise, moving parents down, until the value
fits. A pop takes the first element, lets the hole at the front sink to a leaf, moving the greater
child up each time, and then lets it rise for what was the last element.
-/

/-- A comparison of keys by a linear order on what it looks at. -/
class StrictWeakLess {Key : Type*} (less : Key → Key → Bool) : Prop where
  asymm {a b : Key} (isLess : less a b = true) : less b a = false
  trans {a b c : Key} (ab : less b a = false) (bc : less c b = false) : less c a = false

namespace BinaryHeap

variable {Key : Type*} (less : Key → Key → Bool)

/-- The hole rises while the parent is less than the value. -/
def pushHeap : ℕ → List Key → ℕ → Key → List Key
  | 0, heap, hole, value => heap.set hole value
  | fuel + 1, heap, hole, value =>
    match heap[(hole - 1) / 2]? with
    | some parent =>
      if 0 < hole ∧ less parent value then pushHeap fuel (heap.set hole parent) ((hole - 1) / 2) value
      else heap.set hole value
    | none => heap.set hole value

/-- The second child, unless it is less than the first. -/
def greaterChild (heap : List Key) (hole : ℕ) : ℕ :=
  match heap[2 * (hole + 1)]?, heap[2 * (hole + 1) - 1]? with
  | some second, some first => if less second first then 2 * (hole + 1) - 1 else 2 * (hole + 1)
  | _, _ => 2 * (hole + 1)

/-- The element at `child` moves up into the hole. -/
def moveUp (heap : List Key) (hole child : ℕ) : List Key :=
  match heap[child]? with
  | some key => heap.set hole key
  | none => heap

/-- The hole sinks while it has two children, and once more if it has one. -/
def sink : ℕ → List Key → ℕ → List Key × ℕ
  | 0, heap, hole => (heap, hole)
  | fuel + 1, heap, hole =>
    if hole < (heap.length - 1) / 2 then
      sink fuel (moveUp heap hole (greaterChild less heap hole)) (greaterChild less heap hole)
    else if heap.length % 2 = 0 ∧ hole = (heap.length - 2) / 2 then
      (moveUp heap hole (2 * (hole + 1) - 1), 2 * (hole + 1) - 1)
    else (heap, hole)

def adjustHeap (heap : List Key) (hole : ℕ) (value : Key) : List Key :=
  pushHeap less heap.length (sink less heap.length heap hole).1 (sink less heap.length heap hole).2 value

/-- `push_heap` after `push_back`. -/
def pushBack (heap : List Key) (value : Key) : List Key :=
  pushHeap less (heap.length + 1) (heap ++ [value]) heap.length value

/-- `pop_heap` before `pop_back`. -/
def popBack (heap : List Key) : List Key :=
  match heap.getLast? with
  | some value => if heap.length > 1 then adjustHeap less heap.dropLast 0 value else heap.dropLast
  | none => []

/-- No parent is less than its child. -/
def Ordered (heap : List Key) : Prop :=
  ∀ i parent child, 0 < i → heap[(i - 1) / 2]? = some parent → heap[i]? = some child → less parent child = false

/-- The order around a hole: right where it is not touched, and past it from its parent to its children. -/
structure OrderedAround (heap : List Key) (hole : ℕ) : Prop where
  apart : ∀ i parent child, 0 < i → i ≠ hole → (i - 1) / 2 ≠ hole →
    heap[(i - 1) / 2]? = some parent → heap[i]? = some child → less parent child = false
  past : ∀ i parent child, 0 < hole → 0 < i → (i - 1) / 2 = hole →
    heap[(hole - 1) / 2]? = some parent → heap[i]? = some child → less parent child = false

/-- Nothing under the hole is greater than the value. -/
def Covers (heap : List Key) (hole : ℕ) (value : Key) : Prop :=
  ∀ i child, 0 < i → (i - 1) / 2 = hole → heap[i]? = some child → less value child = false

variable {less} {heap : List Key} {hole : ℕ} {value : Key}

/-- Moving an element into the hole moves the hole to where it was. -/
theorem set_set_perm {i : ℕ} {key : Key} (inside : hole < heap.length) (isKey : heap[i]? = some key)
    (apart : i ≠ hole) :
    ((heap.set hole key).set i value).Perm (heap.set hole value) := by
  classical
  obtain ⟨within, rfl⟩ := List.getElem?_eq_some_iff.mp isKey
  rw [List.perm_iff_count]
  intro other
  have kept : i < (heap.set hole heap[i]).length := by rwa [List.length_set]
  have moved : (heap.set hole heap[i])[i] = heap[i] := List.getElem_set_of_ne apart.symm _ _
  rw [List.count_set kept, List.count_set inside, List.count_set inside, moved]
  omega

/-- A hole that the value fits into ends the rise. -/
theorem OrderedAround.fill [StrictWeakLess less] (around : OrderedAround less heap hole) (inside : hole < heap.length)
    (covers : Covers less heap hole value)
    (fits : ∀ parent, 0 < hole → heap[(hole - 1) / 2]? = some parent → less parent value = false) :
    Ordered less (heap.set hole value) := by
  intro i parent child positive isParent isChild
  rw [List.getElem?_set] at isParent isChild
  split at isChild
  · next here =>
    subst here
    rw [Option.some_inj] at isChild
    subst isChild
    rw [if_neg (by omega)] at isParent
    exact fits parent positive isParent
  · next apart =>
    split at isParent
    · next above =>
      rw [Option.some_inj] at isParent
      subst isParent
      exact covers i child positive above.symm isChild
    · next above => exact around.apart i parent child positive (Ne.symm apart) (Ne.symm above) isParent isChild

/-- The parent of the hole moves down into it. -/
theorem OrderedAround.rise [StrictWeakLess less] {parent : Key} (around : OrderedAround less heap hole)
    (positive : 0 < hole)
    (inside : hole < heap.length) (isParent : heap[(hole - 1) / 2]? = some parent) (isLess : less parent value = true) :
    OrderedAround less (heap.set hole parent) ((hole - 1) / 2) ∧
      Covers less (heap.set hole parent) ((hole - 1) / 2) value := by
  have value_parent := StrictWeakLess.asymm isLess
  have parent_grand (grand : Key) (deep : 0 < (hole - 1) / 2) (isGrand : heap[((hole - 1) / 2 - 1) / 2]? = some grand) :
      less grand parent = false := around.apart _ grand parent deep (by omega) (by omega) isGrand isParent
  refine ⟨⟨?_, ?_⟩, ?_⟩
  · intro i above child isPositive apart differs isAbove isChild
    rw [List.getElem?_set] at isAbove isChild
    have notHole : hole ≠ i := by
      rintro rfl
      exact differs rfl
    rw [if_neg notHole] at isChild
    split at isAbove
    · next under =>
      rw [Option.some_inj] at isAbove
      subst isAbove
      exact around.past i parent child positive isPositive under.symm isParent isChild
    · next elsewhere => exact around.apart i above child isPositive notHole.symm (Ne.symm elsewhere) isAbove isChild
  · intro i above child deep isPositive isUnder isAbove isChild
    rw [List.getElem?_set] at isAbove isChild
    rw [if_neg (by omega)] at isAbove
    have grand := parent_grand above deep isAbove
    split at isChild
    · rw [Option.some_inj] at isChild
      subst isChild
      exact grand
    · next apart =>
      have sibling := around.apart i parent child isPositive (Ne.symm apart) (by omega) (isUnder ▸ isParent) isChild
      exact StrictWeakLess.trans sibling grand
  · intro i child isPositive isUnder isChild
    rw [List.getElem?_set] at isChild
    split at isChild
    · rw [Option.some_inj] at isChild
      subst isChild
      exact value_parent
    · next apart =>
      have sibling := around.apart i parent child isPositive (Ne.symm apart) (by omega) (isUnder ▸ isParent) isChild
      exact StrictWeakLess.trans sibling value_parent

/-- A child that is not less than its sibling moves up. -/
theorem OrderedAround.sink {child : ℕ} {key : Key} (around : OrderedAround less heap hole) (inside : hole < heap.length)
    (isChild : child = 2 * hole + 1 ∨ child = 2 * hole + 2) (isKey : heap[child]? = some key)
    (greatest : ∀ i other, 0 < i → (i - 1) / 2 = hole → heap[i]? = some other → less key other = false) :
    OrderedAround less (heap.set hole key) child := by
  constructor
  · intro i parent below positive apart differs isParent isBelow
    rw [List.getElem?_set] at isParent isBelow
    split at isBelow
    · next here =>
      subst here
      rw [Option.some_inj] at isBelow
      subst isBelow
      rw [if_neg (by omega)] at isParent
      exact around.past child parent key positive (by omega) (by omega) isParent isKey
    · next notHole =>
      split at isParent
      · next under =>
        rw [Option.some_inj] at isParent
        subst isParent
        exact greatest i below positive under.symm isBelow
      · next elsewhere =>
          exact around.apart i parent below positive (Ne.symm notHole) (Ne.symm elsewhere) isParent isBelow
  · intro i parent below positive isPositive isUnder isParent isBelow
    rw [List.getElem?_set] at isParent isBelow
    have isHole : hole = (child - 1) / 2 := by omega
    rw [if_pos isHole, if_pos inside, Option.some_inj] at isParent
    subst isParent
    rw [if_neg (by omega)] at isBelow
    exact around.apart i key below isPositive (by omega) (by omega) (isUnder ▸ isKey) isBelow

variable [StrictWeakLess less]

theorem less_self (key : Key) : less key key = false := by
  by_contra isLess
  rw [Bool.not_eq_false] at isLess
  rw [StrictWeakLess.asymm isLess] at isLess
  contradiction

/-- A rising hole ends in a heap with the value in it. -/
theorem ordered_pushHeap (fuel : ℕ) (enough : hole ≤ fuel) (around : OrderedAround less heap hole)
    (inside : hole < heap.length) (covers : Covers less heap hole value) :
    Ordered less (pushHeap less fuel heap hole value) ∧
      (pushHeap less fuel heap hole value).Perm (heap.set hole value) := by
  induction fuel generalizing heap hole with
  | zero =>
    refine ⟨around.fill inside covers ?_, List.Perm.refl _⟩
    intro parent positive
    omega
  | succ fuel ih =>
    unfold pushHeap
    have within : (hole - 1) / 2 < heap.length := by omega
    have isParent := List.getElem?_eq_getElem within
    rw [isParent]
    dsimp only
    split
    · next rises =>
      obtain ⟨around', covers'⟩ := around.rise rises.1 inside isParent rises.2
      obtain ⟨ordered, perm⟩ := ih (by omega) around' (by rwa [List.length_set]) covers'
      exact ⟨ordered, perm.trans (set_set_perm inside isParent (by omega))⟩
    · next stops =>
      refine ⟨around.fill inside covers ?_, List.Perm.refl _⟩
      intro parent positive isAbove
      rw [isParent, Option.some_inj] at isAbove
      subst isAbove
      rw [not_and, Bool.not_eq_true] at stops
      exact stops positive

/-- The child that moves up is one of the two, and not less than the other. -/
theorem greaterChild_spec (both : hole < (heap.length - 1) / 2) : ∃ key,
    (greaterChild less heap hole = 2 * hole + 1 ∨ greaterChild less heap hole = 2 * hole + 2) ∧
    heap[greaterChild less heap hole]? = some key ∧
    ∀ i other, 0 < i → (i - 1) / 2 = hole → heap[i]? = some other → less key other = false := by
  have within1 : 2 * (hole + 1) - 1 < heap.length := by omega
  have within2 : 2 * (hole + 1) < heap.length := by omega
  have isFirst := List.getElem?_eq_getElem within1
  have isSecond := List.getElem?_eq_getElem within2
  have only (i : ℕ) (positive : 0 < i) (isUnder : (i - 1) / 2 = hole) :
      i = 2 * (hole + 1) - 1 ∨ i = 2 * (hole + 1) := by omega
  unfold greaterChild
  rw [isFirst, isSecond]
  dsimp only
  split
  · next isLess =>
    refine ⟨_, .inl (by omega), isFirst, fun i other positive isUnder isOther => ?_⟩
    rcases only i positive isUnder with rfl | rfl
    · rw [isFirst, Option.some_inj] at isOther
      rw [← isOther]
      exact less_self _
    · rw [isSecond, Option.some_inj] at isOther
      rw [← isOther]
      exact StrictWeakLess.asymm isLess
  · next notLess =>
    rw [Bool.not_eq_true] at notLess
    refine ⟨_, .inr (by omega), isSecond, fun i other positive isUnder isOther => ?_⟩
    rcases only i positive isUnder with rfl | rfl
    · rw [isFirst, Option.some_inj] at isOther
      rw [← isOther]
      exact notLess
    · rw [isSecond, Option.some_inj] at isOther
      rw [← isOther]
      exact less_self _

/-- The hole sinks to a leaf. -/
theorem sink_spec (fuel : ℕ) (enough : heap.length ≤ fuel + hole) (around : OrderedAround less heap hole)
    (inside : hole < heap.length) :
    OrderedAround less (sink less fuel heap hole).1 (sink less fuel heap hole).2 ∧
    (sink less fuel heap hole).1.length = heap.length ∧ (sink less fuel heap hole).2 < heap.length ∧
    heap.length ≤ 2 * (sink less fuel heap hole).2 + 1 ∧
    ∀ value, ((sink less fuel heap hole).1.set (sink less fuel heap hole).2 value).Perm (heap.set hole value) := by
  induction fuel generalizing heap hole with
  | zero => omega
  | succ fuel ih =>
    unfold sink
    split
    · next both =>
      obtain ⟨key, isChild, isKey, greatest⟩ := @greaterChild_spec _ less _ _ _ both
      generalize greaterChild less heap hole = child at isChild isKey
      have moved : moveUp heap hole child = heap.set hole key := by
        unfold moveUp
        rw [isKey]
      have lower := around.sink inside isChild isKey greatest
      have within : child < heap.length := (List.getElem?_eq_some_iff.mp isKey).1
      rw [moved]
      obtain ⟨around', length, inside', leaf, perm⟩ :=
        ih (by rw [List.length_set]; omega) lower (by rwa [List.length_set])
      rw [List.length_set] at length inside' leaf
      exact ⟨around', length, inside', leaf, fun value => (perm value).trans (set_set_perm inside isKey (by omega))⟩
    · next notBoth =>
      split
      · next one =>
        have within : 2 * (hole + 1) - 1 < heap.length := by omega
        have isKey := List.getElem?_eq_getElem within
        have moved : moveUp heap hole (2 * (hole + 1) - 1) = heap.set hole heap[2 * (hole + 1) - 1] := by
          unfold moveUp
          rw [isKey]
        have lower := around.sink inside (.inl (by omega)) isKey fun i other positive isUnder isOther => by
          have short : i < heap.length := (List.getElem?_eq_some_iff.mp isOther).1
          obtain rfl : i = 2 * (hole + 1) - 1 := by omega
          rw [isKey, Option.some_inj] at isOther
          rw [← isOther]
          exact less_self _
        rw [moved]
        refine ⟨lower, List.length_set .., within, by omega, fun value => set_set_perm inside isKey (by omega)⟩
      · next none =>
        refine ⟨around, rfl, inside, ?_, fun value => List.Perm.refl _⟩
        omega

theorem pushBack_spec (ordered : Ordered less heap) (value : Key) :
    Ordered less (pushBack less heap value) ∧ (pushBack less heap value).Perm (value :: heap) := by
  have length : (heap ++ [value]).length = heap.length + 1 := by simp
  have beyond (i : ℕ) (child : Key) (isUnder : (i - 1) / 2 = heap.length) (positive : 0 < i)
      (isChild : (heap ++ [value])[i]? = some child) : False := by
    have := (List.getElem?_eq_some_iff.mp isChild).1
    omega
  have around : OrderedAround less (heap ++ [value]) heap.length := by
    constructor
    · intro i parent child positive apart _ isParent isChild
      have short := (List.getElem?_eq_some_iff.mp isChild).1
      rw [List.getElem?_append_left (by omega)] at isParent isChild
      exact ordered i parent child positive isParent isChild
    · intro i parent child _ positive isUnder _ isChild
      exact (beyond i child isUnder positive isChild).elim
  have covers : Covers less (heap ++ [value]) heap.length value := fun i child positive isUnder isChild =>
    (beyond i child isUnder positive isChild).elim
  obtain ⟨isOrdered, perm⟩ := ordered_pushHeap (heap.length + 1) (Nat.le_succ _) around (by omega) covers
  refine ⟨isOrdered, perm.trans ?_⟩
  rw [List.set_append_right _ _ (le_refl _), Nat.sub_self, List.set_cons_zero]
  exact List.perm_append_singleton value heap

theorem popBack_spec {first : Key} {rest : List Key} (ordered : Ordered less (first :: rest)) :
    Ordered less (popBack less (first :: rest)) ∧ (popBack less (first :: rest)).Perm rest := by
  obtain rfl | ⟨rest, value, rfl⟩ := List.eq_nil_or_concat' rest
  · refine ⟨?_, List.Perm.refl _⟩
    intro i parent child _ isParent
    contradiction
  · have isLast : (first :: (rest ++ [value])).getLast? = some value := by
      rw [← List.cons_append]
      exact List.getLast?_concat
    have isFront : (first :: (rest ++ [value])).dropLast = first :: rest := by
      rw [← List.cons_append]
      exact List.dropLast_concat
    have many : (first :: (rest ++ [value])).length > 1 := by simp
    have front (i : ℕ) (key : Key) (isKey : (first :: rest)[i]? = some key) :
        (first :: (rest ++ [value]))[i]? = some key := by
      rw [← List.cons_append, List.getElem?_append_left (List.getElem?_eq_some_iff.mp isKey).1, isKey]
    have around : OrderedAround less (first :: rest) 0 := by
      constructor
      · intro i parent child positive _ _ isParent isChild
        exact ordered i parent child positive (front _ _ isParent) (front _ _ isChild)
      · intro i parent child positive
        exact absurd positive (lt_irrefl 0)
    obtain ⟨around', length, inside, leaf, perm⟩ :=
      sink_spec (first :: rest).length (le_refl _) around (by rw [List.length_cons]; omega)
    have covers : Covers less (sink less (first :: rest).length (first :: rest) 0).1
        (sink less (first :: rest).length (first :: rest) 0).2 value := by
      intro i child positive isUnder isChild
      have := (List.getElem?_eq_some_iff.mp isChild).1
      omega
    have popped : popBack less (first :: (rest ++ [value])) = adjustHeap less (first :: rest) 0 value := by
      unfold popBack
      rw [isLast, isFront]
      exact if_pos many
    obtain ⟨isOrdered, perm'⟩ := ordered_pushHeap (first :: rest).length inside.le around' (by rwa [length]) covers
    rw [popped]
    refine ⟨isOrdered, (perm'.trans (perm value)).trans ?_⟩
    rw [List.set_cons_zero]
    exact (List.perm_append_singleton value rest).symm

/-- The first element is greatest. -/
theorem not_less_first {first key : Key} (ordered : Ordered less heap) (isFirst : heap.head? = some first) {i : ℕ}
    (isKey : heap[i]? = some key) : less first key = false := by
  rw [List.head?_eq_getElem?] at isFirst
  induction i using Nat.strong_induction_on generalizing key with
  | _ i ih =>
    rcases Nat.eq_zero_or_pos i with rfl | positive
    · rw [isFirst, Option.some_inj] at isKey
      rw [← isKey]
      exact less_self _
    · have within : (i - 1) / 2 < heap.length := by
        have := (List.getElem?_eq_some_iff.mp isKey).1
        omega
      have isParent := List.getElem?_eq_getElem within
      exact StrictWeakLess.trans (ordered i _ key positive isParent isKey) (ih _ (by omega) isParent)

end BinaryHeap

/-- A vector that the heap algorithms keep in order. -/
structure BinaryHeap {Key : Type*} (less : Key → Key → Bool) where
  vector : List Key
  ordered : BinaryHeap.Ordered less vector

instance {Key : Type*} {less : Key → Key → Bool} [StrictWeakLess less] : PriorityQueue (BinaryHeap less) less where
  empty := ⟨[], fun _ _ _ _ isParent => by contradiction⟩
  push heap key := ⟨BinaryHeap.pushBack less heap.vector key, (BinaryHeap.pushBack_spec heap.ordered key).1⟩
  top heap := heap.vector.head?
  pop heap :=
    ⟨BinaryHeap.popBack less heap.vector, by
      obtain ⟨vector, ordered⟩ := heap
      cases vector with
      | nil => exact ordered
      | cons first rest => exact (BinaryHeap.popBack_spec ordered).1⟩
  keys heap := heap.vector
  keys_empty := rfl
  keys_push heap key := Multiset.coe_eq_coe.mpr (BinaryHeap.pushBack_spec heap.ordered key).2
  keys_of_top_none {heap} none := by
    rw [List.head?_eq_none_iff] at none
    rw [none]
    rfl
  keys_pop {heap key} isTop := by
    obtain ⟨vector, ordered⟩ := heap
    cases vector with
    | nil => contradiction
    | cons first rest =>
      obtain rfl := Option.some.inj isTop
      exact Multiset.coe_eq_coe.mpr ((BinaryHeap.popBack_spec ordered).2.symm.cons first)
  not_less_top {heap key other} isTop isIn := by
    obtain ⟨i, isOther⟩ := List.mem_iff_getElem?.mp isIn
    exact BinaryHeap.not_less_first heap.ordered isTop isOther
