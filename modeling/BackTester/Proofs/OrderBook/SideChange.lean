import BackTester.Proofs.OrderBook.Represents

/-! # A level joins or leaves a side

The tree, the level map and the best pointer of one side change, and nothing rests at the level that
joins or leaves. The other side and all other levels keep what they say.
-/

namespace BackTester.LimitOrderBook

open BinaryTree Heap PriceLevel

variable {book book' : LimitOrderBook} {live : List Slot} {side other : Side} {tree' : BinaryTree ℕ} {a n : ℕ}
  {trees : Side → BinaryTree ℕ} {spare spare' : Ptr}

/-- A side has another tree after the step, which differs in one level. -/
structure SideChange (book book' : LimitOrderBook) (trees : Side → BinaryTree ℕ) (side : Side) (tree' : BinaryTree ℕ)
    (a : ℕ) : Prop where
  tree : SideTree book' side tree'
  mem : ∀ n ≠ a, n ∈ tree'.inorder ↔ n ∈ (trees side).inorder
  notOther : ∀ other ≠ .none, other ≠ side → a ∉ (trees other).inorder
  payload : ∀ n ≠ a, (book'.priceLevels.read n).map payload = (book.priceLevels.read n).map payload
  outside : ∀ n ≠ a, n ∉ (trees side).inorder → book'.priceLevels.read n = book.priceLevels.read n
  sides : ∀ other ≠ .none, other ≠ side → book'.sideFor other = book.sideFor other
  orders : book'.orders = book.orders
  entries : book'.orderEntries = book.orderEntries

namespace SideChange

variable (change : SideChange book book' trees side tree' a)
include change

theorem trees_of_ne (represents : Represents book live trees spare) (sided : side ≠ .none) (otherSided : other ≠ .none)
    (different : other ≠ side) : SideTree book' other (trees other) := by
  refine (represents.tree other otherSided).congr (change.sides other otherSided different) fun n inOther => ?_
  have apart : n ≠ a := fun isA => change.notOther other otherSided different (isA ▸ inOther)
  rw [change.outside n apart fun inside => represents.apart side sided other otherSided different inside inOther]

theorem mem_update (apart : n ≠ a) (other : Side) :
    n ∈ (Function.update trees side tree' other).inorder ↔ n ∈ (trees other).inorder := by
  rcases eq_or_ne other side with rfl | different
  · rw [Function.update_self]
    exact change.mem n apart
  · rw [Function.update_of_ne different]

theorem congr_queues {addresses : List ℕ} (notHere : a ∉ addresses)
    (queues : SideQueues book live other addresses spare) :
    SideQueues book' live other addresses spare := by
  refine queues.congr (fun n inside => ?_) (fun _ _ _ => by rw [change.entries]) fun _ => rfl
  exact change.payload n fun isA => notHere (isA ▸ inside)

theorem alive (apart : n ≠ a) :
    (∃ level, book'.priceLevels.read n = some level) ↔ ∃ level, book.priceLevels.read n = some level := by
  have kept := congrArg Option.isSome (change.payload n apart)
  rwa [Option.isSome_map, Option.isSome_map, Bool.eq_iff_iff, Option.isSome_iff_exists,
    Option.isSome_iff_exists] at kept

theorem apart (represents : Represents book live trees spare) (first : Side) (firstSided : first ≠ .none)
    (second : Side) (secondSided : second ≠ .none) (different : second ≠ first) :
    (Function.update trees side tree' first).inorder.Disjoint (Function.update trees side tree' second).inorder := by
  intro n inFirst inSecond
  rcases eq_or_ne n a with rfl | apart
  · rcases eq_or_ne first side with rfl | notFirst
    · rw [Function.update_of_ne different] at inSecond
      exact change.notOther second secondSided different inSecond
    · rw [Function.update_of_ne notFirst] at inFirst
      exact change.notOther first firstSided notFirst inFirst
  · rw [change.mem_update apart] at inFirst inSecond
    exact represents.apart first firstSided second secondSided different inFirst inSecond

/-- What is left to show is that the level is there just where the tree has it, and what the queues hold. -/
theorem represents (represents : Represents book live trees spare) (sided : side ≠ .none)
    (here : (∃ level, book'.priceLevels.read a = some level) ↔ a ∈ tree'.inorder)
    (queues : SideQueues book' live side tree'.inorder spare')
    (others : ∀ other ≠ .none, other ≠ side → SideQueues book live other (trees other).inorder spare') :
    Represents book' live (Function.update trees side tree') spare' where
  distinct := represents.distinct
  addresses := represents.addresses
  orders := by rw [change.orders]; exact represents.orders
  entries := by rw [change.entries]; exact represents.entries
  tree other otherSided := by
    rcases eq_or_ne other side with rfl | different
    · rw [Function.update_self]
      exact change.tree
    · rw [Function.update_of_ne different]
      exact change.trees_of_ne represents sided otherSided different
  queues other otherSided := by
    rcases eq_or_ne other side with rfl | different
    · rw [Function.update_self]
      exact queues
    · rw [Function.update_of_ne different]
      exact change.congr_queues (change.notOther other otherSided different) (others other otherSided different)
  apart := change.apart represents
  levels n := by
    rcases eq_or_ne n a with rfl | apart
    · rw [here]
      constructor
      · exact fun inTree => ⟨side, sided, by rwa [Function.update_self]⟩
      · rintro ⟨other, otherSided, inOther⟩
        rcases eq_or_ne other side with rfl | different
        · rwa [Function.update_self] at inOther
        · rw [Function.update_of_ne different] at inOther
          exact absurd inOther (change.notOther other otherSided different)
    · simp only [change.alive apart, change.mem_update apart]
      exact represents.levels n

end SideChange

end BackTester.LimitOrderBook
