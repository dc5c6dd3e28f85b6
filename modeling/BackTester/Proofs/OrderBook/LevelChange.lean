import BackTester.Proofs.OrderBook.Represents

/-! # A change at one level

An order that enters, leaves or changes its quantity concerns one level and the entries of its
queue. The links and prices of all levels, and what the book says of other levels, stay.
-/

namespace BackTester.LimitOrderBook

open BinaryTree Heap PriceLevel

variable {book book' : LimitOrderBook} {live live' : List Slot} {side other : Side} {a n : ℕ}
  {level level' : PriceLevel} {trees : Side → BinaryTree ℕ} {spare spare' : Ptr}

/-- One level of a side is another one after the step, with other orders. -/
structure LevelChange (book book' : LimitOrderBook) (live live' : List Slot) (side : Side) (a : ℕ)
    (level level' : PriceLevel) : Prop where
  sides : ∀ other, book'.sideFor other = book.sideFor other
  read : book.priceLevels.read a = some level
  read' : book'.priceLevels.read a = some level'
  links : links level' = links level
  price : level'.price = level.price
  same : ∀ n ≠ a, book'.priceLevels.read n = book.priceLevels.read n
  entries : ∀ slot ∈ live, ¬(slot.2.side = side ∧ slot.2.price = level.price) →
    book'.orderEntries.read slot.1 = book.orderEntries.read slot.1
  members : ∀ other price, ¬(side = other ∧ level.price = price) → members live' other price = members live other price
  holds : LevelHolds book'.orderEntries live' side a level'

namespace LevelChange

variable (change : LevelChange book book' live live' side a level level')
include change

theorem priceAt (n : ℕ) : PriceLevel.priceAt book'.priceLevels n = PriceLevel.priceAt book.priceLevels n := by
  rcases eq_or_ne n a with rfl | apart
  · rw [priceAt_of_read change.read', priceAt_of_read change.read, change.price]
  · rw [PriceLevel.priceAt, PriceLevel.priceAt, change.same n apart]

theorem tree (represents : Represents book live trees spare) (other : Side) (sided : other ≠ .none) :
    SideTree book' other (trees other) := by
  refine (represents.tree other sided).congr (change.sides other) fun n _ => ?_
  rcases eq_or_ne n a with rfl | apart
  · rw [change.read', change.read, Option.map_some, Option.map_some, change.links, change.price]
  · rw [change.same n apart]

theorem levels (n : ℕ) : (∃ level, book'.priceLevels.read n = some level) ↔
    ∃ level, book.priceLevels.read n = some level := by
  rcases eq_or_ne n a with rfl | apart
  · exact iff_of_true ⟨level', change.read'⟩ ⟨level, change.read⟩
  · rw [change.same n apart]

/-- Another level is at another price, or on the other side. -/
theorem elsewhere (represents : Represents book live trees spare) (sided : side ≠ .none)
    (inTree : a ∈ (trees side).inorder) (inOther : n ∈ (trees other).inorder) (apart : n ≠ a) :
    ¬(side = other ∧ level.price = PriceLevel.priceAt book.priceLevels n) := by
  rintro ⟨rfl, samePrice⟩
  refine apart ((represents.tree side sided).price_injective inOther inTree ?_)
  rw [priceAt_of_read change.read, samePrice]

theorem queues (represents : Represents book live trees spare) (sided : side ≠ .none)
    (inTree : a ∈ (trees side).inorder)
    (old : spare = none ∨ spare = some a) (new : LimitOrderBook.members live' side level.price ≠ [] ∨ spare' = some a)
    (other : Side) (otherSided : other ≠ .none) : SideQueues book' live' other (trees other).inorder spare' := by
  have queues := represents.queues other otherSided
  have sideOf (inOther : a ∈ (trees other).inorder) : other = side := by
    by_contra different
    exact represents.apart side sided other otherSided different inTree inOther
  refine ⟨fun n inOther level'' read'' => ?_, fun n inOther => ?_, fun slot inside isSide => ?_⟩
  · rcases eq_or_ne n a with rfl | apart
    · obtain rfl := sideOf inOther
      obtain rfl := Option.some.inj (change.read'.symm.trans read'')
      exact change.holds
    · have before := (change.same n apart).symm.trans read''
      have away := change.elsewhere represents sided inTree inOther apart
      rw [priceAt_of_read before] at away
      refine (queues.holds n inOther level'' before).congr rfl (fun slot inMembers => ?_) (change.members _ _ away)
      obtain ⟨inLive, isSide, isPrice⟩ := mem_members.mp inMembers
      exact change.entries slot inLive fun here => away ⟨here.1.symm.trans isSide, here.2.symm.trans isPrice⟩
  · rw [change.priceAt]
    rcases eq_or_ne n a with rfl | apart
    · obtain rfl := sideOf inOther
      rwa [priceAt_of_read change.read]
    · rw [change.members _ _ (change.elsewhere represents sided inTree inOther apart)]
      refine .inl ((queues.occupied n inOther).resolve_right fun isSpare => ?_)
      rcases old with rfl | rfl
      · contradiction
      · exact apart (Option.some.inj isSpare).symm
  · simp only [change.priceAt]
    by_cases here : side = other ∧ level.price = slot.2.price
    · obtain ⟨rfl, isPrice⟩ := here
      exact ⟨a, inTree, (priceAt_of_read change.read).trans isPrice⟩
    · have inMembers : slot ∈ LimitOrderBook.members live' other slot.2.price := mem_members.mpr ⟨inside, isSide, rfl⟩
      rw [change.members _ _ here] at inMembers
      exact queues.covered slot (mem_members.mp inMembers).1 isSide

/-- What is left to show of a change at one level is about ids and addresses. -/
theorem represents (represents : Represents book live trees spare) (sided : side ≠ .none)
    (inTree : a ∈ (trees side).inorder)
    (old : spare = none ∨ spare = some a) (new : LimitOrderBook.members live' side level.price ≠ [] ∨ spare' = some a)
    (distinct : (live'.map fun slot => slot.2.id).Nodup) (addresses : (live'.map Prod.fst).Nodup)
    (orders : ∀ id oe, book'.orders.find? id = some oe ↔ ∃ slot ∈ live', slot.1 = oe ∧ slot.2.id = id)
    (entries : ∀ oe, (∃ entry, book'.orderEntries.read oe = some entry) ↔ oe ∈ live'.map Prod.fst) :
    Represents book' live' trees spare' where
  distinct := distinct
  addresses := addresses
  orders := orders
  entries := entries
  tree := change.tree represents
  queues := change.queues represents sided inTree old new
  apart := represents.apart
  levels n := (change.levels n).trans (represents.levels n)

end LevelChange

end BackTester.LimitOrderBook
