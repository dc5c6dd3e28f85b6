import BackTester.Model.OrderBook.BookStore
import BackTester.Proofs.OrderBook.Locality
import BackTester.Soundness.LimitOrderBook

/-! # Soundness of books on one free store

However the books of a program are constructed, fed, moved and destroyed, each answers for the
events that its contents were fed, every object on the free store belongs to one of them, and no
object is used after it is deleted or deleted twice. So a program that has destroyed its books has
left nothing behind.
-/

namespace BackTester

open Heap StateT

namespace LimitOrderBook

variable {book book' : LimitOrderBook} {resting : PriorityBook}

/-- What a book represents is a matter of its members and of the objects that it reads. -/
theorem Holds.of_reads (holds : Holds book resting) (bid : book'.bid = book.bid) (ask : book'.ask = book.ask)
    (orders : book'.orders = book.orders) (levels : ∀ n, book'.priceLevels.read n = book.priceLevels.read n)
    (entries : ∀ n, book'.orderEntries.read n = book.orderEntries.read n) : Holds book' resting := by
  obtain ⟨live, trees, represents, same⟩ := holds
  have sides (side : Side) : book'.sideFor side = book.sideFor side := by
    unfold sideFor
    rw [bid, ask]
  refine ⟨live, trees, ?_, same⟩
  exact { represents with
    orders := by rw [orders]; exact represents.orders
    entries := fun oe => by rw [entries]; exact represents.entries oe
    tree := fun side sided => (represents.tree side sided).congr (sides side) fun n _ => by rw [levels]
    queues := fun side sided =>
      (represents.queues side sided).congr (fun n _ => by rw [levels]) (fun _ _ _ => entries _) fun _ => rfl
    levels := fun a => by rw [levels]; exact represents.levels a }

theorem holds_clearBook (holds : Holds book resting) :
    ∃ book', clearBook.run book = some ((), book') ∧ Holds book' ∅ := by
  obtain ⟨live, trees, represents, -⟩ := holds
  obtain ⟨book', run, represents', -⟩ := run_clearBook represents
  exact ⟨book', run, [], _, represents', rfl⟩

/-- The entries are those that are in the map of orders. -/
theorem Holds.entry_iff (holds : Holds book resting) (n : ℕ) :
    (∃ entry, book.orderEntries.read n = some entry) ↔ ∃ id, book.orders.find? id = some n := by
  obtain ⟨live, trees, represents, -⟩ := holds
  rw [represents.entries]
  constructor
  · intro member
    obtain ⟨slot, inLive, isEntry⟩ := List.mem_map.mp member
    exact ⟨slot.2.id, (represents.orders _ _).mpr ⟨slot, inLive, isEntry, rfl⟩⟩
  · rintro ⟨id, found⟩
    obtain ⟨slot, inLive, isEntry, -⟩ := (represents.orders _ _).mp found
    exact List.mem_map.mpr ⟨slot, inLive, isEntry⟩

theorem Holds.entry_once (holds : Holds book resting) {id other : UInt64} {n : ℕ}
    (found : book.orders.find? id = some n) (otherFound : book.orders.find? other = some n) : id = other := by
  obtain ⟨live, trees, represents, -⟩ := holds
  obtain ⟨slot, inLive, isEntry, rfl⟩ := (represents.orders _ _).mp found
  obtain ⟨otherSlot, otherInLive, isOtherEntry, rfl⟩ := (represents.orders _ _).mp otherFound
  rw [List.inj_on_of_nodup_map represents.addresses inLive otherInLive (isEntry.trans isOtherEntry.symm)]

/-- The levels are those that are in the map of either side. -/
theorem Holds.level_iff (holds : Holds book resting) (n : ℕ) : (∃ level, book.priceLevels.read n = some level) ↔
    ∃ side ≠ .none, ∃ price, (book.levelsFor side).find? price = some n := by
  obtain ⟨live, trees, represents, -⟩ := holds
  rw [represents.levels]
  constructor
  · rintro ⟨side, sided, inTree⟩
    exact ⟨side, sided, _, ((represents.tree side sided).levels _ _).mpr ⟨inTree, rfl⟩⟩
  · rintro ⟨side, sided, price, found⟩
    exact ⟨side, sided, (((represents.tree side sided).levels _ _).mp found).1⟩

theorem Holds.level_once (holds : Holds book resting) {side other : Side} (sided : side ≠ .none)
    (otherSided : other ≠ .none)
    {price otherPrice : ScaledPrice} {n : ℕ} (found : (book.levelsFor side).find? price = some n)
    (otherFound : (book.levelsFor other).find? otherPrice = some n) : side = other ∧ price = otherPrice := by
  obtain ⟨live, trees, represents, -⟩ := holds
  obtain ⟨inTree, rfl⟩ := ((represents.tree side sided).levels _ _).mp found
  obtain ⟨otherInTree, rfl⟩ := ((represents.tree other otherSided).levels _ _).mp otherFound
  refine ⟨?_, rfl⟩
  by_contra different
  exact represents.apart side sided other otherSided (Ne.symm different) inTree otherInTree

/-- A book without orders owns nothing. -/
theorem Holds.nothing (holds : Holds book ∅) :
    (∀ n, book.priceLevels.read n = none) ∧ ∀ n, book.orderEntries.read n = none := by
  obtain ⟨live, trees, represents, same⟩ := holds
  obtain rfl := List.map_eq_nil_iff.mp same
  refine ⟨fun n => ?_, fun n => ?_⟩
  · by_contra isLive
    obtain ⟨side, sided, inTree⟩ := (represents.levels n).mp (Option.ne_none_iff_exists'.mp isLive)
    exact ((represents.queues side sided).occupied n inTree).elim (fun occupied => occupied rfl) (by simp)
  · by_contra isLive
    exact List.not_mem_nil ((represents.entries n).mp (Option.ne_none_iff_exists'.mp isLive))

end LimitOrderBook

/-- The events that the contents of every living book were fed. -/
abbrev BookHistory (Name : Type) := Name → Option (List MarketDataEvent)

namespace BookHistory

variable {Name : Type} (fed : BookHistory Name)

def Alive (name : Name) : Prop := ∃ events, fed name = some events

theorem Alive.ne_none {fed : BookHistory Name} {name : Name} (alive : fed.Alive name) : fed name ≠ none := by
  obtain ⟨events, isFed⟩ := alive
  rw [isFed]
  exact Option.some_ne_none _

variable [DecidableEq Name]

theorem Alive.update {fed : BookHistory Name} {owner name : Name} (alive : fed.Alive owner)
    {given : Option (List MarketDataEvent)}
    (here : owner = name → given.isSome) : Alive (Function.update fed name given) owner := by
  rcases eq_or_ne owner name with rfl | apart
  · exact ⟨_, (Function.update_self ..).trans (Option.some_get (here rfl)).symm⟩
  · obtain ⟨events, isFed⟩ := alive
    exact ⟨events, (Function.update_of_ne apart ..).trans isFed⟩

/-- The contents of a book go with it where it is moved. -/
def takeOver (name other : Name) (events : List MarketDataEvent) : BookHistory Name :=
  Function.update (Function.update fed other (some [])) name (some events)

theorem takeOver_update {fed : BookHistory Name} {name other : Name} (apart : name ≠ other)
    (given : Option (List MarketDataEvent)) (events : List MarketDataEvent) :
    takeOver (Function.update fed name given) name other events = fed.takeOver name other events := by
  unfold takeOver
  rw [Function.update_comm apart, Function.update_idem]

/-- Only a name without a book is for a new one, and only a living book is used. -/
def step : BookOperation Name → Option (BookHistory Name)
  | .construct name =>
    match fed name with
    | none => some (Function.update fed name (some []))
    | some _ => none
  | .apply name e => (fed name).map fun events => Function.update fed name (some (events ++ [e]))
  | .moveConstruct name other =>
    match fed name with
    | none => (fed other).map (fed.takeOver name other)
    | some _ => none
  | .moveAssign name other =>
    match fed name with
    | none => none
    | some _ => (fed other).map fun events => if name = other then fed else fed.takeOver name other events
  | .destroy name => (fed name).map fun _ => Function.update fed name none

def run (operations : List (BookOperation Name)) : Option (BookHistory Name) :=
  operations.foldlM (fun fed operation => step fed operation) fun _ => none

end BookHistory

namespace BookStore

open LimitOrderBook

variable {Name : Type} [DecidableEq Name] {store : BookStore Name} {name other : Name} {fed : BookHistory Name}
  {events : List MarketDataEvent}

/-- Whose each object is. -/
structure Owners (Name : Type) where
  level : ℕ → Option Name
  entry : ℕ → Option Name

variable {owners : Owners Name}

/-- The book with what it owns of the free store. -/
def part (store : BookStore Name) (owners : Owners Name) (name : Name) (members : Members) : LimitOrderBook :=
  { store.book members with
    priceLevels := store.priceLevels.ownedBy owners.level name
    orderEntries := store.orderEntries.ownedBy owners.entry name }

theorem framed_part (store : BookStore Name) (owners : Owners Name) (name : Name) (members : Members) :
    FramedBook (store.priceLevels.frameOf owners.level name) (store.orderEntries.frameOf owners.entry name)
      (store.part owners name members) (store.book members) where
  priceLevels := framed_ownedBy _ _ _
  orderEntries := framed_ownedBy _ _ _
  bid := rfl
  ask := rfl
  orders := rfl
  anomalies := rfl

/-- Every living book holds what its events leave, in the objects it owns, and every object is owned
by a living book. -/
structure Partitioned (store : BookStore Name) (owners : Owners Name) (fed : BookHistory Name) : Prop where
  dead : ∀ name, fed name = none → store.books name = none
  holds : ∀ name events, fed name = some events → ∃ members, store.books name = some members ∧
    Holds (store.part owners name members) (PriorityBook.run events)
  levels : ∀ n level, store.priceLevels.read n = some level → ∃ name, owners.level n = some name ∧ fed.Alive name
  entries : ∀ n entry, store.orderEntries.read n = some entry → ∃ name, owners.entry n = some name ∧ fed.Alive name

theorem partitioned_empty (owners : Owners Name) : Partitioned {} owners (fun _ => none) where
  dead _ _ := rfl
  holds _ _ isFed := by contradiction
  levels n level isLive := by contradiction
  entries n entry isLive := by contradiction

namespace Partitioned

/-- Who was fed nothing owns nothing. -/
theorem nothing (partitioned : Partitioned store owners fed) (unfed : fed name = none ∨ fed name = some []) :
    (∀ n, (store.priceLevels.ownedBy owners.level name).read n = none) ∧
      ∀ n, (store.orderEntries.ownedBy owners.entry name).read n = none := by
  rcases unfed with isDead | isEmpty
  · refine ⟨ownedBy_eq_none fun n level read own => ?_, ownedBy_eq_none fun n entry read own => ?_⟩
    · obtain ⟨owner, isOwner, alive⟩ := partitioned.levels n level read
      obtain rfl := Option.some.inj (own.symm.trans isOwner)
      exact alive.ne_none isDead
    · obtain ⟨owner, isOwner, alive⟩ := partitioned.entries n entry read
      obtain rfl := Option.some.inj (own.symm.trans isOwner)
      exact alive.ne_none isDead
  · obtain ⟨members, -, holds⟩ := partitioned.holds name [] isEmpty
    exact holds.nothing

/-- One book changes, with the objects that only it owns. -/
theorem update (partitioned : Partitioned store owners fed) {store' : BookStore Name} {owners' : Owners Name}
    {given : Option (List MarketDataEvent)} (books : ∀ other ≠ name, store'.books other = store.books other)
    (otherLevels : ∀ other ≠ name, ∀ n,
      (store'.priceLevels.ownedBy owners'.level other).read n = (store.priceLevels.ownedBy owners.level other).read n)
    (otherEntries : ∀ other ≠ name, ∀ n,
      (store'.orderEntries.ownedBy owners'.entry other).read n = (store.orderEntries.ownedBy owners.entry other).read n)
    (gone : given = none → store'.books name = none)
    (here : ∀ events, given = some events → ∃ members, store'.books name = some members ∧
      Holds (store'.part owners' name members) (PriorityBook.run events))
    (levels : ∀ n level, store'.priceLevels.read n = some level →
      ∃ owner, owners'.level n = some owner ∧ BookHistory.Alive (Function.update fed name given) owner)
    (entries : ∀ n entry, store'.orderEntries.read n = some entry →
      ∃ owner, owners'.entry n = some owner ∧ BookHistory.Alive (Function.update fed name given) owner) :
    Partitioned store' owners' (Function.update fed name given) where
  dead other isDead := by
    rcases eq_or_ne other name with rfl | apart
    · rw [Function.update_self] at isDead
      exact gone isDead
    · exact (books other apart).trans (partitioned.dead other ((Function.update_of_ne apart ..).symm.trans isDead))
  holds other events isFed := by
    rcases eq_or_ne other name with rfl | apart
    · rw [Function.update_self] at isFed
      exact here events isFed
    · obtain ⟨members, isBook, holds⟩ :=
        partitioned.holds other events ((Function.update_of_ne apart ..).symm.trans isFed)
      exact ⟨members, (books other apart).trans isBook,
        holds.of_reads rfl rfl rfl (otherLevels other apart) (otherEntries other apart)⟩
  levels := levels
  entries := entries

/-- A member function does in the whole store what it does with what the book owns. -/
theorem call (partitioned : Partitioned store owners fed) {run : BookM Unit} {events' : List MarketDataEvent}
    (stable : ∀ levels entries, Stable (FramedBook levels entries) run) (isFed : fed name = some events)
    (spec : ∀ book, Holds book (PriorityBook.run events) →
      ∃ book', run.run book = some ((), book') ∧ Holds book' (PriorityBook.run events')) :
    ∃ store', store.call name run = some store' ∧
      ∃ owners', Partitioned store' owners' (Function.update fed name (some events')) := by
  obtain ⟨members, isBook, holds⟩ := partitioned.holds name events isFed
  obtain ⟨after, ran, holdsAfter⟩ := spec _ holds
  obtain ⟨book', ran', framed⟩ := stable _ _ _ _ (framed_part store owners name members) () after ran
  have own : BookHistory.Alive (Function.update fed name (some events')) name := ⟨_, Function.update_self ..⟩
  refine ⟨store.put name book', ?_,
    ⟨store.priceLevels.ownersAfter owners.level name, store.orderEntries.ownersAfter owners.entry name⟩,
    partitioned.update (fun _ apart => Function.update_of_ne apart ..) (fun _ apart =>
      framed.priceLevels.ownedBy_other apart)
      (fun _ apart => framed.orderEntries.ownedBy_other apart) (fun gone =>
        by contradiction) (fun events isEvents => ?_)
      (fun n _ _ => exists_ownerAfter own (fun m level read => ?_) n) fun n _ _ =>
        exists_ownerAfter own (fun m entry read => ?_) n⟩
  · rw [BookStore.call, isBook]
    change ((run.run (store.book members)).bind _) = _
    rw [ran']
    rfl
  · obtain rfl := Option.some.inj isEvents
    refine ⟨_, Function.update_self .., holdsAfter.of_reads framed.bid framed.ask framed.orders ?_ ?_⟩
    · exact framed.priceLevels.ownedBy_self
    · exact framed.orderEntries.ownedBy_self
  · obtain ⟨owner, isOwner, alive⟩ := partitioned.levels m level read
    exact ⟨owner, isOwner, alive.update fun _ => rfl⟩
  · obtain ⟨owner, isOwner, alive⟩ := partitioned.entries m entry read
    exact ⟨owner, isOwner, alive.update fun _ => rfl⟩

/-- A book without objects is there to be fed. -/
theorem construct (partitioned : Partitioned store owners fed) (isDead : fed name = none) :
    Partitioned { store with books := Function.update store.books name (some {}) } owners
      (Function.update fed name (some [])) := by
  obtain ⟨noLevels, noEntries⟩ := partitioned.nothing (.inl isDead)
  refine partitioned.update (fun _ apart => Function.update_of_ne apart ..) (fun _ _ _ => rfl) (fun _ _ _ => rfl)
    (fun gone => by contradiction) (fun events isEvents => ?_) (fun n level read => ?_) fun n entry read => ?_
  · obtain rfl := Option.some.inj isEvents
    exact ⟨{}, Function.update_self .., [], _, represents_empty noLevels noEntries _, rfl⟩
  · obtain ⟨owner, isOwner, alive⟩ := partitioned.levels n level read
    exact ⟨owner, isOwner, alive.update fun _ => rfl⟩
  · obtain ⟨owner, isOwner, alive⟩ := partitioned.entries n entry read
    exact ⟨owner, isOwner, alive.update fun _ => rfl⟩

/-- A book without objects leaves none behind. -/
theorem forget (partitioned : Partitioned store owners fed) (isFed : fed name = some []) :
    Partitioned { store with books := Function.update store.books name none } owners
      (Function.update fed name none) := by
  obtain ⟨noLevels, noEntries⟩ := partitioned.nothing (.inr isFed)
  refine partitioned.update (fun _ apart => Function.update_of_ne apart ..) (fun _ _ _ => rfl) (fun _ _ _ => rfl)
    (fun _ => Function.update_self ..) (fun events isEvents => by contradiction) (fun n level read => ?_)
      fun n entry read => ?_
  · obtain ⟨owner, isOwner, alive⟩ := partitioned.levels n level read
    refine ⟨owner, isOwner, alive.update ?_⟩
    rintro rfl
    exact absurd (ownedBy_eq_some.mpr ⟨isOwner, read⟩) (by simp [noLevels n])
  · obtain ⟨owner, isOwner, alive⟩ := partitioned.entries n entry read
    refine ⟨owner, isOwner, alive.update ?_⟩
    rintro rfl
    exact absurd (ownedBy_eq_some.mpr ⟨isOwner, read⟩) (by simp [noEntries n])

theorem clear (partitioned : Partitioned store owners fed) (isFed : fed name = some events) :
    ∃ store', store.call name clearBook = some store' ∧
    ∃ owners', Partitioned store' owners' (Function.update fed name (some [])) :=
  partitioned.call (fun _ _ => stable_clearBook) isFed fun _ => holds_clearBook

/-- What one book had is another's, which had nothing. -/
theorem takeOver (partitioned : Partitioned store owners fed) (apart : name ≠ other)
    (unfed : fed name = none ∨ fed name = some [])
    (isFed : fed other = some events) : ∃ store', store.takeOver name other = some store' ∧
      Partitioned store' ⟨handOver owners.level name other,
        handOver owners.entry name other⟩ (fed.takeOver name other events) := by
  obtain ⟨members, isBook, holds⟩ := partitioned.holds other events isFed
  obtain ⟨noLevels, noEntries⟩ := partitioned.nothing unfed
  have atName : fed.takeOver name other events name = some events := Function.update_self ..
  have atOther : fed.takeOver name other events other = some [] :=
    (Function.update_of_ne apart.symm ..).trans (Function.update_self ..)
  have elsewhere {owner : Name} (notName : owner ≠ name) (notOther : owner ≠ other) :
      fed.takeOver name other events owner = fed owner := by
    rw [BookHistory.takeOver, Function.update_of_ne notName, Function.update_of_ne notOther]
  have own : (fed.takeOver name other events).Alive name := ⟨events, atName⟩
  have keeps (third : Name) (notOther : third ≠ other) (isAlive : fed.Alive third) :
      (fed.takeOver name other events).Alive third := by
    rcases eq_or_ne third name with rfl | notName
    · exact own
    · obtain ⟨given, isGiven⟩ := isAlive
      exact ⟨given, (elsewhere notName notOther).trans isGiven⟩
  refine ⟨_, by rw [BookStore.takeOver, isBook]; rfl, fun owner isDead => ?_, fun owner given isGiven => ?_,
    fun n level read => ?_, fun n entry read => ?_⟩
  · have notName : owner ≠ name := by
      rintro rfl
      rw [atName] at isDead
      contradiction
    have notOther : owner ≠ other := by
      rintro rfl
      rw [atOther] at isDead
      contradiction
    rw [elsewhere notName notOther] at isDead
    exact (Function.update_of_ne notName ..).trans
      ((Function.update_of_ne notOther ..).trans (partitioned.dead owner isDead))
  · rcases eq_or_ne owner name with rfl | notName
    · obtain rfl := Option.some.inj (atName.symm.trans isGiven)
      refine ⟨members, Function.update_self .., holds.of_reads rfl rfl rfl ?_ ?_⟩
      · exact ownedBy_handOver_self noLevels
      · exact ownedBy_handOver_self noEntries
    · rcases eq_or_ne owner other with rfl | notOther
      · obtain rfl := Option.some.inj (atOther.symm.trans isGiven)
        refine ⟨members.releaseMovedFrom, (Function.update_of_ne notName ..).trans (Function.update_self ..),
          [], _, represents_empty ?_ ?_ _, rfl⟩
        · exact ownedBy_handOver_other apart
        · exact ownedBy_handOver_other apart
      · obtain ⟨others, isOther, otherHolds⟩ :=
          partitioned.holds owner given ((elsewhere notName notOther).symm.trans isGiven)
        refine ⟨others,
          (Function.update_of_ne notName ..).trans ((Function.update_of_ne notOther ..).trans isOther), ?_⟩
        exact otherHolds.of_reads rfl rfl rfl (ownedBy_handOver_third notName notOther)
          (ownedBy_handOver_third notName notOther)
  · exact exists_handOver own keeps (partitioned.levels n level read)
  · exact exists_handOver own keeps (partitioned.entries n entry read)

/-- What the history allows the store does. -/
theorem step (partitioned : Partitioned store owners fed) {operation : BookOperation Name} {fed' : BookHistory Name}
    (stepped : fed.step operation = some fed') :
    ∃ store', store.step operation = some store' ∧ ∃ owners', Partitioned store' owners' fed' := by
  cases operation with
  | construct name =>
    cases isFed : fed name with
    | some _ => simp [BookHistory.step, isFed] at stepped
    | none =>
      obtain rfl : Function.update fed name (some []) = fed' := by simpa [BookHistory.step, isFed] using stepped
      exact ⟨_, by rw [BookStore.step, partitioned.dead name isFed], owners, partitioned.construct isFed⟩
  | apply name e =>
    obtain ⟨events, isFed, rfl⟩ := Option.map_eq_some_iff.mp stepped
    refine partitioned.call (fun _ _ => stable_applyImpl e) isFed fun book holds => ?_
    obtain ⟨book', ran, holds', -⟩ := run_applyImpl holds e
    exact ⟨book', ran, by rwa [PriorityBook.run, List.foldl_concat]⟩
  | moveConstruct name other =>
    cases isFed : fed name with
    | some _ => simp [BookHistory.step, isFed] at stepped
    | none =>
      simp only [BookHistory.step, isFed] at stepped
      obtain ⟨events, otherFed, rfl⟩ := Option.map_eq_some_iff.mp stepped
      have apart : name ≠ other := by
        rintro rfl
        rw [isFed] at otherFed
        contradiction
      obtain ⟨store', taken, partitioned'⟩ := partitioned.takeOver apart (.inl isFed) otherFed
      exact ⟨store', by rwa [BookStore.step, partitioned.dead name isFed], _, partitioned'⟩
  | moveAssign name other =>
    cases isFed : fed name with
    | none => simp [BookHistory.step, isFed] at stepped
    | some own =>
      simp only [BookHistory.step, isFed] at stepped
      obtain ⟨events, otherFed, rfl⟩ := Option.map_eq_some_iff.mp stepped
      obtain ⟨members, isBook, -⟩ := partitioned.holds name own isFed
      simp only [BookStore.step, isBook]
      by_cases same : name = other
      · rw [if_pos same, if_pos same]
        exact ⟨store, rfl, owners, partitioned⟩
      · rw [if_neg same, if_neg same]
        obtain ⟨cleared, called, owners', partitioned'⟩ := partitioned.clear isFed
        obtain ⟨store', taken, partitioned''⟩ := partitioned'.takeOver same (.inr (Function.update_self ..))
          ((Function.update_of_ne (Ne.symm same) ..).trans otherFed)
        rw [BookHistory.takeOver_update same] at partitioned''
        exact ⟨store', by rw [called]; exact taken, _, partitioned''⟩
  | destroy name =>
    obtain ⟨events, isFed, rfl⟩ := Option.map_eq_some_iff.mp stepped
    obtain ⟨store', called, owners', partitioned'⟩ := partitioned.clear isFed
    refine ⟨_, by rw [BookStore.step, called]; rfl, owners', ?_⟩
    have forgotten := partitioned'.forget (Function.update_self ..)
    rwa [Function.update_idem] at forgotten

end Partitioned

/-- However long a program goes on, the store does what the history allows. -/
theorem Partitioned.run (partitioned : Partitioned store owners fed) {operations : List (BookOperation Name)}
    {fed' : BookHistory Name}
    (ran : operations.foldlM (fun fed operation => BookHistory.step fed operation) fed = some fed') :
    ∃ store', operations.foldlM (fun store operation => store.step operation) store = some store' ∧
    ∃ owners', Partitioned store' owners' fed' := by
  induction operations generalizing store owners fed with
  | nil =>
    obtain rfl := Option.some.inj ran
    exact ⟨store, rfl, owners, partitioned⟩
  | cons operation operations ih =>
    rw [List.foldlM_cons] at ran
    obtain ⟨between, stepped, rest⟩ := Option.bind_eq_some_iff.mp ran
    obtain ⟨next, stepped', owners', partitioned'⟩ := partitioned.step stepped
    obtain ⟨store', rest', final⟩ := ih partitioned' rest
    exact ⟨store', by rw [List.foldlM_cons, stepped']; exact rest', final⟩

/-- The order map of the book has the entry under the id. -/
def HasEntry (store : BookStore Name) (n : ℕ) (place : Name × UInt64) : Prop :=
  ∃ members, store.books place.1 = some members ∧ members.orders.find? place.2 = some n

/-- The level map of a side of the book has the level under the price. -/
def HasLevel (store : BookStore Name) (n : ℕ) (place : Name × Side × ScaledPrice) : Prop :=
  ∃ members, store.books place.1 = some members ∧ place.2.1 ≠ .none ∧
    ((store.book members).levelsFor place.2.1).find? place.2.2 = some n

/-- The living books answer for what they were fed, and the objects on the free store are those of
the living books, each of one. -/
structure Accounts (store : BookStore Name) (fed : BookHistory Name) : Prop where
  alive : ∀ name, (store.books name).isSome = (fed name).isSome
  answers : ∀ name members events, store.books name = some members → fed name = some events → ∀ side ≠ .none,
    (store.book members).bestPrice side = some ((ReferenceBook.run events).bestPrice side) ∧
      (∀ price, (store.book members).volumeAt side price =
        some (UInt64.ofNat ((ReferenceBook.run events).volumeAt side price))) ∧
      (store.book members).empty side = (ReferenceBook.run events).empty side ∧
      (store.book members).sideLevels side =
        some (((ReferenceBook.run events).sideLevels side).map fun (price, volume) => (price, (volume : ℤ)))
  entries : ∀ n, (∃ entry, store.orderEntries.read n = some entry) ↔ ∃ place, store.HasEntry n place
  entriesOnce : ∀ n place other, store.HasEntry n place → store.HasEntry n other → place = other
  levels : ∀ n, (∃ level, store.priceLevels.read n = some level) ↔ ∃ place, store.HasLevel n place
  levelsOnce : ∀ n place other, store.HasLevel n place → store.HasLevel n other → place = other

namespace Partitioned

variable (partitioned : Partitioned store owners fed)
include partitioned

theorem holds_book {members : Members} (isBook : store.books name = some members) :
    ∃ events, fed name = some events ∧ Holds (store.part owners name members) (PriorityBook.run events) := by
  cases isFed : fed name with
  | none =>
    rw [partitioned.dead name isFed] at isBook
    contradiction
  | some events =>
    obtain ⟨others, isOther, holds⟩ := partitioned.holds name events isFed
    obtain rfl := Option.some.inj (isBook.symm.trans isOther)
    exact ⟨events, rfl, holds⟩

theorem hasEntry {n : ℕ} {place : Name × UInt64} (has : store.HasEntry n place) :
    owners.entry n = some place.1 ∧ ∃ entry, store.orderEntries.read n = some entry := by
  obtain ⟨members, isBook, found⟩ := has
  obtain ⟨events, -, holds⟩ := partitioned.holds_book isBook
  obtain ⟨entry, read⟩ := (holds.entry_iff n).mpr ⟨place.2, found⟩
  obtain ⟨own, read⟩ := ownedBy_eq_some.mp read
  exact ⟨own, entry, read⟩

theorem hasLevel {n : ℕ} {place : Name × Side × ScaledPrice} (has : store.HasLevel n place) :
    owners.level n = some place.1 ∧ ∃ level, store.priceLevels.read n = some level := by
  obtain ⟨members, isBook, sided, found⟩ := has
  obtain ⟨events, -, holds⟩ := partitioned.holds_book isBook
  obtain ⟨level, read⟩ := (holds.level_iff n).mpr ⟨place.2.1, sided, place.2.2, found⟩
  obtain ⟨own, read⟩ := ownedBy_eq_some.mp read
  exact ⟨own, level, read⟩

/-- The book answers in the whole store as it does with what it owns. -/
theorem answers {members : Members} (isBook : store.books name = some members)
    (isFed : fed name = some events) {side : Side} (sided : side ≠ .none) :
    (store.book members).bestPrice side = some ((ReferenceBook.run events).bestPrice side) ∧
      (∀ price, (store.book members).volumeAt side price =
        some (UInt64.ofNat ((ReferenceBook.run events).volumeAt side price))) ∧
      (store.book members).empty side = (ReferenceBook.run events).empty side ∧
      (store.book members).sideLevels side =
        some (((ReferenceBook.run events).sideLevels side).map fun (price, volume) => (price, (volume : ℤ))) := by
  obtain ⟨others, isOther, live, trees, represents, same⟩ := partitioned.holds name events isFed
  obtain rfl := Option.some.inj (isBook.symm.trans isOther)
  have sameOrders := sameOrders_run same
  have framed := framed_part store owners name members
  refine ⟨?_, fun price => ?_, ?_, ?_⟩
  · exact framed.bestPrice (represents.bestPrice sameOrders sided)
  · exact framed.volumeAt (represents.volumeAt sameOrders sided price)
  · exact framed.empty.trans (represents.empty sameOrders sided)
  · exact framed.sideLevels (represents.sideLevels sameOrders sided)

theorem accounts : Accounts store fed where
  alive name := by
    cases isFed : fed name with
    | none => rw [partitioned.dead name isFed]; rfl
    | some events =>
      obtain ⟨members, isBook, -⟩ := partitioned.holds name events isFed
      rw [isBook]
      rfl
  answers name members events isBook isFed side sided := partitioned.answers isBook isFed sided
  entries n := by
    constructor
    · rintro ⟨entry, read⟩
      obtain ⟨name, own, events, isFed⟩ := partitioned.entries n entry read
      obtain ⟨members, isBook, holds⟩ := partitioned.holds name events isFed
      obtain ⟨id, found⟩ := (holds.entry_iff n).mp ⟨entry, ownedBy_eq_some.mpr ⟨own, read⟩⟩
      exact ⟨(name, id), members, isBook, found⟩
    · rintro ⟨place, has⟩
      exact (partitioned.hasEntry has).2
  entriesOnce n := by
    rintro ⟨name, id⟩ ⟨other, otherId⟩ has otherHas
    obtain rfl : name = other :=
      Option.some.inj ((partitioned.hasEntry has).1.symm.trans (partitioned.hasEntry otherHas).1)
    obtain ⟨members, isBook, found⟩ := has
    obtain ⟨others, isOther, otherFound⟩ := otherHas
    obtain rfl := Option.some.inj (isBook.symm.trans isOther)
    obtain ⟨events, -, holds⟩ := partitioned.holds_book isBook
    rw [show id = otherId from holds.entry_once found otherFound]
  levels n := by
    constructor
    · rintro ⟨level, read⟩
      obtain ⟨name, own, events, isFed⟩ := partitioned.levels n level read
      obtain ⟨members, isBook, holds⟩ := partitioned.holds name events isFed
      obtain ⟨side, sided, price, found⟩ := (holds.level_iff n).mp ⟨level, ownedBy_eq_some.mpr ⟨own, read⟩⟩
      exact ⟨(name, side, price), members, isBook, sided, found⟩
    · rintro ⟨place, has⟩
      exact (partitioned.hasLevel has).2
  levelsOnce n := by
    rintro ⟨name, side, price⟩ ⟨other, otherSide, otherPrice⟩ has otherHas
    obtain rfl : name = other :=
      Option.some.inj ((partitioned.hasLevel has).1.symm.trans (partitioned.hasLevel otherHas).1)
    obtain ⟨members, isBook, sided, found⟩ := has
    obtain ⟨others, isOther, otherSided, otherFound⟩ := otherHas
    obtain rfl := Option.some.inj (isBook.symm.trans isOther)
    obtain ⟨events, -, holds⟩ := partitioned.holds_book isBook
    obtain ⟨rfl, rfl⟩ : side = otherSide ∧ price = otherPrice := holds.level_once sided otherSided found otherFound
    rfl

end Partitioned

/-- A program that uses its living books only: no object is used after its deletion or deleted
twice, and none is left behind. -/
theorem accounts_run {operations : List (BookOperation Name)} (ran : BookHistory.run operations = some fed) :
    ∃ store, run operations = some store ∧ Accounts store fed := by
  obtain ⟨store, ran', owners, partitioned⟩ := (partitioned_empty ⟨fun _ => none, fun _ => none⟩).run ran
  exact ⟨store, ran', partitioned.accounts⟩

/-- A book that replaces another, is used on after the move and dies. -/
def replaced : List (BookOperation ℕ) :=
  [.construct 0, .construct 1, .apply 0 { orderId := 1, action := .add, side := .buy, price := 100, size := 7 },
    .apply 1 { orderId := 1, action := .add, side := .sell, price := 90, size := 2 }, .moveAssign 1 0,
    .apply 0 { orderId := 2, action := .add, side := .sell, price := 101, size := 5 }, .destroy 0]

theorem accounts_run_replaced : ∃ store fed, run replaced = some store ∧ Accounts store fed ∧ fed 0 = none ∧
    fed 1 = some [{ orderId := 1, action := .add, side := .buy, price := 100, size := 7 }] := by
  have ran : ∃ fed, BookHistory.run replaced = some fed ∧ fed 0 = none ∧
      fed 1 = some [{ orderId := 1, action := .add, side := .buy, price := 100, size := 7 }] := ⟨_, rfl, rfl, rfl⟩
  obtain ⟨fed, isFed, died, replacedBy⟩ := ran
  obtain ⟨store, ran, accounts⟩ := accounts_run isFed
  exact ⟨store, fed, ran, accounts, died, replacedBy⟩

end BookStore

end BackTester
