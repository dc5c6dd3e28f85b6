import BackTester.Model.OrderBook.LimitOrderBook

/-! # Limit order books on one free store

The books of a program are constructed, fed, moved and destroyed, and what they own lies on the same
free store. A book that is moved from is one that can be used on. As everywhere, the scratch vector
behind `side_levels` is left out.
-/

namespace BackTester

/-- The members of a book. -/
structure LimitOrderBook.Members where
  bid : BookSide := {}
  ask : BookSide := {}
  orders : UnorderedMap UInt64 ℕ := ∅

/-- The free store and the log, and the books that are alive. -/
structure BookStore (Name : Type) where
  priceLevels : Heap PriceLevel := ∅
  orderEntries : Heap OrderEntry := ∅
  anomalies : BookAnomalyLog := {}
  books : Name → Option LimitOrderBook.Members := fun _ => none

/-- What a program does with its books. -/
inductive BookOperation (Name : Type)
  | construct (name : Name)
  | apply (name : Name) (e : MarketDataEvent)
  | moveConstruct (name other : Name)
  | moveAssign (name other : Name)
  | destroy (name : Name)

namespace LimitOrderBook.Members

/-- What `std::move` leaves of the maps is cleared. -/
def releaseMovedFrom (members : Members) : Members :=
  { members with
    bid := { tree := none, best := none, levels := ∅ }
    ask := { tree := none, best := none, levels := ∅ }
    orders := ∅ }

end LimitOrderBook.Members

namespace BookStore

open LimitOrderBook

variable {Name : Type} (store : BookStore Name)

/-- The book with the free store at hand. -/
def book (members : Members) : LimitOrderBook where
  priceLevels := store.priceLevels
  orderEntries := store.orderEntries
  bid := members.bid
  ask := members.ask
  orders := members.orders
  anomalies := store.anomalies

variable [DecidableEq Name]

/-- What becomes of the book and the store. -/
def put (name : Name) (book : LimitOrderBook) : BookStore Name where
  priceLevels := book.priceLevels
  orderEntries := book.orderEntries
  anomalies := book.anomalies
  books := Function.update store.books name (some { bid := book.bid, ask := book.ask, orders := book.orders })

/-- A member function of a book that is alive. -/
def call (name : Name) (run : BookM Unit) : Option (BookStore Name) := do
  let members ← store.books name
  let (_, book) ← run.run (store.book members)
  return store.put name book

/-- `name` takes over what `other` owns. -/
def takeOver (name other : Name) : Option (BookStore Name) := do
  let members ← store.books other
  return { store with
    books := Function.update (Function.update store.books other (some members.releaseMovedFrom)) name (some members) }

/-- An operation on books that are not alive, or a construction of one that is, is a fault of the program. -/
def step : BookOperation Name → Option (BookStore Name)
  | .construct name =>
    match store.books name with
    | none => some { store with books := Function.update store.books name (some {}) }
    | some _ => none
  | .apply name e => store.call name (applyImpl e)
  | .moveConstruct name other =>
    match store.books name with
    | none => store.takeOver name other
    | some _ => none
  | .moveAssign name other =>
    match store.books name with
    | none => none
    | some _ =>
      if name = other then some store
      else do
        let store ← store.call name clearBook
        store.takeOver name other
  | .destroy name => do
    let store ← store.call name clearBook
    return { store with books := Function.update store.books name none }

def run (operations : List (BookOperation Name)) : Option (BookStore Name) :=
  operations.foldlM (fun store operation => store.step operation) {}

end BookStore

end BackTester
