import BackTester.Model.OrderBook.LimitOrderBook
import BackTester.Model.OrderBook.MapOrderBook
import BackTester.Model.OrderBook.ShardedOrderBookRouter
import BackTester.Model.OrderBook.Snapshot

/-! # What the routers print

`snapshot_as_string` and `print_best_bid_ask` of both routers. They loop over a hash map of books,
so the order in which they meet the books is any order of its entries; it is given to the functions
here.
-/

namespace BackTester

/-- What a printing function asks of a book, and gets unless the book is stuck. -/
class BookAnswers (BookType : Type) where
  bestPrice : BookType → Side → Option (Option ScaledPrice)
  volumeAt : BookType → Side → ScaledPrice → Option UInt64
  sideLevels : BookType → Side → Option (List (ScaledPrice × ℤ))

instance limitAnswers : BookAnswers LimitOrderBook where
  bestPrice := LimitOrderBook.bestPrice
  volumeAt := LimitOrderBook.volumeAt
  sideLevels := LimitOrderBook.sideLevels

instance mapAnswers : BookAnswers MapOrderBook where
  bestPrice book side := some (book.bestPrice side)
  volumeAt book side price := some (book.volumeAt side price)
  sideLevels book side := some (book.sideLevels side)

instance abseilAnswers : BookAnswers AbseilOrderBook where
  bestPrice book side := some (book.bestPrice side)
  volumeAt book side price := some (book.volumeAt side price)
  sideLevels book side := some (book.sideLevels side)

/-- Books with their instruments, in the order in which a loop meets them. -/
abbrev Iteration (BookType : Type) := List (Σ _ : UInt32, BookType)

namespace SimpleOrderBookRouter

open BookAnswers

variable {BookType : Type} [BookAnswers BookType]

/-- `Best Bid` or `Best Ask` of an instrument. -/
def bestLine (book : BookType) (side : Side) (title : String) : Option ScaledPrice → Option String
  | some price => do
    let volume ← volumeAt book side price
    return "  " ++ title ++ ": " ++ toString price ++ " x " ++ toString volume.toNat ++ "\n"
  | none => some ("  " ++ title ++ ": (empty)\n")

/-- What the loop of `print_best_bid_ask` prints of a book: nothing of one that has no best price. -/
def bestBidAskLines (instrumentId : UInt32) (book : BookType) : Option String := do
  let bestBid ← bestPrice book .buy
  let bestAsk ← bestPrice book .sell
  if bestBid = none ∧ bestAsk = none then return ""
  let bid ← bestLine book .buy "Best Bid" bestBid
  let ask ← bestLine book .sell "Best Ask" bestAsk
  return "Instrument " ++ toString instrumentId.toNat ++ ":\n" ++ bid ++ ask

/-- What the loop of `snapshot_as_string` prints of a book. -/
def snapshotLines (groupByLevels : UInt64) (instrumentId : UInt32) (book : BookType) : Option String := do
  let bestBid ← bestPrice book .buy
  let bestAsk ← bestPrice book .sell
  if bestBid = none ∧ bestAsk = none then return ""
  let levels ← Snapshot.printSnapshot (sideLevels book) groupByLevels
  return "// " ++ toString instrumentId.toNat ++ "\n" ++ levels

/-- A loop over the books. -/
def printBooks (lines : UInt32 → BookType → Option String) (books : Iteration BookType) : Option String := do
  return String.join (← books.mapM fun entry => lines entry.1 entry.2)

def snapshotAsString (groupByLevels : UInt64) (books : Iteration BookType) : Option String :=
  printBooks (snapshotLines groupByLevels) books

def bestHeader : String := "\n// ====== Final Best Bid/Ask ======\n"
def bestFooter : String := "// ====== End Best Bid/Ask ======\n"

def printBestBidAsk (books : Iteration BookType) : Option String := do
  return bestHeader ++ (← printBooks bestBidAskLines books) ++ bestFooter

/-- The books may be met in this order. -/
def Meets (router : SimpleOrderBookRouter BookType) (books : Iteration BookType) : Prop :=
  books.Perm router.orderBooks.entries

end SimpleOrderBookRouter

namespace ShardedOrderBookRouter

variable {BookType : Type} [BookAnswers BookType] {NumShards : ℕ}

/-- The shards one after the other, behind `sync_all`. -/
def printShards (print : Iteration BookType → Option String) (books : Fin NumShards → Iteration BookType) :
    Option String := do
  return String.join (← (List.finRange NumShards).mapM fun i => print (books i))

def snapshotAsString (groupByLevels : UInt64) (books : Fin NumShards → Iteration BookType) : Option String :=
  printShards (SimpleOrderBookRouter.snapshotAsString groupByLevels) books

/-- The router of each shard prints a header and a footer of its own. -/
def printBestBidAsk (books : Fin NumShards → Iteration BookType) : Option String := do
  let shards ← printShards SimpleOrderBookRouter.printBestBidAsk books
  return SimpleOrderBookRouter.bestHeader ++ shards ++ SimpleOrderBookRouter.bestFooter

/-- The books of each shard may be met in this order. -/
def Meets (router : ShardedOrderBookRouter BookType NumShards) (books : Fin NumShards → Iteration BookType) : Prop :=
  ∀ i, (router.shardRouters i).Meets (books i)

end ShardedOrderBookRouter

end BackTester
