import BackTester.Model.OrderBook.LimitOrderBook
import BackTester.Model.OrderBook.ShardedOrderBookRouter

/-! # The summary of the anomaly log

A router and each of its books keep the calls that they made. The singleton has seen all of them,
those of different threads in an order that is left open; its counters do not depend on it.
-/

namespace BackTester

/-- The calls of `log_book` that a book has made. -/
class LogsAnomalies (BookType : Type) where
  logged : BookType → List (BookAnomaly × MarketDataEvent × String)

instance : LogsAnomalies LimitOrderBook := ⟨fun book => book.anomalies.book⟩

namespace BookAnomalyLog

/-- A line on a counter of 64 bits. -/
def summaryLine (name : String) (count : ℕ) : String := name ++ "=" ++ toString (UInt64.ofNat count).toNat ++ "\n"

def writeSummary (log : BookAnomalyLog) : String :=
  "// order-book anomaly summary\n" ++ summaryLine "unknown_cancel" (log.bookCount .unknownCancel) ++
    summaryLine "unknown_modify_ignored" (log.bookCount .unknownModifyIgnored) ++
    summaryLine "unknown_modify_as_add" (log.bookCount .unknownModifyAsAdd) ++
    summaryLine "duplicate_add_replaced" (log.bookCount .duplicateAddReplaced) ++
    "// router anomaly summary\n" ++ summaryLine "unresolved_instrument" (log.routerCount .unresolvedInstrument)

end BookAnomalyLog

variable {BookType : Type} [LogsAnomalies BookType] {NumShards : ℕ}

/-- The calls of the books of a router. -/
def SimpleOrderBookRouter.booksLogged (router : SimpleOrderBookRouter BookType) :
    List (BookAnomaly × MarketDataEvent × String) :=
  router.orderBooks.values.flatMap LogsAnomalies.logged

/-- What the singleton has seen of a router and its books. -/
def SimpleOrderBookRouter.anomalyLog (router : SimpleOrderBookRouter BookType) : BookAnomalyLog where
  book := router.booksLogged
  router := router.anomalies.router

/-- What the singleton has seen of the front and of the shards. -/
def ShardedOrderBookRouter.anomalyLog (router : ShardedOrderBookRouter BookType NumShards) : BookAnomalyLog where
  book := (List.finRange NumShards).flatMap fun i => (router.shardRouters i).booksLogged
  router := router.anomalies.router ++ (List.finRange NumShards).flatMap
    fun i => (router.shardRouters i).anomalies.router

end BackTester
