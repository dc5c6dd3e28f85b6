import BackTester.Model.Common.MarketDataEvent

/-! # Order books

What a router needs of the books it keeps.
-/

namespace BackTester

class OrderBook (BookType : Type) where
  fresh : BookType
  apply : BookType → MarketDataEvent → BookType

namespace OrderBook

variable (BookType : Type) [OrderBook BookType]

/-- A fresh book after a sequence of events. -/
def fed (events : List MarketDataEvent) : BookType := events.foldl apply fresh

@[simp] theorem fed_nil : fed BookType [] = fresh := rfl

@[simp] theorem fed_append_singleton (events : List MarketDataEvent) (e : MarketDataEvent) :
    fed BookType (events ++ [e]) = apply (fed BookType events) e := by
  rw [fed, List.foldl_append]
  rfl

end OrderBook

end BackTester
