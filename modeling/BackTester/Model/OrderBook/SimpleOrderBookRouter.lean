import BackTester.Model.Common.Containers
import BackTester.Model.OrderBook.OrderBook

/-! # The simple router

One book for each instrument, made when the first event reaches it. An event without an instrument
goes where its order id was last seen.
-/

namespace BackTester

structure SimpleOrderBookRouter (BookType : Type) where
  orderBooks : UnorderedMap UInt32 BookType := ∅
  orderToInstrument : UnorderedMap UInt64 UInt32 := ∅
  anomalies : BookAnomalyLog := {}

namespace SimpleOrderBookRouter

variable {BookType : Type} [OrderBook BookType]

def applyImpl (router : SimpleOrderBookRouter BookType) (e : MarketDataEvent) : SimpleOrderBookRouter BookType :=
  let seen :=
    if e.instrumentId ≠ 0 ∧ e.orderId ≠ 0 then router.orderToInstrument.assign e.orderId e.instrumentId
    else router.orderToInstrument
  -- Reading with `operator[]` leaves an entry behind.
  let instrId := (seen.find? e.orderId).getD 0
  let router := { router with orderToInstrument := seen.assign e.orderId instrId }
  if instrId = 0 ∧ e.orderId ≠ 0 then
    { router with anomalies := router.anomalies.logRouter .unresolvedInstrument e }
  else
    let book := (router.orderBooks.find? instrId).getD OrderBook.fresh
    { router with orderBooks := router.orderBooks.assign instrId (OrderBook.apply book e) }

/-- One event after the other, from an empty router. -/
def run (events : List MarketDataEvent) : SimpleOrderBookRouter BookType := events.foldl applyImpl {}

@[simp] theorem run_append_singleton (events : List MarketDataEvent) (e : MarketDataEvent) :
    (run (events ++ [e]) : SimpleOrderBookRouter BookType) = (run events).applyImpl e := by
  simp [run, List.foldl_append]

end SimpleOrderBookRouter

end BackTester
