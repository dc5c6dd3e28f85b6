import BackTester.Model.Common.Containers
import BackTester.Model.OrderBook.OrderBook

/-! # The order books over ordered maps

`MapOrderBook` and `AbseilOrderBook` keep a total for each price and a record for each order, in
maps of the same types up to the library they come from; the functions they share word for word are
written once, for either. Totals are `int64_t` in the source and integers here. As in the limit
order book, the scratch vector behind `side_levels` is left out.
-/

namespace BackTester

/-- `std::greater` on the bid side, `std::less` on the other. -/
def Side.order : Side → ScaledPrice → ScaledPrice → Ordering
  | .buy => fun p q => compare q p
  | _ => compare

instance (side : Side) : Std.TransCmp side.order := by
  cases side <;> unfold Side.order <;> infer_instance

instance (side : Side) : Std.LawfulEqCmp side.order := by
  cases side <;> unfold Side.order <;> infer_instance

/-- Totals by price, iterated from the best price on. -/
abbrev PriceMap (side : Side) := Std.ExtTreeMap ScaledPrice ℤ side.order

/-- The tuple `(side, price, size)`. -/
structure OrderRecord where
  side : Side
  price : ScaledPrice
  size : UInt32
deriving DecidableEq, Repr

/-- The maps of either book. -/
structure AggregateBook where
  bids : PriceMap .buy := ∅
  asks : PriceMap .sell := ∅
  orderIndex : UnorderedMap UInt64 OrderRecord := ∅

namespace AggregateBook

def addToLevel (book : AggregateBook) (side : Side) (price : ScaledPrice) (delta : ℤ) : AggregateBook :=
  if side = .buy then { book with bids := book.bids.insert price (book.bids.getD price 0 + delta) }
  else { book with asks := book.asks.insert price (book.asks.getD price 0 + delta) }

def removeFromLevel (book : AggregateBook) (side : Side) (price : ScaledPrice) (delta : ℤ) : AggregateBook :=
  if side = .buy then
    match book.bids[price]? with
    | none => book
    | some level =>
      if level - delta ≤ 0 then { book with bids := book.bids.erase price }
      else { book with bids := book.bids.insert price (level - delta) }
  else
    match book.asks[price]? with
    | none => book
    | some level =>
      if level - delta ≤ 0 then { book with asks := book.asks.erase price }
      else { book with asks := book.asks.insert price (level - delta) }

/-- `order_index_[id] = record`. -/
def assign (book : AggregateBook) (id : UInt64) (record : OrderRecord) : AggregateBook :=
  { book with orderIndex := book.orderIndex.assign id record }

/-- Add to the level and to the index. -/
def track (book : AggregateBook) (e : MarketDataEvent) : AggregateBook :=
  (book.addToLevel e.side e.price e.size.toNat).assign e.orderId ⟨e.side, e.price, e.size⟩

/-- A cancel of an order with a record. -/
def cancelTracked (book : AggregateBook) (record : OrderRecord) (e : MarketDataEvent) : AggregateBook :=
  let remaining : ℤ := e.size.toNat
  let delta : ℤ := record.size.toNat - remaining
  let book := if 0 < delta then book.removeFromLevel record.side record.price delta else book
  if remaining = 0 then { book with orderIndex := book.orderIndex.remove e.orderId }
  else book.assign e.orderId { record with size := UInt32.ofNat remaining.toNat }

/-- A modify of an order with a record. -/
def modifyTracked (book : AggregateBook) (record : OrderRecord) (e : MarketDataEvent) : AggregateBook :=
  let book := book.removeFromLevel record.side record.price record.size.toNat
  let newSide := if e.side ≠ .none then e.side else record.side
  let newPrice := if e.isPriceDefined then e.price else record.price
  (book.addToLevel newSide newPrice e.size.toNat).assign e.orderId ⟨newSide, newPrice, e.size⟩

def bestPrice (book : AggregateBook) : Side → Option ScaledPrice
  | .buy => book.bids.keys.head?
  | .sell => book.asks.keys.head?
  | .none => none

def volumeAt (book : AggregateBook) (side : Side) (price : ScaledPrice) : UInt64 :=
  match side with
  | .buy => (book.bids[price]?.map UInt64.ofInt).getD 0
  | .sell => (book.asks[price]?.map UInt64.ofInt).getD 0
  | .none => 0

def empty (book : AggregateBook) : Side → Bool
  | .buy => book.bids.isEmpty
  | .sell => book.asks.isEmpty
  | .none => book.asks.isEmpty && book.bids.isEmpty

def sideLevels (book : AggregateBook) (side : Side) : List (ScaledPrice × ℤ) :=
  if side = .buy then book.bids.toList else book.asks.toList

end AggregateBook

structure MapOrderBook extends AggregateBook where
  anomalies : BookAnomalyLog := {}

namespace MapOrderBook

def logBook (book : MapOrderBook) (kind : BookAnomaly) (event : MarketDataEvent) : MapOrderBook :=
  { book with anomalies := book.anomalies.logBook kind event "MapOrderBook" }

/-- Work on the maps. -/
def update (book : MapOrderBook) (change : AggregateBook → AggregateBook) : MapOrderBook :=
  { book with toAggregateBook := change book.toAggregateBook }

def applyImpl (book : MapOrderBook) (e : MarketDataEvent) : MapOrderBook :=
  match e.action with
  | .add =>
    if e.side = .none ∨ !e.isPriceDefined then book
    else
      let book :=
        match book.orderIndex.find? e.orderId with
        | some { side := side, price := price, size := storedSize } =>
          (book.logBook .duplicateAddReplaced e).update (·.removeFromLevel side price storedSize.toNat)
        | none => book
      book.update (·.track e)
  | .cancel =>
    match book.orderIndex.find? e.orderId with
    | none => book.logBook .unknownCancel e
    | some record => book.update (·.cancelTracked record e)
  | .modify =>
    match book.orderIndex.find? e.orderId with
    | none =>
      if e.side ≠ .none ∧ e.isPriceDefined then (book.logBook .unknownModifyAsAdd e).update (·.track e)
      else book.logBook .unknownModifyIgnored e
    | some record => book.update (·.modifyTracked record e)
  | .clear => book.update fun _ => {}
  | _ => book

instance : OrderBook MapOrderBook where
  fresh := {}
  apply := applyImpl

/-- One event after the other, from an empty book. -/
def run (events : List MarketDataEvent) : MapOrderBook := OrderBook.fed MapOrderBook events

@[simp] theorem run_append_singleton (events : List MarketDataEvent) (e : MarketDataEvent) :
    run (events ++ [e]) = (run events).applyImpl e := OrderBook.fed_append_singleton ..

end MapOrderBook

structure AbseilOrderBook extends AggregateBook

namespace AbseilOrderBook

/-- Work on the maps. -/
def update (book : AbseilOrderBook) (change : AggregateBook → AggregateBook) : AbseilOrderBook :=
  { book with toAggregateBook := change book.toAggregateBook }

def applyImpl (book : AbseilOrderBook) (e : MarketDataEvent) : AbseilOrderBook :=
  match e.action with
  | .add => if e.side = .none ∨ !e.isPriceDefined then book else book.update (·.track e)
  | .cancel =>
    match book.orderIndex.find? e.orderId with
    | none => book
    | some record => book.update (·.cancelTracked record e)
  | .modify =>
    match book.orderIndex.find? e.orderId with
    | none => if e.side ≠ .none ∧ e.isPriceDefined then book.update (·.track e) else book
    | some record => book.update (·.modifyTracked record e)
  | .clear => book.update fun _ => {}
  | _ => book

instance : OrderBook AbseilOrderBook where
  fresh := {}
  apply := applyImpl

/-- One event after the other, from an empty book. -/
def run (events : List MarketDataEvent) : AbseilOrderBook := OrderBook.fed AbseilOrderBook events

@[simp] theorem run_append_singleton (events : List MarketDataEvent) (e : MarketDataEvent) :
    run (events ++ [e]) = (run events).applyImpl e := OrderBook.fed_append_singleton ..

end AbseilOrderBook

end BackTester
