import BackTester.Model.Common.MarketDataEvent
import BackTester.ToMathlib.Prefixes

/-! # Routing by what was seen

Where an event belongs is a matter of the event and of the events before it: its own instrument, or
the instrument under which its order id was last seen. Which events reach a book, and which reach
none, are selections from the whole sequence.
-/

namespace BackTester.Routing

/-- The instrument under which an order id was last seen, 0 if under none. -/
def lastSeen (prior : List MarketDataEvent) (id : UInt64) : UInt32 :=
  ((prior.reverse.find? fun e => e.orderId = id ∧ e.instrumentId ≠ 0).map MarketDataEvent.instrumentId).getD 0

/-- An event with an instrument belongs there; one without belongs where its order id was last seen. -/
def belongs (X : UInt32) (prior : List MarketDataEvent) (e : MarketDataEvent) : Bool :=
  e.instrumentId = X ∨ e.instrumentId = 0 ∧ e.orderId ≠ 0 ∧ lastSeen prior e.orderId = X

/-- The events of a sequence that belong to an instrument. -/
def belonging (X : UInt32) (events : List MarketDataEvent) : List MarketDataEvent := events.filterAlong (belongs X)

/-- The instrument of an order as the next event finds it. -/
def instrumentOf (prior : List MarketDataEvent) (e : MarketDataEvent) : UInt32 :=
  if e.instrumentId ≠ 0 then e.instrumentId else lastSeen prior e.orderId

@[simp] theorem lastSeen_nil (id : UInt64) : lastSeen [] id = 0 := rfl

theorem lastSeen_append_singleton (prior : List MarketDataEvent) (e : MarketDataEvent) (id : UInt64) :
    lastSeen (prior ++ [e]) id = if e.orderId = id ∧ e.instrumentId ≠ 0 then e.instrumentId else lastSeen prior id := by
  unfold lastSeen
  rw [List.reverse_append, List.reverse_singleton, List.singleton_append, List.find?_cons]
  by_cases here : e.orderId = id ∧ e.instrumentId ≠ 0 <;> simp [here]

/-- An event finds the instrument that the next event with its order id will find. -/
theorem lastSeen_append_self (prior : List MarketDataEvent) (e : MarketDataEvent) :
    lastSeen (prior ++ [e]) e.orderId = instrumentOf prior e := by
  rw [lastSeen_append_singleton, instrumentOf]
  by_cases given : e.instrumentId ≠ 0
  · rw [if_pos ⟨rfl, given⟩, if_pos given]
  · rw [if_neg fun both => given both.2, if_neg given]

end BackTester.Routing
