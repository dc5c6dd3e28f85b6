import BackTester.Model.Common.LockFreeQueue
import BackTester.ToMathlib.AtomicObject

/-! # The calls of the lock-free queue

What the producer and the consumer of `LockFreeQueue.hpp` call, and how their calls end. The queue
whose member functions are single steps holds fewer items than the ring has slots, and a push that
it has no room for waits.
-/

namespace BackTester

/-- A queue that takes items until it is closed. -/
structure BoundedQueue (α : Type*) where
  items : List α := []
  closed : Bool := false

namespace LockFreeQueue

inductive Role
  | producer
  | consumer
deriving DecidableEq

inductive Operation (α : Type*)
  | push (value : α)
  | pushBatch (items : List α)
  | close
  | pop

/-- How a call ends. A pop that returns true has handed its callback what it found in the slot. -/
inductive Result (α : Type*)
  | returned
  | threw (error : String)
  | popped (item : Option α)
  | refused

def Call.operation {α : Type*} : Call α → Operation α
  | .push value => .push value
  | .pushBatch items _ => .pushBatch items
  | .close => .close

variable {α : Type*} (capacity : RingCapacity)

/-- What is seen of a step: that a call is made, or how it ends. -/
def shown (state : State α) : Move α → Option (CallEvent Role (Operation α) (Result α))
  | .enter call => some (.call .producer call.operation)
  | .pop => some (.call .consumer .pop)
  | .produce =>
    match state.producer with
    | .batchClosed items =>
      if state.queue.closed = false ∧ UInt64.ofNat items.length = 0 then some (.ret .producer .returned) else none
    | .pushStore _ _ | .batchStore _ _ | .close => some (.ret .producer .returned)
    | .threw error => some (.ret .producer (.threw error))
    | _ => none
  | .consume =>
    match state.consumer with
    | .recheckHead t => if t = state.queue.head then some (.ret .consumer .refused) else none
    | .call item => some (.ret .consumer (.popped item))
    | _ => none

/-- The calls and how they end, under every interleaving of the two threads. -/
def threads (α : Type*) : LabelledSystem (State α) (CallEvent Role (Operation α) (Result α)) :=
  .ofMoves {} (move capacity) shown

/-- The queue whose every member function is one step. -/
def object (α : Type*) : AtomicObject (Operation α) (Result α) (BoundedQueue α) where
  start := {}
  apply self
    | .push value =>
      if self.closed then some (.threw pushIsClosed, self)
      else if self.items.length + 1 < capacity.size then some (.returned, { self with items := self.items ++ [value] })
      else none
    | .pushBatch items =>
      if self.closed then some (.threw pushBatchIsClosed, self)
      else if items.length = 0 then some (.returned, self)
      else if capacity.size ≤ items.length then some (.threw pushBatchTooLong, self)
      else if self.items.length + items.length < capacity.size then
        some (.returned, { self with items := self.items ++ items })
      else none
    | .close => some (.returned, { self with closed := true })
    | .pop =>
      match self.items with
      | item :: rest => some (.popped (some item), { self with items := rest })
      | [] => if self.closed then some (.refused, self) else none

end LockFreeQueue

end BackTester
