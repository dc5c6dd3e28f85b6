import Mathlib.Data.Nat.Notation
import Mathlib.Logic.Basic

/-! # First-in first-out queues

What a network of threads may rely on of the queues between them: values come out in the order they went in, a reader
waits at an empty queue, and once the queue is closed it is told so instead. A writer may find out whether a queue is
closed, and may write to it until it is.
-/

class FifoQueue (Queue : Type*) (Value : outParam Type*) where
  empty : Queue
  /-- Nothing if the queue refuses. -/
  push : Queue → Value → Option Queue
  pushBatch : Queue → List Value → Option Queue
  /-- Nothing while the caller has to wait. -/
  pop : Queue → Option (Option Value × Queue)
  close : Queue → Queue
  isClosed : Queue → Bool
  items : Queue → List Value
  items_empty : items empty = []
  isClosed_empty : isClosed empty = false
  push_of_open {queue : Queue} (value : Value) (opened : isClosed queue = false) :
    ∃ after, push queue value = some after ∧ items after = items queue ++ [value] ∧ isClosed after = false
  pushBatch_of_open {queue : Queue} (values : List Value) (opened : isClosed queue = false) :
    ∃ after, pushBatch queue values = some after ∧ items after = items queue ++ values ∧ isClosed after = false
  pop_of_cons {queue : Queue} {value : Value} {rest : List Value} (holds : items queue = value :: rest) :
    ∃ after, pop queue = some (some value, after) ∧ items after = rest ∧ isClosed after = isClosed queue
  pop_of_closed {queue : Queue} (isEmpty : items queue = []) (closed : isClosed queue = true) :
    ∃ after, pop queue = some (none, after) ∧ items after = [] ∧ isClosed after = true
  pop_of_open {queue : Queue} (isEmpty : items queue = []) (opened : isClosed queue = false) : pop queue = none
  items_close (queue : Queue) : items (close queue) = items queue
  isClosed_close (queue : Queue) : isClosed (close queue) = true
