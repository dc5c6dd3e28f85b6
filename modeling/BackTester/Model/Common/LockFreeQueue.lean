import BackTester.ToMathlib.RingIndex
import BackTester.ToMathlib.TransitionSystem

/-! # The lock-free queue

The single-producer single-consumer ring of `LockFreeQueue.hpp`. Every atomic load or store and
every access to a slot is one step; what a thread does with its own cached index happens together
with the step before it. A thread that is inside a call keeps the call's local variables in its
phase.
-/

namespace BackTester

variable {α : Type*}

/-- The members of the queue. A slot holds nothing before it is written and after its item is moved out. -/
structure LockFreeQueue (α : Type*) where
  buffer : UInt64 → Option α := fun _ => none
  head : UInt64 := 0
  tailCached : UInt64 := 0
  tail : UInt64 := 0
  headCached : UInt64 := 0
  closed : Bool := false

namespace LockFreeQueue

/-- What the producer can call. The item count of a batch is a 64-bit word. -/
inductive Call (α : Type*)
  | push (value : α)
  | pushBatch (items : List α) (counted : items.length < 2 ^ 64)
  | close

/-- The step the producer takes next. -/
inductive Producer (α : Type*)
  | idle
  | pushClosed (value : α)
  | pushHead (value : α)
  | pushSpinClosed (value : α) (h : UInt64)
  | pushSpinTail (value : α) (h : UInt64)
  | pushWrite (value : α) (h : UInt64)
  | pushStore (value : α) (h : UInt64)
  | batchClosed (items : List α)
  | batchHead (items : List α)
  | batchSpinClosed (items : List α) (h : UInt64)
  | batchSpinTail (items : List α) (h : UInt64)
  | batchWrite (items : List α) (h : UInt64) (i : ℕ)
  | batchStore (items : List α) (h : UInt64)
  | close
  | threw (error : String)

/-- The step the consumer takes next. -/
inductive Consumer (α : Type*)
  | idle
  | loadTail
  | loadHead (t : UInt64)
  | spinClosed (t : UInt64)
  | recheckHead (t : UInt64)
  | spinHead (t : UInt64)
  | read (t : UInt64)
  | store (t : UInt64) (item : Option α)
  | call (item : Option α)

/-- The queue with its two threads, and what they did so far: `pushed` are the items published, `taken` those whose slot
the consumer freed, `popped` those handed to its callback, `results` what its pops returned. `entry` is the queue at the
producer's last call, when `entered` was published. -/
structure State (α : Type*) where
  queue : LockFreeQueue α := {}
  producer : Producer α := .idle
  consumer : Consumer α := .idle
  pushed : List α := []
  taken : List (Option α) := []
  popped : List (Option α) := []
  results : List Bool := []
  entry : LockFreeQueue α := {}
  entered : List α := []

variable (capacity : RingCapacity) (state : State α)

def pushIsClosed : String := "LockFreeQueue::push: queue is closed"
def pushBatchIsClosed : String := "LockFreeQueue::push_batch: queue is closed"
def pushBatchTooLong : String := "LockFreeQueue::push_batch: count must be less than Capacity"

/-- The free slots that `push_batch` sees. -/
def free (h tailCached : UInt64) : UInt64 := (tailCached - h - 1 + capacity.word) &&& capacity.mask

/-- `push` goes on to write once the cached tail leaves the slot after `h`. -/
def pushGuard (value : α) (h tailCached : UInt64) : Producer α :=
  if (h + 1) &&& capacity.mask = tailCached then .pushSpinClosed value h else .pushWrite value h

/-- `push_batch` goes on to write once the cached tail leaves enough slots. -/
def batchGuard (items : List α) (h tailCached : UInt64) : Producer α :=
  if free capacity h tailCached < .ofNat items.length then .batchSpinClosed items h else .batchWrite items h 0

def enter (call : Call α) : State α :=
  { state with
    entry := state.queue
    entered := state.pushed
    producer :=
      match call with
      | .push value => .pushClosed value
      | .pushBatch items _ => .batchClosed items
      | .close => .close }

/-- `push_impl`, `push_batch_impl` and `close_impl`, one step of the call the producer is in. -/
def produce : Option (State α) :=
  match state.producer with
  | .idle => none
  | .pushClosed value =>
    some { state with producer := if state.queue.closed then .threw pushIsClosed else .pushHead value }
  | .pushHead value =>
    some { state with producer := pushGuard capacity value state.queue.head state.queue.tailCached }
  | .pushSpinClosed value h =>
    some { state with producer := if state.queue.closed then .threw pushIsClosed else .pushSpinTail value h }
  | .pushSpinTail value h =>
    some { state with
      queue := { state.queue with tailCached := state.queue.tail }
      producer := pushGuard capacity value h state.queue.tail }
  | .pushWrite value h =>
    some { state with
      queue := { state.queue with buffer := Function.update state.queue.buffer h (some value) }
      producer := .pushStore value h }
  | .pushStore value h =>
    some { state with
      queue := { state.queue with head := (h + 1) &&& capacity.mask }
      producer := .idle
      pushed := state.pushed ++ [value] }
  | .batchClosed items =>
    some { state with
      producer :=
        if state.queue.closed then .threw pushBatchIsClosed
        else if UInt64.ofNat items.length = 0 then .idle
        else if capacity.word ≤ .ofNat items.length then .threw pushBatchTooLong
        else .batchHead items }
  | .batchHead items =>
    some { state with producer := batchGuard capacity items state.queue.head state.queue.tailCached }
  | .batchSpinClosed items h =>
    some { state with producer := if state.queue.closed then .threw pushBatchIsClosed else .batchSpinTail items h }
  | .batchSpinTail items h =>
    some { state with
      queue := { state.queue with tailCached := state.queue.tail }
      producer := batchGuard capacity items h state.queue.tail }
  | .batchWrite items h i =>
    some { state with
      queue := { state.queue with
        buffer := Function.update state.queue.buffer ((h + .ofNat i) &&& capacity.mask) items[i]? }
      producer := if i + 1 < items.length then .batchWrite items h (i + 1) else .batchStore items h }
  | .batchStore items h =>
    some { state with
      queue := { state.queue with head := (h + .ofNat items.length) &&& capacity.mask }
      producer := .idle
      pushed := state.pushed ++ items }
  | .close =>
    some { state with queue := { state.queue with closed := true }, producer := .idle }
  | .threw _ => some { state with producer := .idle }

/-- `pop_impl`, one step of the call the consumer is in. -/
def consume : Option (State α) :=
  match state.consumer with
  | .idle => none
  | .loadTail =>
    some { state with
      consumer := if state.queue.tail = state.queue.headCached then .loadHead state.queue.tail
        else .read state.queue.tail }
  | .loadHead t =>
    some { state with
      queue := { state.queue with headCached := state.queue.head }
      consumer := if t = state.queue.head then .spinClosed t else .read t }
  | .spinClosed t =>
    some { state with consumer := if state.queue.closed then .recheckHead t else .spinHead t }
  | .recheckHead t =>
    -- an item may have slipped in between the last load of head_ and the load of closed_
    if t = state.queue.head then
      some { state with
        queue := { state.queue with headCached := state.queue.head }
        consumer := .idle
        results := state.results ++ [false] }
    else
      some { state with queue := { state.queue with headCached := state.queue.head }, consumer := .read t }
  | .spinHead t =>
    some { state with
      queue := { state.queue with headCached := state.queue.head }
      consumer := if t = state.queue.head then .spinClosed t else .read t }
  | .read t =>
    some { state with
      queue := { state.queue with buffer := Function.update state.queue.buffer t none }
      consumer := .store t (state.queue.buffer t) }
  | .store t item =>
    some { state with
      queue := { state.queue with tail := (t + 1) &&& capacity.mask }
      consumer := .call item
      taken := state.taken ++ [item] }
  | .call item =>
    some { state with
      consumer := .idle
      popped := state.popped ++ [item]
      results := state.results ++ [true] }

/-- Whose step is next: a thread starts a call of its own choice while it is idle, and makes the next access of its call
otherwise. -/
inductive Move (α : Type*)
  | enter (call : Call α)
  | produce
  | pop
  | consume

def move : Move α → Option (State α)
  | .enter call =>
    match state.producer with
    | .idle => some (enter state call)
    | _ => none
  | .produce => produce capacity state
  | .pop =>
    match state.consumer with
    | .idle => some { state with consumer := .loadTail }
    | _ => none
  | .consume => consume capacity state

/-- The queue from its construction on, under every interleaving of its two threads. -/
def system (α : Type*) : TransitionSystem (State α) :=
  .ofMoves {} (move capacity)

end LockFreeQueue

end BackTester
