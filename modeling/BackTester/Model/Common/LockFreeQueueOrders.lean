import BackTester.Model.Common.LockFreeQueue
import BackTester.ToMathlib.ReleaseAcquire

/-! # The memory orders of the lock-free queue

The ring of `LockFreeQueue.hpp` with the memory orders that its loads and stores have in the source:
a load need not see the latest store of the other thread. The calls and their steps are those of the
queue over sequentially consistent memory; a step that loads is given the index of the store that it
returns. The store to `closed_` is sequentially consistent in the source and a release store here,
which promises less. `head_` and `closed_` are stored to by the producer alone, `tail_` by the
consumer, and the cached indices are private to their threads.
-/

namespace BackTester.LockFreeQueue

variable {α : Type*}

/-- The atomic members and the threads. -/
inductive Source
  | head
  | tail
  | closed
  | producer
  | consumer
deriving DecidableEq

/-- The members, and what either thread knows of them. -/
structure Memory (α : Type*) where
  buffer : Plain Source UInt64 (Option α) := { contents := fun _ => none }
  head : Atomic Source UInt64 := .init 0
  tailCached : UInt64 := 0
  tail : Atomic Source UInt64 := .init 0
  headCached : UInt64 := 0
  closed : Atomic Source Bool := .init false
  producerView : View Source := fun _ => 0
  consumerView : View Source := fun _ => 0

/-- The memory with the two threads and their histories. -/
structure Ordered (α : Type*) where
  memory : Memory α := {}
  producer : Producer α := .idle
  consumer : Consumer α := .idle
  pushed : List α := []
  taken : List (Option α) := []
  popped : List (Option α) := []
  results : List Bool := []

namespace Ordered

variable (capacity : RingCapacity) (state : Ordered α) (index : ℕ)

/-- `closed_.load(acquire)` of the producer. -/
def producerClosed (next : Bool → Producer α) : Option (Ordered α) :=
  (state.memory.closed.acquire .closed state.memory.producerView index).map fun (closed, view) =>
    { state with memory := { state.memory with producerView := view }, producer := next closed }

/-- `head_.load(relaxed)`. -/
def producerHead (next : UInt64 → Producer α) : Option (Ordered α) :=
  (state.memory.head.relaxed .head state.memory.producerView index).map fun (h, view) =>
    { state with memory := { state.memory with producerView := view }, producer := next h }

/-- `tail_cached_ = tail_.load(acquire)`. -/
def producerTail (next : UInt64 → Producer α) : Option (Ordered α) :=
  (state.memory.tail.acquire .tail state.memory.producerView index).map fun (tail, view) =>
    { state with memory := { state.memory with producerView := view, tailCached := tail }, producer := next tail }

/-- A slot is written. -/
def producerWrite (slot : UInt64) (item : Option α) (next : Producer α) : Ordered α :=
  { state with
    memory := { state.memory with
      buffer := state.memory.buffer.access state.memory.producerView .producer slot item
      producerView := state.memory.producerView.next .producer }
    producer := next }

/-- `head_.store(release)`. -/
def producerStore (head : UInt64) (items : List α) : Ordered α :=
  { state with
    memory := { state.memory with
      head := state.memory.head.release .head state.memory.producerView head
      producerView := state.memory.head.known .head state.memory.producerView }
    producer := .idle
    pushed := state.pushed ++ items }

/-- `tail_.load(relaxed)`. -/
def consumerTail (next : UInt64 → Consumer α) : Option (Ordered α) :=
  (state.memory.tail.relaxed .tail state.memory.consumerView index).map fun (t, view) =>
    { state with memory := { state.memory with consumerView := view }, consumer := next t }

/-- `head_cached_ = head_.load(acquire)`. -/
def consumerHead (next : UInt64 → Consumer α) (results : UInt64 → List Bool) : Option (Ordered α) :=
  (state.memory.head.acquire .head state.memory.consumerView index).map fun (head, view) =>
    { state with
      memory := { state.memory with consumerView := view, headCached := head }
      consumer := next head
      results := state.results ++ results head }

/-- `closed_.load(acquire)` of the consumer. -/
def consumerClosed (next : Bool → Consumer α) : Option (Ordered α) :=
  (state.memory.closed.acquire .closed state.memory.consumerView index).map fun (closed, view) =>
    { state with memory := { state.memory with consumerView := view }, consumer := next closed }

def enter (call : Call α) : Ordered α :=
  { state with
    producer :=
      match call with
      | .push value => .pushClosed value
      | .pushBatch items _ => .batchClosed items
      | .close => .close }

/-- `push_impl`, `push_batch_impl` and `close_impl`, one step of the call the producer is in. -/
def produce : Option (Ordered α) :=
  match state.producer with
  | .idle => none
  | .pushClosed value =>
    state.producerClosed index fun closed => if closed then .threw pushIsClosed else .pushHead value
  | .pushHead value => state.producerHead index fun h => pushGuard capacity value h state.memory.tailCached
  | .pushSpinClosed value h =>
    state.producerClosed index fun closed => if closed then .threw pushIsClosed else .pushSpinTail value h
  | .pushSpinTail value h => state.producerTail index fun tail => pushGuard capacity value h tail
  | .pushWrite value h => some (state.producerWrite h (some value) (.pushStore value h))
  | .pushStore value h => some (state.producerStore ((h + 1) &&& capacity.mask) [value])
  | .batchClosed items =>
    state.producerClosed index fun closed =>
      if closed then .threw pushBatchIsClosed
      else if UInt64.ofNat items.length = 0 then .idle
      else if capacity.word ≤ .ofNat items.length then .threw pushBatchTooLong
      else .batchHead items
  | .batchHead items => state.producerHead index fun h => batchGuard capacity items h state.memory.tailCached
  | .batchSpinClosed items h =>
    state.producerClosed index fun closed => if closed then .threw pushBatchIsClosed else .batchSpinTail items h
  | .batchSpinTail items h => state.producerTail index fun tail => batchGuard capacity items h tail
  | .batchWrite items h i =>
    some (state.producerWrite ((h + .ofNat i) &&& capacity.mask) items[i]?
      (if i + 1 < items.length then .batchWrite items h (i + 1) else .batchStore items h))
  | .batchStore items h => some (state.producerStore ((h + .ofNat items.length) &&& capacity.mask) items)
  | .close =>
    some { state with
      memory := { state.memory with
        closed := state.memory.closed.release .closed state.memory.producerView true
        producerView := state.memory.closed.known .closed state.memory.producerView }
      producer := .idle }
  | .threw _ => some { state with producer := .idle }

/-- `pop_impl`, one step of the call the consumer is in. -/
def consume : Option (Ordered α) :=
  match state.consumer with
  | .idle => none
  | .loadTail => state.consumerTail index fun t => if t = state.memory.headCached then .loadHead t else .read t
  | .loadHead t => state.consumerHead index (fun head => if t = head then .spinClosed t else .read t) fun _ => []
  | .spinClosed t => state.consumerClosed index fun closed => if closed then .recheckHead t else .spinHead t
  | .recheckHead t =>
    state.consumerHead index (fun head => if t = head then .idle else .read t) fun head =>
      if t = head then [false] else []
  | .spinHead t => state.consumerHead index (fun head => if t = head then .spinClosed t else .read t) fun _ => []
  | .read t =>
    some { state with
      memory := { state.memory with
        buffer := state.memory.buffer.access state.memory.consumerView .consumer t none
        consumerView := state.memory.consumerView.next .consumer }
      consumer := .store t (state.memory.buffer.contents t) }
  | .store t item =>
    some { state with
      memory := { state.memory with
        tail := state.memory.tail.release .tail state.memory.consumerView ((t + 1) &&& capacity.mask)
        consumerView := state.memory.tail.known .tail state.memory.consumerView }
      consumer := .call item
      taken := state.taken ++ [item] }
  | .call item =>
    some { state with
      consumer := .idle
      popped := state.popped ++ [item]
      results := state.results ++ [true] }

/-- Whose step is next, and for a step that loads which store it loads. -/
inductive Move (α : Type*)
  | enter (call : Call α)
  | produce (index : ℕ)
  | pop
  | consume (index : ℕ)

def move : Move α → Option (Ordered α)
  | .enter call =>
    match state.producer with
    | .idle => some (enter state call)
    | _ => none
  | .produce index => produce capacity state index
  | .pop =>
    match state.consumer with
    | .idle => some { state with consumer := .loadTail }
    | _ => none
  | .consume index => consume capacity state index

/-- The queue from its construction on, under every interleaving of its two threads and every choice
of the stores they load. -/
def system (α : Type*) : TransitionSystem (Ordered α) :=
  .ofMoves {} (move capacity)

end Ordered

end BackTester.LockFreeQueue
