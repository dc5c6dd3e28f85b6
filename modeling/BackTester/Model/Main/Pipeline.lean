import BackTester.Model.Ingestion.FlatMerger

/-! # The pipeline of `main`

The producer threads of `main.cpp`, which hand over their events in batches, with the merger and the
dispatcher behind them. What the parser of a file hands to `push_fn` is given; the dispatcher keeps
the events that it applies to the router.
-/

namespace BackTester

/-- The places of `batch` that are in use. -/
structure BatchPusher (T : Type*) (BatchSize : ℕ) where
  batch : List T
  fits : batch.length ≤ BatchSize

namespace BatchPusher

variable {T : Type*} {BatchSize : ℕ}

def empty : BatchPusher T BatchSize := ⟨[], Nat.zero_le _⟩

def count (self : BatchPusher T BatchSize) : ℕ := self.batch.length

end BatchPusher

namespace Pipeline

open FlatMerger

/-- `BatchSize` in `main`. -/
def batchSize : ℕ := 256

/-- What is left for a thread to do: for a producer its accesses to its queue, and for the merger
and the dispatcher where they stand. -/
inductive Local (N : ℕ) (Heap : Type*)
  | asking (file : Fin N) (ifClosed ifOpen : Local N Heap)
  | pushing (file : Fin N) (items : List MarketDataEvent) (next : Local N Heap)
  | closing (file : Fin N) (next : Local N Heap)
  | outOfBounds
  | finished
  | behind (state : FlatMerger.Local N Heap)

variable {N : ℕ} {Heap : Type*} {BatchSize : ℕ}

def flush (file : Fin N) (self : BatchPusher MarketDataEvent BatchSize)
    (next : BatchPusher MarketDataEvent BatchSize → Local N Heap) : Local N Heap :=
  if self.count > 0 then .asking file (next self) (.pushing file self.batch (next .empty)) else next self

/-- A full batch stays full where the queue is closed, and the item after it is written outside of the array. -/
def push (file : Fin N) (self : BatchPusher MarketDataEvent BatchSize) (item : MarketDataEvent)
    (next : BatchPusher MarketDataEvent BatchSize → Local N Heap) : Local N Heap :=
  if room : self.batch.length < BatchSize then
    let self : BatchPusher MarketDataEvent BatchSize := ⟨self.batch ++ [item], by
      rw [List.length_append, List.length_singleton]
      exact room⟩
    if self.count ≥ BatchSize then flush file self next else next self
  else .outOfBounds

/-- The thread of a producer: the queue is closed first, and the batch is flushed when it is destroyed. -/
def produce (file : Fin N) : List MarketDataEvent → BatchPusher MarketDataEvent BatchSize → Local N Heap
  | e :: events, batcher => push file batcher e (produce file events)
  | [], batcher => .closing file (flush file batcher fun _ => .finished)

variable [PriorityQueue Heap (cmp (N := N))]

def act : Local N Heap → Act (Channel N) MarketDataEvent (Local N Heap)
  | .asking file ifClosed ifOpen => .isClosed (.file file) fun closed => if closed then ifClosed else ifOpen
  | .pushing file items next => .pushBatch (.file file) items next
  | .closing file next => .close (.file file) next
  | .outOfBounds => .done
  | .finished => .done
  | .behind state => (FlatMerger.act state).map .behind

/-- `main` on files whose parsers hand over `events`. -/
def network (Heap : Type*) [PriorityQueue Heap (cmp (N := N))] (events : Fin N → List MarketDataEvent) :
    ProcessNetwork (Thread N) (Channel N) MarketDataEvent (Local N Heap) where
  act := act
  start
    | .producer file => produce file (events file) (.empty : BatchPusher MarketDataEvent batchSize)
    | .merger => .behind (.filling 0 (fun _ => {}) PriorityQueue.empty)
    | .consumer => .behind (.consuming [])

end Pipeline

end BackTester
