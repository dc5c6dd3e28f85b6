import BackTester.Model.Common.MarketDataEvent
import BackTester.ToMathlib.PriorityQueue
import BackTester.ToMathlib.ProcessNetwork

/-! # The flat merger

`FlatMerger::run_impl` beside the threads it works with: one producer for each file queue, which
pushes its events and closes the queue, and the consumer of the output queue, which pops until it is
told that the queue is closed. The heap is any priority queue for the comparator of the source.
-/

namespace BackTester

/-- The timestamp of a buffered event, and the file that it is of. -/
structure HeapKey (N : ℕ) where
  tsRecv : NanoTime
  fileIdx : Fin N
deriving DecidableEq

namespace FlatMerger

/-- The comparator of the heap. -/
def cmp {N : ℕ} (a b : HeapKey N) : Bool := decide (a.tsRecv > b.tsRecv)

inductive Thread (N : ℕ)
  | producer (file : Fin N)
  | merger
  | consumer
deriving DecidableEq, Fintype

inductive Channel (N : ℕ)
  | file (i : Fin N)
  | output
deriving DecidableEq

/-- Where a thread stands. The merger is in the loop that fills the buffer from file `i` on, at the
head of the loop that empties the heap, or about to refill the buffer of the file that it has just
emitted from. -/
inductive Local (N : ℕ) (Heap : Type*)
  | producing (file : Fin N) (events : List MarketDataEvent)
  | filling (i : ℕ) (buf : Fin N → MarketDataEvent) (heap : Heap)
  | merging (buf : Fin N → MarketDataEvent) (heap : Heap)
  | refilling (file : Fin N) (buf : Fin N → MarketDataEvent) (heap : Heap)
  | consuming (received : List MarketDataEvent)
  | finished
  | consumed (received : List MarketDataEvent)

variable {N : ℕ} {Heap : Type*} [PriorityQueue Heap (cmp (N := N))]

open PriorityQueue

/-- The callback of a pop: the event is buffered and its key goes on the heap. -/
def store (buf : Fin N → MarketDataEvent) (heap : Heap) (file : Fin N) (e : MarketDataEvent) :
    (Fin N → MarketDataEvent) × Heap :=
  (Function.update buf file e, push heap ⟨e.tsRecv, file⟩)

/-- The head of the second loop of `merge_impl`, and what `run_impl` does after it. -/
def loop (buf : Fin N → MarketDataEvent) (heap : Heap) : Act (Channel N) MarketDataEvent (Local N Heap) :=
  match top heap with
  | some key => .push .output (buf key.fileIdx) (.refilling key.fileIdx buf (pop heap))
  | none => .close .output .finished

def act : Local N Heap → Act (Channel N) MarketDataEvent (Local N Heap)
  | .producing file (e :: events) => .push (.file file) e (.producing file events)
  | .producing file [] => .close (.file file) .finished
  | .filling i buf heap =>
    if inside : i < N then
      .pop (.file ⟨i, inside⟩) fun
        | some e => .filling (i + 1) (store buf heap ⟨i, inside⟩ e).1 (store buf heap ⟨i, inside⟩ e).2
        | none => .filling (i + 1) buf heap
    else loop buf heap
  | .merging buf heap => loop buf heap
  | .refilling file buf heap =>
    .pop (.file file) fun
      | some e => .merging (store buf heap file e).1 (store buf heap file e).2
      | none => .merging buf heap
  | .consuming received =>
    .pop .output fun
      | some e => .consuming (received ++ [e])
      | none => .consumed received
  | .finished => .done
  | .consumed _ => .done

/-- The merger on the files `files`. -/
def network (Heap : Type*) [PriorityQueue Heap (cmp (N := N))] (files : Fin N → List MarketDataEvent) :
    ProcessNetwork (Thread N) (Channel N) MarketDataEvent (Local N Heap) where
  act := act
  start
    | .producer file => .producing file (files file)
    | .merger => .filling 0 (fun _ => {}) empty
    | .consumer => .consuming []

end FlatMerger

end BackTester
