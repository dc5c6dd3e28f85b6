import BackTester.Model.Main.Pipeline
import BackTester.Model.OrderBook.RouterOutput
import BackTester.ToMathlib.NetworkEmbedding

/-! # All threads of `main`

The pipeline with the dispatcher as it is, in counting mode, and the io thread. The dispatcher
applies every event to the router; it counts those with a timestamp and puts a snapshot into the
print queue after every `REPORT_AFTER_EACH_N_EVENTS` of them. In which order a loop meets the books
of the router is given, by the events that were applied to it.
-/

namespace BackTester

abbrev MainRouter := SimpleOrderBookRouter AbseilOrderBook

def reportAfterEachNEvents : UInt64 := 5000000

structure ProcessMarketDataEvent where
  counter : UInt64 := 0
  orderBookRouter : MainRouter := {}

namespace ProcessMarketDataEvent

def report (count : UInt64) (snapshot : String) : String :=
  "\n=== Snapshot at " ++ toString count.toNat ++ " events ===\n" ++ snapshot ++ "===============================\n\n"

/-- `operator()`, with what it pushes to the print queue; `books` is what a loop meets. -/
def process (self : ProcessMarketDataEvent) (books : MainRouter → Iteration AbseilOrderBook) (e : MarketDataEvent) :
    Option (ProcessMarketDataEvent × Option String) :=
  let orderBookRouter := self.orderBookRouter.applyImpl e
  if e.tsRecv > 0 then
    let count := self.counter + 1
    if count % reportAfterEachNEvents = 0 then do
      let snapshot ← SimpleOrderBookRouter.snapshotAsString 5 (books orderBookRouter)
      return ({ counter := count, orderBookRouter }, some (report count snapshot))
    else some ({ counter := count, orderBookRouter }, none)
  else some ({ self with orderBookRouter }, none)

end ProcessMarketDataEvent

namespace Main

/-- The threads of the pipeline, whose consumer is the dispatcher, and the io thread. -/
inductive Thread (N : ℕ)
  | upstream (thread : FlatMerger.Thread N)
  | io
deriving DecidableEq, Fintype

/-- The queues of the pipeline and the print queue. -/
abbrev Channel (N : ℕ) := FlatMerger.Channel N ⊕ Unit

/-- What the queues hold: events, and in the print queue texts. -/
abbrev Item := MarketDataEvent ⊕ String

def printQueue {N : ℕ} : Channel N := .inr ()

/-- Where a thread stands. The dispatcher has its sink and the events that it has applied; it may be
about to push a message, and at the end, with the best prices printed, to close the print queue. -/
inductive Local (N : ℕ) (Heap : Type*)
  | upstream (state : Pipeline.Local N Heap)
  | dispatching (sink : ProcessMarketDataEvent) (applied : List MarketDataEvent)
  | reporting (message : String) (sink : ProcessMarketDataEvent) (applied : List MarketDataEvent)
  | closing (bests : String) (sink : ProcessMarketDataEvent) (applied : List MarketDataEvent)
  | dispatched (bests : String) (sink : ProcessMarketDataEvent) (applied : List MarketDataEvent)
  | stuck
  | printing (printed : List String)
  | printed (printed : List String)

variable {N : ℕ} {Heap : Type*} (order : List MarketDataEvent → MainRouter → Iteration AbseilOrderBook)

/-- What the dispatcher does with what a pop answers: the callback on an event, and the end of the loop. -/
def dispatch (sink : ProcessMarketDataEvent) (applied : List MarketDataEvent) : Option MarketDataEvent → Local N Heap
  | some e =>
    match sink.process (order (applied ++ [e])) e with
    | some (sink, some message) => .reporting message sink (applied ++ [e])
    | some (sink, none) => .dispatching sink (applied ++ [e])
    | none => .stuck
  | none =>
    match SimpleOrderBookRouter.printBestBidAsk (order applied sink.orderBookRouter) with
    | some bests => .closing bests sink applied
    | none => .stuck

/-- What the io thread does with what a pop answers. -/
def print (printed : List String) : Option String → Local N Heap
  | some message => .printing (printed ++ [message])
  | none => .printed printed

variable [PriorityQueue Heap (FlatMerger.cmp (N := N))]

def act : Local N Heap → Act (Channel N) Item (Local N Heap)
  | .upstream state => (Pipeline.act state).widen .upstream
  | .dispatching sink applied => .pop (.inl .output) fun value => dispatch order sink applied (value.bind Sum.getLeft?)
  | .reporting message sink applied => .push printQueue (.inr message) (.dispatching sink applied)
  | .closing bests sink applied => .close printQueue (.dispatched bests sink applied)
  | .dispatched _ _ _ => .done
  | .stuck => .done
  | .printing printed => .pop printQueue fun value => print printed (value.bind Sum.getRight?)
  | .printed _ => .done

/-- `main` on files whose parsers hand over `events`. -/
def network (Heap : Type*) [PriorityQueue Heap (FlatMerger.cmp (N := N))] (events : Fin N → List MarketDataEvent) :
    ProcessNetwork (Thread N) (Channel N) Item (Local N Heap) where
  act := act order
  start
    | .upstream .consumer => .dispatching {} []
    | .upstream thread => .upstream ((Pipeline.network Heap events).start thread)
    | .io => .printing []

end Main

end BackTester
