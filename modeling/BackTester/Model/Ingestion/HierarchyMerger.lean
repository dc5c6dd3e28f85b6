import BackTester.Model.Common.MarketDataEvent
import BackTester.ToMathlib.ProcessNetwork

/-! # The hierarchical merger

`HierarchyMerger::run_impl` pairs the file queues up round by round. Each pair gets a thread that
merges it into a queue of the pool, until two queues or one are left; these go into the output
queue. As in the flat merger there are a producer for each file and a consumer. A thread that is not
started yet is one that has not had a turn.
-/

namespace BackTester.HierarchyMerger

/-- A queue that is merged from: that of a file, or one of the pool, numbered as they are added to it. -/
inductive InputQueue (N : ℕ)
  | file (i : Fin N)
  | pool (k : ℕ)
deriving DecidableEq

/-- The pair of queues that a worker merges. The worker that is added as number `k` merges into
queue `k` of the pool. -/
structure Worker (N : ℕ) where
  q0 : InputQueue N
  q1 : InputQueue N
deriving DecidableEq

variable {N : ℕ}

/-- One round over `cur`: the queues that are left after it, and all workers. -/
def pairUp (workers : List (Worker N)) : List (InputQueue N) → List (InputQueue N) × List (Worker N)
  | q0 :: q1 :: cur =>
    let behind := pairUp (workers ++ [⟨q0, q1⟩]) cur
    (.pool workers.length :: behind.1, behind.2)
  | [q] => ([q], workers)
  | [] => ([], workers)

/-- The rounds, while more than two queues are left. Every round leaves fewer, so there are not more
of them than queues. -/
def rounds : ℕ → List (InputQueue N) → List (Worker N) → List (InputQueue N) × List (Worker N)
  | 0, cur, workers => (cur, workers)
  | fuel + 1, cur, workers =>
    if cur.length > 2 then rounds fuel (pairUp workers cur).1 (pairUp workers cur).2 else (cur, workers)

/-- The queues for the final merge, and the workers. -/
def plan (N : ℕ) : List (InputQueue N) × List (Worker N) :=
  rounds N (List.ofFn .file) []

inductive Thread (N : ℕ)
  | producer (file : Fin N)
  | worker (k : Fin (plan N).2.length)
  | last
  | consumer
deriving DecidableEq, Fintype

inductive Channel (N : ℕ)
  | input (queue : InputQueue N)
  | output
deriving DecidableEq

/-- Where a thread stands. A call of `merge_two` is at one of its two first pops, at the head of its
loop, or about to pop the queue that it has just pushed an event of; `drain` is about to pop or to
push. -/
inductive Local (N : ℕ)
  | producing (file : Fin N) (events : List MarketDataEvent)
  | popA (a b : InputQueue N) (out : Channel N)
  | popB (a b : InputQueue N) (out : Channel N) (ea : Option MarketDataEvent)
  | merging (a b : InputQueue N) (out : Channel N) (ea eb : Option MarketDataEvent)
  | refillA (a b : InputQueue N) (out : Channel N) (eb : Option MarketDataEvent)
  | refillB (a b : InputQueue N) (out : Channel N) (ea : Option MarketDataEvent)
  | draining (q : InputQueue N)
  | drained (q : InputQueue N) (e : MarketDataEvent)
  | closing
  | consuming (received : List MarketDataEvent)
  | finished
  | consumed (received : List MarketDataEvent)

def act : Local N → Act (Channel N) MarketDataEvent (Local N)
  | .producing file (e :: events) => .push (.input (.file file)) e (.producing file events)
  | .producing file [] => .close (.input (.file file)) .finished
  | .popA a b out => .pop (.input a) (.popB a b out)
  | .popB a b out ea => .pop (.input b) (.merging a b out ea)
  | .merging a b out (some ea) (some eb) =>
    if ea.tsRecv > eb.tsRecv then .push out eb (.refillB a b out (some ea))
    else .push out ea (.refillA a b out (some eb))
  | .merging a b out (some ea) none => .push out ea (.refillA a b out none)
  | .merging a b out none (some eb) => .push out eb (.refillB a b out none)
  | .merging _ _ out none none => .close out .finished
  | .refillA a b out eb => .pop (.input a) fun ea => .merging a b out ea eb
  | .refillB a b out ea => .pop (.input b) fun eb => .merging a b out ea eb
  | .draining q =>
    .pop (.input q) fun
      | some e => .drained q e
      | none => .closing
  | .drained q e => .push .output e (.draining q)
  | .closing => .close .output .finished
  | .consuming received =>
    .pop .output fun
      | some e => .consuming (received ++ [e])
      | none => .consumed received
  | .finished => .done
  | .consumed _ => .done

/-- What is done with the queues that are left. -/
def lastStart : List (InputQueue N) → Local N
  | [] => .closing
  | [q] => .draining q
  | q0 :: q1 :: _ => .popA q0 q1 .output

/-- The merger on the files `files`. -/
def network (files : Fin N → List MarketDataEvent) :
    ProcessNetwork (Thread N) (Channel N) MarketDataEvent (Local N) where
  act := act
  start
    | .producer file => .producing file (files file)
    | .worker k => .popA ((plan N).2.get k).q0 ((plan N).2.get k).q1 (.input (.pool k))
    | .last => lastStart (plan N).1
    | .consumer => .consuming []

end BackTester.HierarchyMerger
