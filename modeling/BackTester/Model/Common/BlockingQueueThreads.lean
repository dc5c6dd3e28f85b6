import BackTester.Model.Common.BlockingQueue
import BackTester.ToMathlib.AtomicObject
import Mathlib.Data.Fintype.Defs

/-! # The blocking queue and its threads

The member functions of `BlockingQueue.hpp` with the mutex and the condition variable, called by any
number of threads. A lock, an unlock, an access to the members, a notification are one step each. A
thread asleep in `wait` is woken by a notification, or without one.
-/

namespace BackTester.BlockingQueue

variable {α Thread : Type*}

inductive Call (α : Type*)
  | push (value : α)
  | pushBatch (items : List α)
  | pop
  | close
  | isClosed
  | empty
  | size

/-- How a call ends. A pop that returns true has handed its item to the callback. -/
inductive Result (α : Type*)
  | returned
  | threw (error : String)
  | popped (item : α)
  | refused
  | flag (value : Bool)
  | count (size : ℕ)

/-- `notify_one`, `notify_all`, or neither. -/
inductive Notice
  | nobody
  | one
  | all
deriving DecidableEq

/-- Where a thread stands. It holds the mutex while it is testing, pushing, batching, popping or unlocking. -/
inductive Phase (α : Type*)
  | idle
  | locking (call : Call α)
  | testing (call : Call α)
  | pushing (value : α)
  | batching (items : List α)
  | popping
  | unlocking (notice : Notice) (result : Result α)
  | notifying (notice : Notice) (result : Result α)
  | waiting
  | waking
  | returning (result : Result α)

def Phase.isWaiting : Phase α → Bool
  | .waiting => true
  | _ => false

/-- What a notification makes of a thread. -/
def Phase.woken : Phase α → Phase α
  | .waiting => .waking
  | phase => phase

/-- The members of the queue, the owner of the mutex, and the threads. -/
structure Threads (Thread α : Type*) where
  queue : BlockingQueue α := {}
  mutex : Option Thread := none
  phase : Thread → Phase α := fun _ => .idle

variable [DecidableEq Thread] (state : Threads Thread α) (thread : Thread)

def pushIsClosed : String := "BlockingQueue::push: queue is closed"
def pushBatchIsClosed : String := "BlockingQueue::push_batch: queue is closed"

def goTo (phase : Phase α) : Threads Thread α := { state with phase := Function.update state.phase thread phase }

/-- What a thread does that has just got the mutex, by the call it is in. -/
def test : Call α → Threads Thread α
  | .push value =>
    goTo state thread (if state.queue.closed then .unlocking .nobody (.threw pushIsClosed) else .pushing value)
  | .pushBatch items =>
    goTo state thread (if state.queue.closed then .unlocking .nobody (.threw pushBatchIsClosed) else .batching items)
  | .pop =>
    -- the predicate of `wait`; where it fails, the mutex is released and the thread sleeps, in one step
    if state.queue.queue.isEmpty ∧ !state.queue.closed then { goTo state thread .waiting with mutex := none }
    else goTo state thread (if state.queue.queue.isEmpty then .unlocking .nobody .refused else .popping)
  | .close => { goTo state thread (.unlocking .all .returned) with queue := { state.queue with closed := true } }
  | .isClosed => goTo state thread (.unlocking .nobody (.flag state.queue.closed))
  | .empty => goTo state thread (.unlocking .nobody (.flag state.queue.queue.isEmpty))
  | .size => goTo state thread (.unlocking .nobody (.count state.queue.queue.length))

/-- The next step of the call that a thread is in, if it need not wait. -/
def run : Option (Threads Thread α) :=
  match state.phase thread with
  | .idle => none
  | .locking call =>
    if state.mutex = none then some { goTo state thread (.testing call) with mutex := some thread } else none
  | .testing call => some (test state thread call)
  | .pushing value =>
    some { goTo state thread (.unlocking .one .returned) with
      queue := { state.queue with queue := state.queue.queue ++ [value] } }
  | .batching (item :: items) =>
    some { goTo state thread (.batching items) with queue := { state.queue with queue := state.queue.queue ++ [item] } }
  | .batching [] => some (goTo state thread (.unlocking .all .returned))
  | .popping =>
    match state.queue.queue with
    | item :: rest =>
      some { goTo state thread (.unlocking .nobody (.popped item)) with queue := { state.queue with queue := rest } }
    | [] => none
  | .unlocking .nobody result => some { goTo state thread (.returning result) with mutex := none }
  | .unlocking notice result => some { goTo state thread (.notifying notice result) with mutex := none }
  | .notifying .nobody result => some (goTo state thread (.returning result))
  | .notifying .one _ => none
  | .notifying .all result =>
    some (goTo { state with phase := fun other => (state.phase other).woken } thread (.returning result))
  | .waiting => none
  | .waking =>
    if state.mutex = none then some { goTo state thread (.testing .pop) with mutex := some thread } else none
  | .returning _ => some (goTo state thread .idle)

/-- `notify_one`: a thread that is asleep, if there is one, is woken. -/
def notifyOne [Fintype Thread] (woken : Option Thread) : Option (Threads Thread α) :=
  match state.phase thread with
  | .notifying .one result =>
    match woken with
    | some sleeper =>
      if (state.phase sleeper).isWaiting then
        some (goTo (goTo state sleeper .waking) thread (.returning result)) else none
    | none =>
      if ∀ other, (state.phase other).isWaiting = false then some (goTo state thread (.returning result)) else none
  | _ => none

/-- Whose step is next, and which one. -/
inductive Move (Thread α : Type*)
  | enter (thread : Thread) (call : Call α)
  | run (thread : Thread)
  | notifyOne (thread : Thread) (woken : Option Thread)
  | wake (thread : Thread)

def move [Fintype Thread] : Move Thread α → Option (Threads Thread α)
  | .enter thread call =>
    match state.phase thread with
    | .idle => some (goTo state thread (.locking call))
    | _ => none
  | .run thread => run state thread
  | .notifyOne thread woken => notifyOne state thread woken
  | .wake thread =>
    match state.phase thread with
    | .waiting => some (goTo state thread .waking)
    | _ => none

/-- The calls and what they end with. -/
def shown : Move Thread α → Option (CallEvent Thread (Call α) (Result α))
  | .enter thread call => some (.call thread call)
  | .run thread =>
    match state.phase thread with
    | .returning result => some (.ret thread result)
    | _ => none
  | .notifyOne _ _ => none
  | .wake _ => none

/-- The queue from its construction on, under every sequence of calls by the threads and every interleaving of them. -/
def threads (Thread α : Type*) [DecidableEq Thread] [Fintype Thread] :
    LabelledSystem (Threads Thread α) (CallEvent Thread (Call α) (Result α)) :=
  .ofMoves {} (fun state choice => move state choice) shown

/-- The queue whose every member function is one step. -/
def object (α : Type*) : AtomicObject (Call α) (Result α) (BlockingQueue α) where
  start := {}
  apply self
    | .push value =>
      match self.pushImpl value with
      | .ok after => some (.returned, after)
      | .error error => some (.threw error, self)
    | .pushBatch items =>
      match self.pushBatchImpl items with
      | .ok after => some (.returned, after)
      | .error error => some (.threw error, self)
    | .pop => self.popImpl.map fun (item, after) => (item.elim .refused .popped, after)
    | .close => some (.returned, self.closeImpl)
    | .isClosed => some (.flag self.isClosedImpl, self)
    | .empty => some (.flag self.emptyImpl, self)
    | .size => some (.count self.sizeImpl, self)

end BackTester.BlockingQueue
