import BackTester.Model.Common.LockFreeQueue
import BackTester.ToMathlib.CounterPair

/-! # A thread that asks for the size

`LockFreeQueue::size` called by a third thread, over and over, while the producer and the consumer
go on. The loads of `head_` and of `tail_` are two steps. Beside a call stands what had been
published and taken at each of its moments.
-/

namespace BackTester.LockFreeQueue

variable {α : Type*}

/-- The items published so far, and those whose slot has been freed again. -/
def moment (state : State α) : CounterPair := ⟨state.pushed.length, state.taken.length⟩

/-- The step the observer takes next. -/
inductive Observer
  | idle
  | loadHead
  | loadTail (h : UInt64)

/-- The moments of a call of `size`, before the load of `head_`, at it and after it. -/
structure Span where
  early : List CounterPair := []
  loaded : CounterPair := ⟨0, 0⟩
  late : List CounterPair := []

/-- The queue with its three threads, the current call of `size`, and the calls that have returned,
each with its result. -/
structure Observed (α : Type*) where
  state : State α := {}
  observer : Observer := .idle
  span : Span := {}
  returned : List (UInt64 × Span) := []

variable (capacity : RingCapacity) (observed : Observed α)

/-- `(h - t) & MASK`. -/
def masked (h t : UInt64) : UInt64 := (h - t) &&& capacity.mask

/-- `size_impl`, one step of the call the observer is in. -/
def sizeImpl : Option (Observed α) :=
  match observed.observer with
  | .idle => none
  | .loadHead =>
    some { observed with
      observer := .loadTail observed.state.queue.head
      span := { observed.span with loaded := moment observed.state, late := [] } }
  | .loadTail h =>
    some { observed with
      observer := .idle
      returned := observed.returned ++ [(masked capacity h observed.state.queue.tail, observed.span)] }

/-- The producer or the consumer has made a step. -/
def pass (state : State α) : Observed α :=
  { observed with
    state := state
    span :=
      match observed.observer with
      | .idle => observed.span
      | .loadHead => { observed.span with early := observed.span.early ++ [moment state] }
      | .loadTail _ => { observed.span with late := observed.span.late ++ [moment state] } }

/-- Whose step is next. -/
inductive ObservedMove (α : Type*)
  | queue (choice : Move α)
  | size
  | observe

def observedMove : ObservedMove α → Option (Observed α)
  | .queue choice => (move capacity observed.state choice).map (pass observed)
  | .size =>
    match observed.observer with
    | .idle => some { observed with observer := .loadHead, span := { early := [moment observed.state] } }
    | _ => none
  | .observe => sizeImpl capacity observed

/-- The queue from its construction on, under every interleaving of the three threads. -/
def observedSystem (α : Type*) : TransitionSystem (Observed α) :=
  .ofMoves {} (observedMove capacity)

end BackTester.LockFreeQueue
