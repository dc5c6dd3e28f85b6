import BackTester.Model.Common.BlockingQueue

/-! # The batch pusher

`BatchPusher` of `main.cpp` on a blocking queue, with its array and its count, called over and over;
the queue may be closed by others between the calls. A place of the array holds nothing before it is
written and after its item is moved out, so the queue is given what the places hold.
-/

namespace BackTester.BatchPusher

variable {T : Type*} {BatchSize : ℕ}

/-- The members, with the queue that the first of them refers to. -/
structure Members (T : Type*) (BatchSize : ℕ) where
  queue : BlockingQueue (Option T) := {}
  batch : Vector (Option T) BatchSize := .replicate BatchSize none
  count : ℕ := 0

/-- How a call can fail: by a write outside of the array, which is undefined behaviour, or by an
exception of the queue. -/
inductive Failure
  | outOfBounds (index : ℕ)
  | threw (error : String)

def flush (self : Members T BatchSize) : Except Failure (Members T BatchSize) :=
  if self.count > 0 ∧ ¬self.queue.isClosedImpl then
    match self.queue.pushBatchImpl (self.batch.toList.take self.count) with
    | .ok queue =>
      .ok { queue, batch := self.batch.mapIdx fun i place => if i < self.count then none else place, count := 0 }
    | .error error => .error (.threw error)
  else .ok self

def push (self : Members T BatchSize) (item : T) : Except Failure (Members T BatchSize) :=
  if inside : self.count < BatchSize then
    let self := { self with batch := self.batch.set self.count (some item) inside, count := self.count + 1 }
    if self.count ≥ BatchSize then flush self else .ok self
  else .error (.outOfBounds self.count)

/-- What can happen next. The destructor calls `flush`. -/
inductive Call (T : Type*)
  | push (item : T)
  | flush
  | close

def call (self : Members T BatchSize) : Call T → Except Failure (Members T BatchSize)
  | .push item => push self item
  | .flush => flush self
  | .close => .ok { self with queue := self.queue.closeImpl }

/-- A sequence of calls from the construction on. -/
def run (BatchSize : ℕ) (calls : List (Call T)) : Except Failure (Members T BatchSize) := calls.foldlM call {}

end BackTester.BatchPusher
