import BackTester.ToMathlib.FifoQueue

/-! # The blocking queue

The queue of `BlockingQueue.hpp`. Every member function does its work while it holds the mutex, so
it is one step here; a pop that has to wait for the condition variable answers nothing and is tried
again.
-/

namespace BackTester

structure BlockingQueue (α : Type*) where
  queue : List α := []
  closed : Bool := false

namespace BlockingQueue

variable {α : Type*} (self : BlockingQueue α)

def pushImpl (value : α) : Except String (BlockingQueue α) :=
  if self.closed then .error "BlockingQueue::push: queue is closed"
  else .ok { self with queue := self.queue ++ [value] }

def pushBatchImpl (items : List α) : Except String (BlockingQueue α) :=
  if self.closed then .error "BlockingQueue::push_batch: queue is closed"
  else .ok { self with queue := self.queue ++ items }

/-- What the pop hands to its callback, or nothing if it returns false. -/
def popImpl : Option (Option α × BlockingQueue α) :=
  match self.queue with
  | item :: rest => some (some item, { self with queue := rest })
  | [] => if self.closed then some (none, self) else none

def closeImpl : BlockingQueue α := { self with closed := true }
def isClosedImpl : Bool := self.closed
def emptyImpl : Bool := self.queue.isEmpty
def sizeImpl : ℕ := self.queue.length

instance : FifoQueue (BlockingQueue α) α where
  empty := {}
  push self value := (self.pushImpl value).toOption
  pushBatch self items := (self.pushBatchImpl items).toOption
  pop self := self.popImpl
  close self := self.closeImpl
  isClosed self := self.isClosedImpl
  items self := self.queue
  items_empty := rfl
  isClosed_empty := rfl
  push_of_open {self} value opened := by
    refine ⟨{ self with queue := self.queue ++ [value] }, ?_, rfl, opened⟩
    unfold isClosedImpl at opened
    simp [pushImpl, opened, Except.toOption]
  pushBatch_of_open {self} items opened := by
    refine ⟨{ self with queue := self.queue ++ items }, ?_, rfl, opened⟩
    unfold isClosedImpl at opened
    simp [pushBatchImpl, opened, Except.toOption]
  pop_of_cons {self value rest} holds := by
    refine ⟨{ self with queue := rest }, ?_, rfl, rfl⟩
    simp [popImpl, holds]
  pop_of_closed {self} isEmpty closed := by
    refine ⟨self, ?_, isEmpty, closed⟩
    unfold isClosedImpl at closed
    simp [popImpl, isEmpty, closed]
  pop_of_open {self} isEmpty opened := by
    unfold isClosedImpl at opened
    simp [popImpl, isEmpty, opened]
  items_close self := rfl
  isClosed_close self := rfl

end BlockingQueue

end BackTester
