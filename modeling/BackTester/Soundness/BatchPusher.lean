import BackTester.Model.Main.BatchPusher
import BackTester.Model.Main.Pipeline
import Mathlib.Data.List.Induction
import Mathlib.Data.List.TakeWhile

/-! # What a batch pusher keeps

What the queue has accepted and what is in the batch are the items that were pushed, for as long as
every write is inside of the array. A queue that is closed is given nothing more, so the batch fills
up, and one item too many is written behind it.
-/

namespace BackTester.BatchPusher

variable {T : Type*} {BatchSize : ℕ} {self after : Members T BatchSize} {items : List T}
  {item : T} {calls : List (Call T)}

def Call.item? : Call T → Option T
  | .push item => some item
  | _ => none

def Call.isClose : Call T → Bool
  | .close => true
  | _ => false

/-- The items pushed so far. -/
def pushed (calls : List (Call T)) : List T := calls.filterMap Call.item?

/-- `batch[0..count)`. -/
def Members.inUse (self : Members T BatchSize) : List (Option T) := self.batch.toList.take self.count

/-- The items accepted by the queue, followed by those in the batch. -/
def Conserves (self : Members T BatchSize) (items : List T) : Prop := self.queue.queue ++ self.inUse = items.map some

/-- Every write so far was inside of the array, and no item is lost or doubled. -/
def Conserving (BatchSize : ℕ) (calls : List (Call T)) : Prop :=
  ∃ self, run BatchSize calls = .ok self ∧ Conserves self (pushed calls)

/-- The number of pushes since the last flush. -/
def unflushed (calls : List (Call T)) : ℕ :=
  calls.foldl (fun n call =>
    match call with
    | .push _ => n + 1
    | .flush => 0
    | .close => n) 0

def beforeClose (calls : List (Call T)) : List (Call T) := calls.takeWhile fun call => !call.isClose

def afterClose (calls : List (Call T)) : List (Call T) := calls.dropWhile fun call => !call.isClose

/-- What is in the batch when the queue is closed and what is pushed from then on have room in the array. -/
def Fits (BatchSize : ℕ) (calls : List (Call T)) : Prop :=
  unflushed (beforeClose calls) % BatchSize + (pushed (afterClose calls)).length ≤ BatchSize

instance decidableFits (BatchSize : ℕ) (calls : List (Call T)) : Decidable (Fits BatchSize calls) :=
  Nat.decLe _ _

/-- The item is in its place. -/
def written (self : Members T BatchSize) (item : T) (inside : self.count < BatchSize) : Members T BatchSize :=
  { self with batch := self.batch.set self.count (some item) inside, count := self.count + 1 }

theorem push_of_inside (inside : self.count < BatchSize) (item : T) : push self item =
    if self.count + 1 ≥ BatchSize then flush (written self item inside) else .ok (written self item inside) :=
  dif_pos inside

theorem push_of_full (full : ¬self.count < BatchSize) (item : T) : push self item = .error (.outOfBounds self.count) :=
  dif_neg full

theorem inUse_written (inside : self.count < BatchSize) (item : T) :
    (written self item inside).inUse = self.inUse ++ [some item] := by
  have within : self.count < self.batch.toList.length := by rwa [Vector.length_toList]
  unfold Members.inUse written
  rw [Vector.toList_set, List.take_add_one, List.take_set_of_le (Nat.le_refl _), List.getElem?_set_self within]
  rfl

theorem flush_of_closed (closed : self.queue.closed = true) : flush self = .ok self := by
  apply if_neg
  rintro ⟨_, opened⟩
  exact opened closed

/-- An open queue is given the batch. -/
theorem flush_of_open (opened : self.queue.closed = false) :
    ∃ after, flush self = .ok after ∧ after.queue.closed = false ∧
    after.count = 0 ∧ after.queue.queue = self.queue.queue ++ self.inUse := by
  by_cases some : self.count > 0
  · have accepts : self.queue.pushBatchImpl (self.batch.toList.take self.count) =
        .ok { self.queue with queue := self.queue.queue ++ self.inUse } := by
      rw [BlockingQueue.pushBatchImpl, if_neg (by rw [opened]; decide)]
      rfl
    have asked : self.count > 0 ∧ ¬self.queue.isClosedImpl := ⟨some, by rw [BlockingQueue.isClosedImpl, opened]; decide⟩
    unfold flush
    rw [if_pos asked, accepts]
    exact ⟨_, rfl, opened, rfl, rfl⟩
  · have none : self.count = 0 := Nat.eq_zero_of_not_pos some
    refine ⟨self, if_neg fun asked => some asked.1, opened, none, ?_⟩
    rw [Members.inUse, none, List.take_zero, List.append_nil]

theorem Conserves.written (holds : Conserves self items) (inside : self.count < BatchSize) (item : T) :
    Conserves (BatchPusher.written self item inside) (items ++ [item]) := by
  unfold Conserves at holds ⊢
  rw [inUse_written, ← List.append_assoc, List.map_append, ← holds]
  rfl

theorem Conserves.flush (holds : Conserves self items) (run : flush self = .ok after) : Conserves after items := by
  cases closed : self.queue.closed with
  | true =>
    obtain rfl := Except.ok.inj ((flush_of_closed closed).symm.trans run)
    exact holds
  | false =>
    obtain ⟨flushed, isFlush, _, isEmpty, given⟩ := flush_of_open closed
    obtain rfl := Except.ok.inj (isFlush.symm.trans run)
    unfold Conserves at holds ⊢
    rw [Members.inUse, isEmpty, List.take_zero, List.append_nil, given, holds]

/-- No call that comes to an end loses or doubles an item. -/
theorem conserves_call (holds : Conserves self items) {choice : Call T} (run : call self choice = .ok after) :
    Conserves after (items ++ choice.item?.toList) := by
  cases choice with
  | push item =>
    by_cases inside : self.count < BatchSize
    · rw [show call self (.push item) = _ from push_of_inside inside item] at run
      split at run
      · exact (holds.written inside item).flush run
      · obtain rfl := Except.ok.inj run
        exact holds.written inside item
    · rw [show call self (.push item) = _ from push_of_full inside item] at run
      contradiction
  | flush =>
    change Conserves after (items ++ [])
    rw [List.append_nil]
    exact holds.flush run
  | close =>
    obtain rfl := Except.ok.inj run
    change Conserves self (items ++ [])
    rw [List.append_nil]
    exact holds

theorem conserves_foldlM (holds : Conserves self items) (run : calls.foldlM call self = .ok after) :
    Conserves after (items ++ pushed calls) := by
  induction calls generalizing self items with
  | nil =>
    obtain rfl := Except.ok.inj run
    rw [pushed, List.filterMap_nil, List.append_nil]
    exact holds
  | cons choice calls ih =>
    rw [List.foldlM_cons] at run
    cases first : call self choice with
    | error failure =>
      rw [first] at run
      contradiction
    | ok between =>
      rw [first] at run
      have rest := ih (conserves_call holds first) run
      have split : pushed (choice :: calls) = choice.item?.toList ++ pushed calls := by
        cases choice <;> rfl
      rw [split, ← List.append_assoc]
      exact rest

theorem conserves_start : Conserves ({} : Members T BatchSize) [] := by
  simp [Conserves, Members.inUse]

/-- While the queue is open, a flush empties the batch whenever it is full. -/
theorem run_open (positive : 0 < BatchSize) (calls : List (Call T)) (noClose : ∀ call ∈ calls, call.isClose = false) :
    ∃ self, run BatchSize calls = .ok self ∧ self.queue.closed = false ∧ self.count = unflushed calls % BatchSize := by
  induction calls using List.reverseRecOn with
  | nil => exact ⟨{}, rfl, rfl, (Nat.zero_mod _).symm⟩
  | append_singleton calls choice ih =>
    obtain ⟨self, isRun, opened, count⟩ := ih fun call isIn => noClose call (List.mem_append_left _ isIn)
    have next : run BatchSize (calls ++ [choice]) = call self choice := by
      rw [run, List.foldlM_append, ← run, isRun]
      exact bind_pure (call self choice)
    rw [next, unflushed, List.foldl_append, ← unflushed]
    have isOther := noClose choice (List.mem_append_right _ List.mem_cons_self)
    cases choice with
    | push item =>
      have inside : self.count < BatchSize := by
        rw [count]
        exact Nat.mod_lt _ positive
      have counted : (unflushed calls + 1) % BatchSize = if self.count + 1 ≥ BatchSize then 0 else self.count + 1 := by
        rw [← Nat.mod_add_mod, ← count]
        split
        · next full =>
          have isFull : self.count + 1 = BatchSize := Nat.le_antisymm inside full
          rw [isFull, Nat.mod_self]
        · next room => exact Nat.mod_eq_of_lt (Nat.lt_of_not_le room)
      change ∃ after, push self item = .ok after ∧ after.queue.closed = false ∧
        after.count = (unflushed calls + 1) % BatchSize
      rw [push_of_inside inside, counted]
      split
      · obtain ⟨after, isFlush, stays, isEmpty, _⟩ := @flush_of_open T BatchSize (written self item inside) opened
        exact ⟨after, isFlush, stays, isEmpty⟩
      · exact ⟨_, rfl, opened, rfl⟩
    | flush =>
      obtain ⟨after, isFlush, stays, isEmpty, _⟩ := flush_of_open opened
      exact ⟨after, isFlush, stays, isEmpty.trans (Nat.zero_mod _).symm⟩
    | close => contradiction

/-- Once the queue is closed, pushes come to an end while there is room for them. -/
theorem foldlM_closed_iff (closed : self.queue.closed = true) (fits : self.count ≤ BatchSize) :
    (∃ after, calls.foldlM call self = .ok after) ↔ self.count + (pushed calls).length ≤ BatchSize := by
  induction calls generalizing self with
  | nil => exact ⟨fun _ => fits, fun _ => ⟨self, rfl⟩⟩
  | cons choice calls ih =>
    rw [List.foldlM_cons]
    cases choice with
    | push item =>
      have more : (pushed (.push item :: calls)).length = (pushed calls).length + 1 := rfl
      by_cases inside : self.count < BatchSize
      · have isPush : call self (.push item) = .ok (written self item inside) := by
          change push self item = _
          rw [push_of_inside inside]
          split
          · exact flush_of_closed closed
          · rfl
        have rest := @ih (written self item inside) closed inside
        have counted : (written self item inside).count = self.count + 1 := rfl
        rw [isPush, more]
        refine rest.trans ?_
        rw [counted]
        omega
      · rw [show call self (.push item) = _ from push_of_full inside item, more]
        constructor
        · rintro ⟨after, run⟩
          contradiction
        · intro room
          omega
    | flush =>
      rw [show call self .flush = _ from flush_of_closed closed]
      exact ih closed fits
    | close => exact @ih { self with queue := self.queue.closeImpl } rfl fits

/-- Every write is inside of the array just where what is pushed to a closed queue has room. -/
theorem run_ok_iff (positive : 0 < BatchSize) (calls : List (Call T)) :
    (∃ self, run BatchSize calls = .ok self) ↔ Fits BatchSize calls := by
  obtain ⟨self, isRun, opened, count⟩ := run_open positive (beforeClose calls) fun call isIn => by
    simpa using List.mem_takeWhile_imp isIn
  have onward : run BatchSize calls = (afterClose calls).foldlM call self := by
    have split : beforeClose calls ++ afterClose calls = calls := List.takeWhile_append_dropWhile
    rw [run] at isRun
    conv_lhs => rw [← split, run, List.foldlM_append, isRun]
    rfl
  have small : self.count < BatchSize := by
    rw [count]
    exact Nat.mod_lt _ positive
  rw [onward, Fits, ← count]
  cases isAfter : afterClose calls with
  | nil => exact ⟨fun _ => small.le, fun _ => ⟨self, rfl⟩⟩
  | cons first rest =>
    have isClose : first.isClose = true := by
      have stops := List.head?_dropWhile_not (fun call : Call T => !call.isClose) calls
      rw [← afterClose, isAfter] at stops
      simpa using stops
    cases first with
    | push | flush => contradiction
    | close => exact @foldlM_closed_iff T BatchSize { self with queue := self.queue.closeImpl } rest rfl small.le

theorem conserving_of_run (isRun : run BatchSize calls = .ok self) : Conserving BatchSize calls :=
  ⟨self, isRun, conserves_foldlM conserves_start isRun⟩

/-- At every point of a sequence of calls all writes were inside of the array and nothing is lost or
doubled, just where what is pushed to a closed queue has room. -/
theorem conserving_iff (positive : 0 < BatchSize) (calls : List (Call T)) :
    (∀ before, before <+: calls → Conserving BatchSize before) ↔ Fits BatchSize calls := by
  rw [← run_ok_iff positive calls]
  constructor
  · intro always
    obtain ⟨self, isRun, _⟩ := always calls (List.prefix_refl calls)
    exact ⟨self, isRun⟩
  · rintro ⟨self, isRun⟩ before ⟨more, rfl⟩
    rw [run, List.foldlM_append] at isRun
    cases first : before.foldlM call ({} : Members T BatchSize) with
    | error failure =>
      rw [first] at isRun
      contradiction
    | ok between => exact conserving_of_run first

/-- One item is in the batch when the queue is closed, and one is pushed after it. -/
theorem conserving_iff_closedLate :
    Fits 2 ([.push 1, .push 2, .push 3, .close, .push 4] : List (Call ℕ)) ∧
      ∀ before, before <+: ([.push 1, .push 2, .push 3, .close, .push 4] : List (Call ℕ)) → Conserving 2 before :=
  ⟨by decide, (conserving_iff (by decide) _).mpr (by decide)⟩

/-- A batch of one item, on a queue that is closed: the second item is written behind the array. -/
theorem not_conserving : ¬∀ BatchSize, 0 < BatchSize → ∀ calls : List (Call ℕ), Conserving BatchSize calls := by
  intro always
  obtain ⟨self, isRun, _⟩ := always 1 Nat.one_pos [.close, .push 1, .push 2]
  contradiction

section Pipeline

variable {N : ℕ} {Heap : Type*} {self after : Members MarketDataEvent BatchSize}
  {pusher : BatchPusher MarketDataEvent BatchSize}
  {item : MarketDataEvent} (file : Fin N) (next : BatchPusher MarketDataEvent BatchSize → Pipeline.Local N Heap)

/-- The array holds the batch of a producer. -/
def Holds (self : Members MarketDataEvent BatchSize) (pusher : BatchPusher MarketDataEvent BatchSize) : Prop :=
  self.count = pusher.batch.length ∧ self.inUse = pusher.batch.map some

theorem holds_empty (isEmpty : self.count = 0) : Holds self .empty := by
  refine ⟨isEmpty, ?_⟩
  rw [Members.inUse, isEmpty]
  rfl

theorem Holds.written (holds : Holds self pusher) (inside : self.count < BatchSize) (item : MarketDataEvent)
    (fits : (pusher.batch ++ [item]).length ≤ BatchSize) :
    Holds (BatchPusher.written self item inside) ⟨pusher.batch ++ [item], fits⟩ := by
  refine ⟨?_, ?_⟩
  · rw [List.length_append, ← holds.1]
    rfl
  · rw [inUse_written, holds.2, List.map_append]
    rfl

/-- A producer writes outside of its array where the pusher does. -/
theorem pipeline_push_of_error (holds : Holds self pusher) {failure : Failure}
    (failed : push self item = .error failure) :
    Pipeline.push file pusher item next = .outOfBounds := by
  apply dif_neg
  rw [← holds.1]
  intro inside
  rw [push_of_inside inside] at failed
  split at failed
  · cases closed : (BatchPusher.written self item inside).queue.closed with
    | true =>
      rw [flush_of_closed closed] at failed
      contradiction
    | false =>
      obtain ⟨_, isFlush, _⟩ := flush_of_open closed
      rw [isFlush] at failed
      contradiction
  · contradiction

/-- Otherwise it goes on with the batch that the array then holds, and has given the queue what the pusher has. -/
theorem pipeline_push_of_ok (holds : Holds self pusher) (isPush : push self item = .ok after) :
    (∃ pusher', Holds after pusher' ∧ after.queue = self.queue ∧ Pipeline.push file pusher item next = next pusher') ∨
      ∃ full, Pipeline.push file pusher item next = .asking file (next full) (.pushing file full.batch (next .empty)) ∧
        (self.queue.closed = true → Holds after full ∧ after.queue = self.queue) ∧
        (self.queue.closed = false → Holds after .empty ∧
          after.queue.queue = self.queue.queue ++ full.batch.map some) := by
  by_cases inside : self.count < BatchSize
  · have room : pusher.batch.length < BatchSize := by rwa [← holds.1]
    have fits : (pusher.batch ++ [item]).length ≤ BatchSize := by
      rw [List.length_append]
      exact room
    have holds' := holds.written inside item fits
    have sameCount : self.count + 1 = (pusher.batch ++ [item]).length := holds'.1
    have asks : Pipeline.push file pusher item next =
        if (pusher.batch ++ [item]).length ≥ BatchSize then Pipeline.flush file ⟨pusher.batch ++ [item], fits⟩ next
        else next ⟨pusher.batch ++ [item], fits⟩ := dif_pos room
    have some : (⟨pusher.batch ++ [item], fits⟩ : BatchPusher MarketDataEvent BatchSize).count > 0 := by
      simp [BatchPusher.count]
    rw [push_of_inside inside] at isPush
    rw [asks, ← sameCount]
    split at isPush
    · next isFull =>
      refine .inr ⟨⟨pusher.batch ++ [item], fits⟩, ?_, fun closed => ?_, fun opened => ?_⟩
      · rw [if_pos isFull, Pipeline.flush, if_pos some]
      · have isFlush := @flush_of_closed _ _ (BatchPusher.written self item inside) closed
        obtain rfl := Except.ok.inj (isFlush.symm.trans isPush)
        exact ⟨holds', rfl⟩
      · obtain ⟨flushed, isFlush, _, isEmpty, given⟩ :=
          @flush_of_open _ _ (BatchPusher.written self item inside) opened
        obtain rfl := Except.ok.inj (isFlush.symm.trans isPush)
        exact ⟨holds_empty isEmpty, given.trans (congrArg (self.queue.queue ++ ·) holds'.2)⟩
    · next isRoom =>
      obtain rfl := Except.ok.inj isPush
      exact .inl ⟨_, holds', rfl, if_neg isRoom⟩
  · rw [push_of_full inside] at isPush
    contradiction

end Pipeline

end BackTester.BatchPusher
