import BackTester.Model.Common.LockFreeQueueCalls
import BackTester.Soundness.LockFreeQueue

/-! # The lock-free queue is one queue

Under every interleaving of the two threads, the calls answer as those of the bounded queue whose
member functions are single steps. A push is taken at the store of `head_`, a pop at the store of
`tail_`, a pop that is refused at its last load of `head_`, and a call that throws at its check of
`closed_`.
-/

namespace BackTester.LockFreeQueue

open AtomicObject

variable {α : Type*} {capacity : RingCapacity} {state after : State α} {freed seen : ℕ}

section Bounded

variable {self : BoundedQueue α} {value : α} {items : List α}

theorem apply_push (opened : self.closed = false) (room : self.items.length + 1 < capacity.size) :
    (object capacity α).apply self (.push value) = some (.returned, { self with items := self.items ++ [value] }) := by
  simp [object, opened, room]

theorem apply_push_of_closed (closed : self.closed = true) :
    (object capacity α).apply self (.push value) = some (.threw pushIsClosed, self) := by
  simp [object, closed]

theorem apply_pushBatch_of_closed (closed : self.closed = true) :
    (object capacity α).apply self (.pushBatch items) = some (.threw pushBatchIsClosed, self) := by
  simp [object, closed]

theorem apply_pushBatch_nil (opened : self.closed = false) :
    (object capacity α).apply self (.pushBatch []) = some (.returned, self) := by
  simp [object, opened]

theorem apply_pushBatch_of_long (opened : self.closed = false) (long : capacity.size ≤ items.length) :
    (object capacity α).apply self (.pushBatch items) = some (.threw pushBatchTooLong, self) := by
  have := capacity.size_pos
  have some : items ≠ [] := List.ne_nil_of_length_pos (by omega)
  simp [object, opened, some, long]

theorem apply_pushBatch (opened : self.closed = false) (some : 0 < items.length)
    (room : self.items.length + items.length < capacity.size) :
    (object capacity α).apply self (.pushBatch items) =
      Option.some (.returned, { self with items := self.items ++ items }) := by
  have short : ¬capacity.size ≤ items.length := by omega
  have some : items ≠ [] := List.ne_nil_of_length_pos some
  simp [object, opened, some, short, room]

theorem apply_pop {item : α} {rest : List α} (holds : self.items = item :: rest) :
    (object capacity α).apply self .pop = some (.popped (some item), { self with items := rest }) := by
  simp [object, holds]

theorem apply_pop_of_closed (isEmpty : self.items = []) (closed : self.closed = true) :
    (object capacity α).apply self .pop = some (.refused, self) := by
  simp [object, isEmpty, closed]

end Bounded

/-- What has become of the producer's call. -/
def Producer.status : Producer α → Status (Operation α) (Result α)
  | .idle => .idle
  | .pushClosed value | .pushHead value | .pushSpinClosed value _ | .pushSpinTail value _ | .pushWrite value _
  | .pushStore value _ => .called (.push value)
  | .batchClosed items | .batchHead items | .batchSpinClosed items _ | .batchSpinTail items _ | .batchWrite items _ _
  | .batchStore items _ => .called (.pushBatch items)
  | .close => .called .close
  | .threw error => .done (.threw error)

def Consumer.status : Consumer α → Status (Operation α) (Result α)
  | .idle => .idle
  | .loadTail | .loadHead _ | .spinClosed _ | .recheckHead _ | .spinHead _ | .read _ | .store _ _ => .called .pop
  | .call item => .done (.popped item)

def statuses (producer : Producer α) (consumer : Consumer α) : Role → Status (Operation α) (Result α)
  | .producer => producer.status
  | .consumer => consumer.status

/-- The bounded queue with its two threads, when the calls that were taken have had their effect. -/
def view (state : State α) : Shared Role (Operation α) (Result α) (BoundedQueue α) where
  obj := ⟨state.pushed.drop state.taken.length, state.queue.closed⟩
  status := statuses state.producer state.consumer

theorem update_producer {producer : Producer α} {consumer : Consumer α} (phase : Producer α) :
    Function.update (statuses producer consumer) .producer phase.status = statuses phase consumer := by
  funext role
  cases role <;> rfl

theorem update_consumer {producer : Producer α} {consumer : Consumer α} (phase : Consumer α) :
    Function.update (statuses producer consumer) .consumer phase.status = statuses producer phase := by
  funext role
  cases role <;> rfl

theorem status_pushGuard (value : α) (h tailCached : UInt64) :
    (pushGuard capacity value h tailCached).status = .called (.push value) := by
  unfold pushGuard
  split <;> rfl

theorem status_batchGuard (items : List α) (h tailCached : UInt64) :
    (batchGuard capacity items h tailCached).status = .called (.pushBatch items) := by
  unfold batchGuard
  split <;> rfl

theorem statuses_of_producer {producer other : Producer α} {consumer : Consumer α}
    (same : producer.status = other.status) :
    statuses producer consumer = statuses other consumer := by
  funext role
  cases role with
  | producer => exact same
  | consumer => rfl

theorem statuses_of_consumer {producer : Producer α} {consumer other : Consumer α}
    (same : consumer.status = other.status) :
    statuses producer consumer = statuses producer other := by
  funext role
  cases role with
  | producer => rfl
  | consumer => exact same

namespace Agrees

variable (holds : Agrees capacity state freed seen)
include holds

theorem length_drop : (state.pushed.drop state.taken.length).length + state.taken.length = state.pushed.length := by
  have := holds.taken_le.trans holds.seen_le
  rw [List.length_drop]
  omega

/-- What the producer has reserved fits into the bounded queue. -/
theorem fits : (state.pushed.drop state.taken.length).length + state.producer.reserved < capacity.size := by
  have := holds.length_drop
  have := holds.room
  have := holds.freed_le
  omega

theorem opened (inside : state.producer.admitted = true) : state.queue.closed = false := by
  by_contra isClosed
  rw [holds.closed (Bool.eq_true_of_not_eq_false isClosed)] at inside
  contradiction

theorem drop_append (items : List α) :
    (state.pushed ++ items).drop state.taken.length = state.pushed.drop state.taken.length ++ items :=
  List.drop_append_of_le_length (holds.taken_le.trans holds.seen_le)

/-- A head at the tail shows that nothing is left. -/
theorem drop_of_empty {t : UInt64} (isTail : t = capacity.slot state.taken.length) (isHead : t = state.queue.head) :
    state.pushed.drop state.taken.length = [] := by
  have room := holds.room
  have := holds.freed_le
  rw [holds.head, isTail] at isHead
  rw [(capacity.slot_eq_iff (holds.taken_le.trans holds.seen_le) (by omega)).mp isHead, List.drop_length]

end Agrees

/-- A step at which no call is taken. -/
theorem answers_none (same : view after = view state) :
    ((object capacity α).shared Role).Answers (view state) [] (view after) := by
  rw [same]
  exact .none

theorem view_producer {phase : Producer α} (same : phase.status = state.producer.status) :
    view { state with producer := phase } = view state :=
  congrArg (Shared.mk _) (statuses_of_producer same)

theorem answers_taken {op : Operation α} {result : Result α} {obj : BoundedQueue α} {phase : Producer α}
    (isCalled : state.producer.status = .called op) (done : phase.status = .done result)
    (applies : (object capacity α).apply (view state).obj op = some (result, obj)) :
    ((object capacity α).shared Role).Answers (view state) [] ⟨obj, statuses phase state.consumer⟩ := by
  rw [← @update_producer α state.producer _ phase, done]
  exact answers_take isCalled applies

theorem answers_returned {op : Operation α} {result : Result α} {obj : BoundedQueue α}
    (isCalled : state.producer.status = .called op)
    (applies : (object capacity α).apply (view state).obj op = some (result, obj)) :
    ((object capacity α).shared Role).Answers (view state)
    [.ret .producer result] ⟨obj, statuses .idle state.consumer⟩ := by
  rw [← @update_producer α state.producer _ .idle]
  exact answers_take_ret isCalled applies

theorem answers_threw {error : String} (isThrew : state.producer = .threw error) :
    ((object capacity α).shared Role).Answers (view state) [.ret .producer (.threw error)]
    (view { state with producer := .idle }) := by
  have answers : ((object capacity α).shared Role).Answers (view state) [.ret .producer (.threw error)]
      { view state with status := Function.update (view state).status .producer .idle } :=
    answers_ret (congrArg Producer.status isThrew)
  rwa [show Function.update (view state).status .producer .idle =
    statuses .idle state.consumer from update_producer .idle] at answers

/-- A check of the closed flag: the call is taken if it throws. -/
theorem answers_check {op : Operation α} {error : String} {next : Producer α}
    (isCalled : state.producer.status = .called op) (same : next.status = .called op)
    (throws : (view state).obj.closed = true →
      (object capacity α).apply (view state).obj op = some (.threw error, (view state).obj)) :
    ((object capacity α).shared Role).Answers (view state) []
      (view { state with producer := if state.queue.closed then .threw error else next }) := by
  split
  · next isClosed => exact answers_taken isCalled rfl (throws isClosed)
  · exact answers_none (view_producer (same.trans isCalled.symm))

/-- The producer publishes its items: the call is taken, and returns. -/
theorem answers_publish (holds : Agrees capacity state freed seen) {op : Operation α} {items : List α} {head : UInt64}
    (isCalled : state.producer.status = .called op)
    (applies : (object capacity α).apply (view state).obj op =
      some (.returned, { (view state).obj with items := (view state).obj.items ++ items })) :
    ((object capacity α).shared Role).Answers (view state) [.ret .producer .returned]
      (view { state with
        queue := { state.queue with head := head }
        producer := .idle
        pushed := state.pushed ++ items }) := by
  have answers := answers_returned isCalled applies
  change ((object capacity α).shared Role).Answers _ _
    ⟨⟨state.pushed.drop state.taken.length ++ items, _⟩, _⟩ at answers
  rw [← holds.drop_append items] at answers
  exact answers

theorem answers_produce (holds : Agrees capacity state freed seen) (step : produce capacity state = some after) :
    ((object capacity α).shared Role).Answers (view state) (shown state .produce).toList (view after) := by
  have room := holds.fits
  have opened := holds.opened
  obtain ⟨queue, producer, consumer, pushed, taken, popped, results, entry, entered⟩ := state
  have locals := holds.producer
  cases producer with
  | idle => contradiction
  | pushClosed value | pushSpinClosed value h =>
    obtain rfl := Option.some.inj step
    exact answers_check rfl rfl apply_push_of_closed
  | pushHead value | pushSpinTail value h =>
    obtain rfl := Option.some.inj step
    exact answers_none (congrArg (Shared.mk _) (statuses_of_producer (status_pushGuard _ _ _)))
  | pushWrite value h =>
    obtain rfl := Option.some.inj step
    exact .none
  | pushStore value h =>
    obtain rfl := Option.some.inj step
    exact answers_publish holds rfl (apply_push (opened rfl) room)
  | batchClosed items =>
    obtain rfl := Option.some.inj step
    have counted : (UInt64.ofNat items.length).toNat = items.length := UInt64.toNat_ofNat_of_lt' locals
    have isEmpty : UInt64.ofNat items.length = 0 ↔ items.length = 0 := by
      rw [← UInt64.toNat_inj, counted]
      rfl
    have isLong : capacity.word ≤ UInt64.ofNat items.length ↔ capacity.size ≤ items.length := by
      rw [UInt64.le_iff_toNat_le, counted, capacity.toNat_word]
    cases closed : queue.closed with
    | true =>
      simp only [shown, closed, Bool.true_eq_false, false_and, if_false, if_true, Option.toList_none]
      exact answers_taken rfl rfl (apply_pushBatch_of_closed closed)
    | false =>
      by_cases none : items.length = 0
      · obtain rfl := List.length_eq_zero_iff.mp none
        simp only [shown, closed, none, true_and, Bool.false_eq_true, if_false]
        exact answers_returned rfl (apply_pushBatch_nil closed)
      · simp only [shown, closed, isEmpty, none, and_false, Bool.false_eq_true, if_false, Option.toList_none]
        split
        · next long => exact answers_taken rfl rfl (apply_pushBatch_of_long closed (isLong.mp long))
        · exact .none
  | batchHead items | batchSpinTail items h =>
    obtain rfl := Option.some.inj step
    exact answers_none (congrArg (Shared.mk _) (statuses_of_producer (status_batchGuard _ _ _)))
  | batchSpinClosed items h =>
    obtain rfl := Option.some.inj step
    exact answers_check rfl rfl apply_pushBatch_of_closed
  | batchWrite items h i =>
    obtain rfl := Option.some.inj step
    refine answers_none (congrArg (Shared.mk _) (statuses_of_producer ?_))
    dsimp only
    split <;> rfl
  | batchStore items h =>
    obtain rfl := Option.some.inj step
    exact answers_publish holds rfl (apply_pushBatch (opened rfl) locals.2.1 room)
  | close =>
    obtain rfl := Option.some.inj step
    exact answers_returned rfl rfl
  | threw error =>
    obtain rfl := Option.some.inj step
    exact answers_threw rfl

theorem answers_refused (isCalled : state.consumer.status = .called .pop)
    (nothing : state.pushed.drop state.taken.length = []) (isClosed : state.queue.closed = true) :
    ((object capacity α).shared Role).Answers (view state) [.ret .consumer .refused]
      ⟨(view state).obj, statuses state.producer .idle⟩ := by
  rw [← @update_consumer α _ state.consumer .idle]
  exact answers_take_ret isCalled (apply_pop_of_closed nothing isClosed)

/-- The consumer frees the slot of the first item that is left: its call is taken. -/
theorem answers_popped {item : α} {queue : LockFreeQueue α} (isCalled : state.consumer.status = .called .pop)
    (flag : queue.closed = state.queue.closed) (within : state.taken.length < state.pushed.length)
    (isItem : state.pushed[state.taken.length] = item) :
    ((object capacity α).shared Role).Answers (view state) []
      (view { state with queue := queue, consumer := .call (some item), taken := state.taken ++ [some item] }) := by
  have first :
      state.pushed.drop state.taken.length = item :: state.pushed.drop (state.taken ++ [some item]).length := by
    rw [List.drop_eq_getElem_cons within, isItem, List.length_append]
    rfl
  have answers : ((object capacity α).shared Role).Answers (view state) []
      ⟨_, Function.update (view state).status .consumer (.done (.popped (some item)))⟩ :=
    answers_take isCalled (apply_pop first)
  rw [show Function.update (view state).status .consumer (.done (.popped (some item))) =
    statuses state.producer (.call (some item)) from
    update_consumer (.call (some item))] at answers
  unfold view at answers ⊢
  rw [flag]
  exact answers

theorem answers_called {item : Option α} (isCall : state.consumer = .call item) :
    ((object capacity α).shared Role).Answers (view state) [.ret .consumer (.popped item)]
      ⟨(view state).obj, statuses state.producer .idle⟩ := by
  rw [← @update_consumer α _ state.consumer .idle]
  exact answers_ret (congrArg Consumer.status isCall)

theorem answers_consume (holds : Agrees capacity state freed seen) (step : consume capacity state = some after) :
    ((object capacity α).shared Role).Answers (view state) (shown state .consume).toList (view after) := by
  have isEmpty := @Agrees.drop_of_empty α capacity state freed seen holds
  have le := holds.seen_le
  obtain ⟨queue, producer, consumer, pushed, taken, popped, results, entry, entered⟩ := state
  have locals := holds.consumer
  cases consumer with
  | idle => contradiction
  | loadTail | loadHead t | spinClosed t | spinHead t =>
    obtain rfl := Option.some.inj step
    refine answers_none (congrArg (Shared.mk _) (statuses_of_consumer ?_))
    dsimp only
    split <;> rfl
  | recheckHead t =>
    by_cases empty : t = queue.head
    · obtain rfl := Option.some.inj ((if_pos empty).symm.trans step)
      simp only [shown, if_pos empty, Option.toList_some]
      exact answers_refused rfl (isEmpty locals.1 empty) locals.2
    · obtain rfl := Option.some.inj ((if_neg empty).symm.trans step)
      simp only [shown, if_neg empty, Option.toList_none]
      exact .none
  | read t =>
    obtain rfl := Option.some.inj step
    exact .none
  | store t item =>
    obtain rfl := Option.some.inj step
    have within : taken.length < pushed.length := locals.2.1.trans_le le
    have isItem : item = some pushed[taken.length] := locals.2.2.trans (List.getElem?_eq_getElem within)
    subst isItem
    exact answers_popped rfl rfl within rfl
  | call item =>
    obtain rfl := Option.some.inj step
    exact answers_called rfl

theorem answers_move (holds : Agrees capacity state freed seen) {choice : Move α}
    (step : move capacity state choice = some after) :
    ((object capacity α).shared Role).Answers (view state) (shown state choice).toList (view after) := by
  cases choice with
  | produce => exact answers_produce holds step
  | consume => exact answers_consume holds step
  | enter call =>
    cases idle : state.producer <;> simp only [move, idle, reduceCtorEq, Option.some_inj] at step
    subst step
    have calls : ((object capacity α).shared Role).step (view state) (some (.call .producer call.operation))
        { view state with status := Function.update (view state).status .producer (.called call.operation) } :=
      .call _ (congrArg Producer.status idle)
    have isAfter : view (enter state call) =
        { view state with status := Function.update (view state).status .producer (.called call.operation) } := by
      refine congrArg (Shared.mk _) ?_
      funext role
      cases role <;> cases call <;> rfl
    rw [isAfter]
    exact .of_step calls
  | pop =>
    cases idle : state.consumer <;> simp only [move, idle, reduceCtorEq, Option.some_inj] at step
    subst step
    have calls : ((object capacity α).shared Role).step (view state) (some (.call .consumer .pop))
        { view state with status := Function.update (view state).status .consumer (.called .pop) } :=
      .call _ (congrArg Consumer.status idle)
    have isAfter : view { state with consumer := .loadTail } =
        { view state with status := Function.update (view state).status .consumer (.called .pop) } :=
      congrArg (Shared.mk _) (update_consumer .loadTail).symm
    rw [isAfter]
    exact .of_step calls

/-- Whatever is seen of the two threads is explained by their calls, taken one after the other. -/
theorem ring_linearizable (capacity : RingCapacity) (α : Type*) :
    (object capacity α).Linearizable (threads capacity α) := by
  have simulates : (threads capacity α).Simulates ((object capacity α).shared Role) fun state other =>
      (∃ freed seen, Agrees capacity state freed seen) ∧ other = view state := by
    constructor
    · rintro _ rfl
      refine ⟨_, rfl, ⟨0, 0, agrees_start⟩, congrArg (Shared.mk _) ?_⟩
      funext role
      cases role <;> rfl
    · rintro state event after _ ⟨⟨freed, seen, holds⟩, rfl⟩ ⟨choice, step, rfl⟩
      exact ⟨_, answers_move holds step, holds.move step, rfl⟩
  exact linearizable_of_simulates simulates

end BackTester.LockFreeQueue
