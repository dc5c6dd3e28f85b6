import BackTester.Proofs.Common.RingInvariant

/-! # Order, safety and shutdown of the lock-free queue

Every step of either thread keeps the invariant of the ring, so the results hold in every state that some interleaving
reaches.
-/

namespace BackTester.LockFreeQueue

variable {α : Type*} {capacity : RingCapacity} {state after : State α} {freed seen : ℕ}

namespace Agrees

/-- A check of the closed flag throws or lets the call go on. -/
theorem check (holds : Agrees capacity state freed seen) {error : String} (next : Producer α)
    (waiting : next.reserved = 0)
    (nothing : next.written = []) (unwritten : state.producer.written = []) (still : state.producer.untouched)
    (locals : ProducerAgrees capacity state.pushed.length state.queue.closed next) :
    Agrees capacity { state with producer := if state.queue.closed then .threw error else next } freed seen := by
  have room : state.pushed.length < freed + capacity.size := by
    have := holds.room
    omega
  split
  · next isClosed =>
    exact holds.turn (.threw error) room rfl unwritten (.inr isClosed) (fun _ => rfl) fun _ => holds.entry still
  · next opened =>
    exact holds.turn next (by rw [waiting]; exact room) nothing unwritten locals (fun isClosed =>
      absurd isClosed opened)
      fun _ => holds.entry still

/-- A push past its guard has room for its item. -/
theorem pushGuard (holds : Agrees capacity state freed seen) {value : α} {h : UInt64}
    (isHead : h = capacity.slot state.pushed.length) (unwritten : state.producer.written = [])
    (inside : state.producer.admitted) (still : state.producer.untouched) :
    Agrees capacity { state with producer := LockFreeQueue.pushGuard capacity value h state.queue.tailCached }
      freed seen := by
  have room : state.pushed.length < freed + capacity.size := by
    have := holds.room
    omega
  have opened : ¬state.queue.closed := fun isClosed => by
    rw [holds.closed isClosed] at inside
    contradiction
  unfold LockFreeQueue.pushGuard
  split
  · exact holds.turn (.pushSpinClosed value h) room rfl unwritten isHead (fun isClosed => absurd isClosed opened)
      fun _ => holds.entry still
  · next free =>
    rw [isHead, capacity.next_slot, holds.tailCached] at free
    have notFull : state.pushed.length + 1 ≠ freed + capacity.size := by
      intro full
      apply free
      rw [full, ← UInt64.toNat_inj, capacity.toNat_slot, capacity.toNat_slot, Nat.add_mod_right]
    have room : state.pushed.length + 1 < freed + capacity.size := by omega
    exact holds.turn (.pushWrite value h) room rfl unwritten isHead (fun isClosed => absurd isClosed opened)
      fun touched => by contradiction

/-- A batch past its guard has room for its items. -/
theorem batchGuard (holds : Agrees capacity state freed seen) {items : List α} {h : UInt64}
    (isHead : h = capacity.slot state.pushed.length) (some : 0 < items.length) (short : items.length < capacity.size)
    (unwritten : state.producer.written = []) (inside : state.producer.admitted) (still : state.producer.untouched) :
    Agrees capacity { state with producer := LockFreeQueue.batchGuard capacity items h state.queue.tailCached }
      freed seen := by
  have le : freed ≤ state.pushed.length := holds.freed_le.trans (holds.taken_le.trans holds.seen_le)
  have room : state.pushed.length < freed + capacity.size := by
    have := holds.room
    omega
  have opened : ¬state.queue.closed := fun isClosed => by
    rw [holds.closed isClosed] at inside
    contradiction
  unfold LockFreeQueue.batchGuard
  split
  · exact holds.turn (.batchSpinClosed items h) room rfl unwritten ⟨isHead, some, short⟩
      (fun isClosed => absurd isClosed opened) fun _ => holds.entry still
  · next enough =>
    have counted : (UInt64.ofNat items.length).toNat = items.length :=
      UInt64.toNat_ofNat_of_lt' (short.trans capacity.size_lt)
    rw [isHead, holds.tailCached, LockFreeQueue.free, capacity.slot_room room, UInt64.lt_iff_toNat_lt, counted, not_lt,
      capacity.toNat_slot_of_lt (by omega)] at enough
    have enough : state.pushed.length + items.length < freed + capacity.size := by omega
    exact holds.turn (.batchWrite items h 0) enough rfl unwritten ⟨isHead, some, short⟩
      (fun isClosed => absurd isClosed opened) fun touched => by contradiction

theorem enter (holds : Agrees capacity state freed seen) (call : Call α) (idle : state.producer = .idle) :
    Agrees capacity (LockFreeQueue.enter state call) freed seen := by
  have room := holds.room
  have slots := holds.slots
  rw [idle] at room slots
  simp only [Producer.written, List.append_nil] at slots
  have unwritten : state.producer.written = [] := by rw [idle]; rfl
  have fresh : Agrees capacity { state with entry := state.queue, entered := state.pushed } freed seen :=
    { holds with entry := fun _ => ⟨rfl, rfl, slots⟩ }
  have unchanged : Unchanged capacity { state with entry := state.queue, entered := state.pushed } := ⟨rfl, rfl, slots⟩
  cases call with
  | push value => exact fresh.turn (.pushClosed value) room rfl unwritten trivial (fun _ => rfl) fun _ => unchanged
  | pushBatch items counted =>
    exact fresh.turn (.batchClosed items) room rfl unwritten counted (fun _ => rfl) fun _ => unchanged
  | close => exact fresh.turn .close room rfl unwritten trivial (fun _ => rfl) fun _ => unchanged

/-- Every step of the producer keeps the invariant, with what it then knows to be free. -/
theorem produce (holds : Agrees capacity state freed seen) (step : LockFreeQueue.produce capacity state = some after) :
    ∃ freed, Agrees capacity after freed seen := by
  obtain ⟨queue, producer, consumer, pushed, taken, popped, results, entry, entered⟩ := state
  have locals := holds.producer
  have isHead := holds.head
  have room := holds.room
  cases producer with
  | idle => contradiction
  | pushClosed value =>
    obtain rfl := Option.some.inj step
    exact ⟨freed, holds.check (.pushHead value) rfl rfl rfl rfl trivial⟩
  | pushHead value =>
    obtain rfl := Option.some.inj step
    exact ⟨freed, holds.pushGuard isHead rfl rfl rfl⟩
  | pushSpinClosed value h =>
    obtain rfl := Option.some.inj step
    exact ⟨freed, holds.check (.pushSpinTail value h) rfl rfl rfl rfl locals⟩
  | pushSpinTail value h =>
    obtain rfl := Option.some.inj step
    exact ⟨taken.length, holds.refreshTail.pushGuard locals rfl rfl rfl⟩
  | pushWrite value h =>
    obtain rfl := Option.some.inj step
    obtain rfl : h = capacity.slot pushed.length := locals
    exact ⟨freed, holds.write value (.pushStore value _) Nat.one_pos rfl rfl rfl rfl rfl⟩
  | pushStore value h =>
    obtain rfl := Option.some.inj step
    obtain rfl : h = capacity.slot pushed.length := locals
    refine ⟨freed, ?_⟩
    rw [capacity.next_slot]
    exact holds.publish rfl
  | batchClosed items =>
    obtain rfl := Option.some.inj step
    have counted : (UInt64.ofNat items.length).toNat = items.length := UInt64.toNat_ofNat_of_lt' locals
    refine ⟨freed, ?_⟩
    dsimp only
    by_cases empty : UInt64.ofNat items.length = 0
    · rw [if_pos empty]
      exact holds.check .idle rfl rfl rfl rfl trivial
    · rw [if_neg empty]
      by_cases long : capacity.word ≤ .ofNat items.length
      · rw [if_pos long]
        exact holds.check (.threw pushBatchTooLong) rfl rfl rfl rfl (.inl rfl)
      · rw [if_neg long]
        rw [UInt64.le_iff_toNat_le, capacity.toNat_word, counted, not_le] at long
        rw [← UInt64.toNat_inj, counted] at empty
        exact holds.check (.batchHead items) rfl rfl rfl rfl ⟨Nat.pos_of_ne_zero empty, long⟩
  | batchHead items =>
    obtain rfl := Option.some.inj step
    exact ⟨freed, holds.batchGuard isHead locals.1 locals.2 rfl rfl rfl⟩
  | batchSpinClosed items h =>
    obtain rfl := Option.some.inj step
    exact ⟨freed, holds.check (.batchSpinTail items h) rfl rfl rfl rfl locals⟩
  | batchSpinTail items h =>
    obtain rfl := Option.some.inj step
    exact ⟨taken.length, holds.refreshTail.batchGuard locals.1 locals.2.1 locals.2.2 rfl rfl rfl⟩
  | batchWrite items h i =>
    obtain rfl := Option.some.inj step
    obtain ⟨isSlot, within, short⟩ := locals
    obtain rfl : h = capacity.slot pushed.length := isSlot
    refine ⟨freed, ?_⟩
    have position : (items.take i).length = i := List.length_take_of_le within.le
    have wrote : items.take (i + 1) = items.take i ++ [items[i]] := (List.take_append_getElem within).symm
    have write := holds.write items[i]
    simp only [Producer.written, Producer.reserved, position] at write
    dsimp only
    rw [capacity.slot_advance, List.getElem?_eq_getElem within]
    split
    · next more => exact write (.batchWrite items _ (i + 1)) within wrote rfl ⟨rfl, more, short⟩ rfl rfl
    · next last =>
      rw [List.take_of_length_le (by omega)] at wrote
      exact write (.batchStore items _) within wrote rfl ⟨rfl, by omega, short⟩ rfl rfl
  | batchStore items h =>
    obtain rfl := Option.some.inj step
    obtain ⟨isSlot, _, _⟩ := locals
    obtain rfl : h = capacity.slot pushed.length := isSlot
    refine ⟨freed, ?_⟩
    rw [capacity.slot_advance]
    exact holds.publish rfl
  | close =>
    obtain rfl := Option.some.inj step
    exact ⟨freed, holds.shut rfl⟩
  | threw error =>
    obtain rfl := Option.some.inj step
    exact ⟨freed, holds.turn .idle room rfl rfl trivial (fun _ => rfl) fun touched => by contradiction⟩

/-- A head apart from the tail shows an item. -/
theorem reads (holds : Agrees capacity state freed seen) {t : UInt64} (isTail : t = capacity.slot state.taken.length)
    (apart : t ≠ state.queue.head) (empty : state.consumer.held = []) (untouched : state.consumer.emptied = id) :
    Agrees capacity { state with queue := { state.queue with headCached := state.queue.head }, consumer := .read t }
      freed state.pushed.length := by
  have behind : state.taken.length < state.pushed.length := by
    apply lt_of_le_of_ne (holds.taken_le.trans holds.seen_le)
    intro all
    rw [isTail, holds.head, all] at apart
    contradiction
  exact holds.refreshHead (.read t) rfl empty rfl untouched ⟨isTail, behind⟩

/-- A load of the head goes on to read or to wait. -/
theorem loads (holds : Agrees capacity state freed seen) {t : UInt64} (isTail : t = capacity.slot state.taken.length)
    (empty : state.consumer.held = []) (untouched : state.consumer.emptied = id) :
    Agrees capacity { state with
      queue := { state.queue with headCached := state.queue.head }
      consumer := if t = state.queue.head then .spinClosed t else .read t } freed state.pushed.length := by
  split
  · exact holds.refreshHead (.spinClosed t) rfl empty rfl untouched isTail
  · next apart => exact holds.reads isTail apart empty untouched

/-- Every step of the consumer keeps the invariant, with what it then knows to be published. -/
theorem consume (holds : Agrees capacity state freed seen) (step : LockFreeQueue.consume capacity state = some after) :
    ∃ seen, Agrees capacity after freed seen := by
  obtain ⟨queue, producer, consumer, pushed, taken, popped, results, entry, entered⟩ := state
  have locals := holds.consumer
  have isHead := holds.head
  have isTail := holds.tail
  have isCached := holds.headCached
  cases consumer with
  | idle => contradiction
  | loadTail =>
    obtain rfl := Option.some.inj step
    refine ⟨seen, ?_⟩
    dsimp only at isTail isCached ⊢
    split
    · exact holds.look (.loadHead _) rfl rfl rfl rfl isTail
    · next some =>
      have behind : taken.length < seen := by
        apply lt_of_le_of_ne holds.taken_le
        rintro rfl
        exact some (isTail.trans isCached.symm)
      exact holds.look (.read _) rfl rfl rfl rfl ⟨isTail, behind⟩
  | loadHead t =>
    obtain rfl := Option.some.inj step
    exact ⟨pushed.length, holds.loads locals rfl rfl⟩
  | spinClosed t =>
    obtain rfl := Option.some.inj step
    refine ⟨seen, ?_⟩
    dsimp only
    split
    · next isClosed => exact holds.look (.recheckHead t) rfl rfl rfl rfl ⟨locals, isClosed⟩
    · exact holds.look (.spinHead t) rfl rfl rfl rfl locals
  | recheckHead t =>
    by_cases empty : t = queue.head
    · obtain rfl := Option.some.inj ((if_pos empty).symm.trans step)
      exact ⟨pushed.length, holds.refuse rfl empty⟩
    · obtain rfl := Option.some.inj ((if_neg empty).symm.trans step)
      exact ⟨pushed.length, holds.reads locals.1 empty rfl rfl⟩
  | spinHead t =>
    obtain rfl := Option.some.inj step
    exact ⟨pushed.length, holds.loads locals rfl rfl⟩
  | read t =>
    obtain rfl := Option.some.inj step
    obtain ⟨isSlot, behind⟩ := locals
    obtain rfl : t = capacity.slot taken.length := isSlot
    exact ⟨seen, holds.read behind rfl rfl⟩
  | store t item =>
    obtain rfl := Option.some.inj step
    exact ⟨seen, holds.free rfl⟩
  | call item =>
    obtain rfl := Option.some.inj step
    exact ⟨seen, holds.call rfl⟩

theorem move (holds : Agrees capacity state freed seen) {choice : Move α}
    (step : LockFreeQueue.move capacity state choice = some after) :
    ∃ freed seen, Agrees capacity after freed seen := by
  cases choice with
  | enter call =>
    cases idle : state.producer <;> simp only [LockFreeQueue.move, idle, reduceCtorEq, Option.some_inj] at step
    subst step
    exact ⟨freed, seen, holds.enter call idle⟩
  | produce =>
    obtain ⟨freed, holds⟩ := holds.produce step
    exact ⟨freed, seen, holds⟩
  | pop =>
    cases idle : state.consumer <;> simp only [LockFreeQueue.move, idle, reduceCtorEq, Option.some_inj] at step
    subst step
    exact ⟨freed, seen, holds.look .loadTail rfl (by rw [idle]; rfl) rfl (by rw [idle]; rfl) trivial⟩
  | consume =>
    obtain ⟨seen, holds⟩ := holds.consume step
    exact ⟨freed, seen, holds⟩

end Agrees

/-- The invariant holds in every state that some interleaving of the two threads reaches. -/
theorem agrees_reachable (reached : (system capacity α).Reachable state) :
    ∃ freed seen, Agrees capacity state freed seen := by
  apply reached.invariant
  · rintro _ rfl
    exact ⟨0, 0, agrees_start⟩
  · rintro before after ⟨freed, seen, holds⟩ ⟨choice, step⟩
    exact holds.move step

/-- The slot of a published item that the consumer has not freed. -/
def Occupied (capacity : RingCapacity) (state : State α) (slot : UInt64) : Prop :=
  ∃ i, state.taken.length ≤ i ∧ i < state.pushed.length ∧ slot = capacity.slot i

/-- The slot that the producer writes next. -/
def Producer.target (capacity : RingCapacity) : Producer α → Option UInt64
  | .pushWrite _ h => some h
  | .batchWrite _ h i => some ((h + .ofNat i) &&& capacity.mask)
  | _ => none

/-- The slot that the consumer reads next. -/
def Consumer.source : Consumer α → Option UInt64
  | .read t => some t
  | _ => none

structure Safe (capacity : RingCapacity) (state : State α) : Prop where
  /-- What was popped is what was pushed, in order, with nothing lost, invented or repeated. -/
  inOrder : state.popped <+: state.pushed.map some
  /-- What was pushed and is not moved out stands in its slot. -/
  stored : ∀ i, state.consumer.emptied state.taken.length ≤ i → i < state.pushed.length →
    state.queue.buffer (capacity.slot i) = state.pushed[i]?
  writes : ∀ slot, state.producer.target capacity = some slot → slot < capacity.word ∧ ¬Occupied capacity state slot
  reads : ∀ slot, state.consumer.source = some slot → slot < capacity.word ∧ Occupied capacity state slot
  /-- One slot stays free. -/
  outstanding : state.pushed.length - state.taken.length ≤ capacity.size - 1

theorem Agrees.target (holds : Agrees capacity state freed seen) {slot : UInt64}
    (target : state.producer.target capacity = some slot) :
    ∃ more, slot = capacity.slot (state.pushed.length + more) ∧ state.pushed.length + more < freed + capacity.size := by
  have locals := holds.producer
  have room := holds.room
  cases phase : state.producer with
  | pushWrite value h =>
    rw [phase] at locals target room
    obtain rfl := Option.some.inj target
    exact ⟨0, locals, by simpa using Nat.lt_of_succ_lt room⟩
  | batchWrite items h i =>
    rw [phase] at locals target room
    obtain rfl := Option.some.inj target
    obtain ⟨rfl, within, _⟩ := locals
    simp only [Producer.reserved] at room
    exact ⟨i, capacity.slot_advance _ i, by omega⟩
  | _ =>
    rw [phase] at target
    contradiction

theorem slot_lt_word (n : ℕ) : capacity.slot n < capacity.word := by
  rw [UInt64.lt_iff_toNat_lt, capacity.toNat_slot, capacity.toNat_word]
  exact Nat.mod_lt n capacity.size_pos

/-- At every moment of every interleaving the consumer has popped a prefix of what was pushed, no
thread touches a slot of the other's, and the queue holds less than its capacity. -/
theorem safe_reachable (reached : (system capacity α).Reachable state) : Safe capacity state := by
  obtain ⟨freed, seen, holds⟩ := agrees_reachable reached
  have le := holds.taken_le.trans holds.seen_le
  constructor
  · have popped : state.popped <+: state.taken := by
      rw [holds.popped]
      exact List.prefix_append _ _
    rw [holds.taken] at popped
    exact popped.trans ((List.take_prefix _ _).map _)
  · intro i left published
    rw [holds.slots i left (by rw [List.length_append]; omega), List.getElem?_append_left published]
  · intro slot target
    obtain ⟨more, rfl, near⟩ := holds.target target
    refine ⟨slot_lt_word _, ?_⟩
    rintro ⟨i, left, published, same⟩
    have := holds.freed_le
    have := (capacity.slot_eq_iff (by omega) (by omega)).mp same.symm
    omega
  · intro slot source
    have locals := holds.consumer
    cases phase : state.consumer with
    | read t =>
      rw [phase] at locals source
      obtain rfl := Option.some.inj source
      obtain ⟨rfl, behind⟩ := locals
      exact ⟨slot_lt_word _, state.taken.length, le_refl _, behind.trans_le holds.seen_le, rfl⟩
    | _ =>
      rw [phase] at source
      contradiction
  · have := holds.room
    have := holds.freed_le
    omega

def twoSlots : RingCapacity := ⟨1, le_refl 1, by decide⟩

/-- With two slots the second push waits until the first item is popped. -/
def waitingPush : List (Move ℕ) :=
  [.enter (.push 5), .produce, .produce, .produce, .produce, .enter (.push 6), .produce, .produce, .produce, .produce,
    .pop, .consume, .consume, .consume, .consume, .consume, .produce, .produce, .produce, .produce]

theorem safe_reachable_waitingPush : ∃ state, waitingPush.foldlM (move twoSlots) {} = some state ∧
    state.popped = [some 5] ∧ state.pushed = [5, 6] ∧ Safe twoSlots state :=
  ⟨_, rfl, rfl, rfl, safe_reachable (TransitionSystem.reachable_ofMoves waitingPush rfl)⟩

structure Shutdown (capacity : RingCapacity) (state : State α) : Prop where
  /-- A pop that returned false saw the queue closed and everything popped. -/
  drained : false ∈ state.results → state.queue.closed ∧ state.popped = state.pushed.map some
  /-- After it no pop returns true. -/
  final : state.results.Pairwise fun earlier later : Bool => later = true → earlier = true
  /-- A call that threw found the queue closed or its batch too long. -/
  error : ∀ error, state.producer = .threw error →
    error = pushBatchTooLong ∨ state.queue.closed
  /-- Nothing of it is published or written over what is unread. -/
  unchanged : ∀ error, state.producer = .threw error → state.queue.head = state.entry.head ∧
    state.pushed = state.entered ∧ ∀ i, state.consumer.emptied state.taken.length ≤ i → i < state.pushed.length →
      state.queue.buffer (capacity.slot i) = state.entry.buffer (capacity.slot i)

theorem shutdown_reachable (reached : (system capacity α).Reachable state) : Shutdown capacity state := by
  obtain ⟨freed, seen, holds⟩ := agrees_reachable reached
  obtain ⟨refused, isResults, quiet⟩ := holds.results
  constructor
  · intro refusal
    have some : 0 < refused := by
      rw [isResults, List.mem_append] at refusal
      rcases refusal with popped | refused
      · exact absurd (List.eq_of_mem_replicate popped) (by decide)
      · exact Nat.pos_of_ne_zero (List.mem_replicate.mp refused).1
    obtain ⟨isClosed, all⟩ := quiet some
    refine ⟨isClosed, ?_⟩
    have inOrder := (safe_reachable reached).inOrder
    apply inOrder.eq_of_length
    rw [all, List.length_map]
  · rw [isResults, List.pairwise_append]
    refine ⟨List.pairwise_replicate.mpr (.inr id), List.pairwise_replicate.mpr (.inr id), ?_⟩
    intro earlier popped later _ _
    exact List.eq_of_mem_replicate popped
  · intro error phase
    have locals := holds.producer
    rw [phase] at locals
    exact locals
  · intro error phase
    obtain ⟨isHead, same, stored⟩ := holds.entry (by rw [phase]; rfl)
    refine ⟨isHead, same, fun i left published => ?_⟩
    rw [(safe_reachable reached).stored i left published, stored i left published]

/-- A push after the close throws, and the pop after the last item returns false. -/
def closing : List (Move ℕ) :=
  [.enter (.push 5), .produce, .produce, .produce, .produce, .enter .close, .produce, .enter (.push 6), .produce,
    .pop, .consume, .consume, .consume, .consume, .consume, .pop, .consume, .consume, .consume, .consume]

theorem shutdown_reachable_closing : ∃ state, closing.foldlM (move twoSlots) {} = some state ∧
    state.producer = .threw pushIsClosed ∧ state.results = [true, false] ∧ Shutdown twoSlots state :=
  ⟨_, rfl, rfl, rfl, shutdown_reachable (TransitionSystem.reachable_ofMoves closing rfl)⟩

end BackTester.LockFreeQueue
