import BackTester.Proofs.Common.OrdersInvariant
import BackTester.Soundness.LockFreeQueue

/-! # The memory orders of the lock-free queue suffice

With loads that may be stale, the latest values still make up a state of the ring, in which the
cached indices are possibly older than those that sequentially consistent loads would give. Every
access to a slot comes after the accesses of the other thread to that slot, so there is no race; and
the items come out as over sequentially consistent memory.
-/

namespace BackTester.LockFreeQueue

variable {α : Type*} {capacity : RingCapacity}

namespace Agrees

variable {state : State α} {freed seen : ℕ} (holds : Agrees capacity state freed seen)
include holds

/-- The queue as it is now may stand for the queue at the producer's last call. -/
theorem reenter : Agrees capacity { state with entry := state.queue, entered := state.pushed } freed seen := by
  refine { holds with entry := fun _ => ⟨rfl, rfl, fun i left stored => ?_⟩ }
  have slots := holds.slots i left (by rw [List.length_append]; exact Nat.lt_add_right _ stored)
  rwa [List.getElem?_append_left stored] at slots

/-- The producer takes over a tail that is possibly not the last. -/
theorem staleTail {count : ℕ} (le : freed ≤ count) (freedBy : count ≤ state.taken.length) :
    Agrees capacity { state with queue := { state.queue with tailCached := capacity.slot count } } count seen :=
  { holds with
    tailCached := rfl
    freed_le := freedBy
    room := by
      have := holds.room
      dsimp only
      omega }

/-- The consumer takes over a head that is possibly not the last. -/
theorem staleHead {count : ℕ} (le : seen ≤ count) (published : count ≤ state.pushed.length) (phase : Consumer α)
    (nothing : phase.held = []) (empty : state.consumer.held = []) (untaken : phase.emptied = id)
    (untouched : state.consumer.emptied = id)
    (locals : ConsumerAgrees capacity state.pushed state.taken.length count state.queue.closed phase) :
    Agrees capacity { state with
      queue := { state.queue with headCached := capacity.slot count }
      consumer := phase } freed count := by
  have idle := holds.look .idle rfl empty rfl untouched trivial
  have refreshed : Agrees capacity { state with
      queue := { state.queue with headCached := capacity.slot count }, consumer := .idle } freed count :=
    { idle with
      headCached := rfl
      taken_le := holds.taken_le.trans le
      seen_le := published
      consumer := trivial }
  exact refreshed.look phase nothing rfl untaken rfl locals

end Agrees

namespace Ordered

variable {state after : Ordered α} {counts : List ℕ} {freed seen : ℕ}

/-- The ring over the latest values. -/
def latest (state : Ordered α) : State α :=
  let queue : LockFreeQueue α :=
    { buffer := state.memory.buffer.contents
      head := state.memory.head.latest
      tailCached := state.memory.tailCached
      tail := state.memory.tail.latest
      headCached := state.memory.headCached
      closed := state.memory.closed.latest }
  { queue
    producer := state.producer
    consumer := state.consumer
    pushed := state.pushed
    taken := state.taken
    popped := state.popped
    results := state.results
    entry := queue
    entered := state.pushed }

/-- The ring over the latest values keeps its invariant, and the threads know what they count on. -/
structure Holds (capacity : RingCapacity) (state : Ordered α) (counts : List ℕ) (freed seen : ℕ) : Prop where
  agrees : Agrees capacity state.latest freed seen
  knows : Knows capacity state.memory counts (state.pushed ++ state.producer.written).length
    (state.consumer.emptied state.taken.length) freed seen
  published : ∀ n ∈ counts, n ≤ state.pushed.length
  freeing : state.memory.top .tail = state.taken.length
  recheck : ∀ t, state.consumer = .recheckHead t → state.memory.consumerView .head = state.memory.top .head

theorem holds_start : Holds capacity ({} : Ordered α) [0] 0 0 where
  agrees := agrees_start
  knows := knows_start
  published := by simp
  freeing := rfl
  recheck t phase := by contradiction

namespace Holds

variable (holds : Holds capacity state counts freed seen)
include holds

/-- The producer finds the flag as it is, and goes on. -/
theorem producerClosed {index : ℕ} {next : Bool → Producer α} (step : state.producerClosed index next = some after)
    (same : ∀ closed, (next closed).written = state.producer.written)
    (agrees : Agrees capacity { state.latest with producer := next state.latest.queue.closed } freed seen) :
    Holds capacity after counts freed seen := by
  obtain ⟨⟨closed, view⟩, load, rfl⟩ := Option.map_eq_some_iff.mp step
  obtain ⟨grows, within, -⟩ := holds.knows.closed.acquire holds.knows.producer load
  obtain rfl := holds.knows.closed.acquire_latest holds.knows.ownClosed load
  have knows := holds.knows.producerKeeps grows within
  rw [← same state.memory.closed.latest] at knows
  exact ⟨agrees, knows, holds.published, holds.freeing, holds.recheck⟩

/-- The producer finds its own head, and goes on. -/
theorem producerHead {index : ℕ} {next : UInt64 → Producer α} (step : state.producerHead index next = some after)
    (same : ∀ h, (next h).written = state.producer.written)
    (agrees : Agrees capacity { state.latest with producer := next state.latest.queue.head } freed seen) :
    Holds capacity after counts freed seen := by
  obtain ⟨⟨h, view⟩, load, rfl⟩ := Option.map_eq_some_iff.mp step
  obtain ⟨rfl, rfl⟩ := holds.knows.head.relaxed_latest holds.knows.ownHead load
  have knows := holds.knows
  rw [← same state.memory.head.latest] at knows
  exact ⟨agrees, knows, holds.published, holds.freeing, holds.recheck⟩

/-- The producer finds a tail that it knows at least as much of as before, and goes on. -/
theorem producerTail {index : ℕ} {next : UInt64 → Producer α} (step : state.producerTail index next = some after)
    (same : ∀ tail, (next tail).written = state.producer.written)
    (agrees : ∀ count, freed ≤ count → count ≤ state.taken.length → Agrees capacity { state.latest with
      queue := { state.latest.queue with tailCached := capacity.slot count }
      producer := next (capacity.slot count) } count seen) :
    ∃ freed, Holds capacity after counts freed seen := by
  obtain ⟨⟨tail, view⟩, load, rfl⟩ := Option.map_eq_some_iff.mp step
  obtain ⟨rfl, le, known, knows⟩ := holds.knows.loadTail load
  rw [← same (capacity.slot index)] at knows
  have freedBy : index ≤ state.taken.length := by
    rw [← holds.freeing]
    exact known
  exact ⟨index, (agrees index le freedBy).reenter, knows, holds.published, holds.freeing, holds.recheck⟩

/-- The producer writes the next slot, and goes on. -/
theorem producerWrite {slot : UInt64} {item : α} {next : Producer α}
    (isSlot : slot = capacity.slot (state.pushed.length + state.producer.written.length))
    (wrote : next.written = state.producer.written ++ [item])
    (agrees : Agrees capacity { state.latest with
      queue := { state.latest.queue with buffer := Function.update state.latest.queue.buffer slot (some item) }
      producer := next } freed seen) :
    Holds capacity (state.producerWrite slot (some item) next) counts freed seen := by
  have knows := holds.knows.write (some item)
  have length : (state.pushed ++ state.producer.written).length + 1 = (state.pushed ++ next.written).length := by
    simp only [wrote, List.length_append, List.length_singleton, Nat.add_assoc]
  rw [length, List.length_append, ← isSlot] at knows
  exact ⟨agrees.reenter, knows, holds.published, holds.freeing, holds.recheck⟩

/-- The producer publishes what it has written. -/
theorem producerStore {head : UInt64} {items : List α}
    (isHead : head = capacity.slot (state.pushed.length + items.length))
    (written : state.producer.written = items) (inside : state.producer.admitted) :
    ∃ counts, Holds capacity (state.producerStore head items) counts freed seen := by
  subst isHead written
  have opened : state.memory.closed.latest = false := by
    cases isClosed : state.memory.closed.latest with
    | false => rfl
    | true =>
      have outside : state.producer.admitted = false := holds.agrees.closed isClosed
      rw [inside] at outside
      contradiction
  have agrees := (holds.agrees.publish inside).reenter
  have knows := holds.knows.publish opened
  rw [List.length_append] at knows
  refine ⟨counts ++ [state.pushed.length + state.producer.written.length], ?_, ?_, ?_, holds.freeing, ?_⟩
  · unfold latest Ordered.producerStore
    dsimp only
    rw [Atomic.latest_release]
    exact agrees
  · change Knows capacity _ _ ((state.pushed ++ state.producer.written) ++ []).length _ _ _
    rw [List.append_nil, List.length_append]
    exact knows
  · intro n isCount
    change n ≤ (state.pushed ++ state.producer.written).length
    rw [List.length_append]
    rcases List.mem_append.mp isCount with isCount | isLast
    · exact (holds.published n isCount).trans (Nat.le_add_right _ _)
    · exact (List.mem_singleton.mp isLast).le
  · intro t phase
    have locals : ConsumerAgrees capacity state.pushed state.taken.length seen
        state.memory.closed.latest state.consumer := holds.agrees.consumer
    change state.consumer = .recheckHead t at phase
    rw [phase, opened] at locals
    exact absurd locals.2 (by decide)

/-- Every step of the producer keeps the invariant, whatever store it loads. -/
theorem produce {index : ℕ} (step : Ordered.produce capacity state index = some after) :
    ∃ counts freed, Holds capacity after counts freed seen := by
  obtain ⟨memory, producer, consumer, pushed, taken, popped, results⟩ := state
  have agrees := holds.agrees
  have locals := agrees.producer
  have isHead := agrees.head
  rw [Ordered.produce] at step
  cases producer with
  | idle => contradiction
  | pushClosed value =>
    refine ⟨counts, freed,
      holds.producerClosed step (fun closed => ?_) (agrees.check (.pushHead value) rfl rfl rfl rfl trivial)⟩
    cases closed <;> rfl
  | pushHead value =>
    refine ⟨counts, freed, holds.producerHead step (fun h => ?_) (agrees.pushGuard isHead rfl rfl rfl)⟩
    unfold LockFreeQueue.pushGuard
    split <;> rfl
  | pushSpinClosed value h =>
    refine ⟨counts, freed,
      holds.producerClosed step (fun closed => ?_) (agrees.check (.pushSpinTail value h) rfl rfl rfl rfl locals)⟩
    cases closed <;> rfl
  | pushSpinTail value h =>
    obtain ⟨freed, holds⟩ := holds.producerTail step (fun tail => by unfold LockFreeQueue.pushGuard; split <;> rfl)
      fun count le freedBy => (agrees.staleTail le freedBy).pushGuard locals rfl rfl rfl
    exact ⟨counts, freed, holds⟩
  | pushWrite value h =>
    obtain rfl := Option.some.inj step
    refine ⟨counts, freed, holds.producerWrite locals rfl ?_⟩
    obtain rfl : h = capacity.slot pushed.length := locals
    exact agrees.write value (.pushStore value _) Nat.one_pos rfl rfl rfl rfl rfl
  | pushStore value h =>
    obtain rfl := Option.some.inj step
    obtain rfl : h = capacity.slot pushed.length := locals
    obtain ⟨counts, holds⟩ := holds.producerStore (capacity.next_slot pushed.length) rfl rfl
    exact ⟨counts, freed, holds⟩
  | batchClosed items =>
    have counted : (UInt64.ofNat items.length).toNat = items.length := UInt64.toNat_ofNat_of_lt' locals
    refine ⟨counts, freed, holds.producerClosed step (fun closed => ?_) ?_⟩
    · split <;> try rfl
      split <;> try rfl
      split <;> rfl
    by_cases empty : UInt64.ofNat items.length = 0
    · rw [if_pos empty]
      exact agrees.check .idle rfl rfl rfl rfl trivial
    · rw [if_neg empty]
      by_cases long : capacity.word ≤ .ofNat items.length
      · rw [if_pos long]
        exact agrees.check (.threw pushBatchTooLong) rfl rfl rfl rfl (.inl rfl)
      · rw [if_neg long]
        rw [UInt64.le_iff_toNat_le, capacity.toNat_word, counted, not_le] at long
        rw [← UInt64.toNat_inj, counted] at empty
        exact agrees.check (.batchHead items) rfl rfl rfl rfl ⟨Nat.pos_of_ne_zero empty, long⟩
  | batchHead items =>
    refine ⟨counts, freed,
      holds.producerHead step (fun h => ?_) (agrees.batchGuard isHead locals.1 locals.2 rfl rfl rfl)⟩
    unfold LockFreeQueue.batchGuard
    split <;> rfl
  | batchSpinClosed items h =>
    refine ⟨counts, freed,
      holds.producerClosed step (fun closed => ?_) (agrees.check (.batchSpinTail items h) rfl rfl rfl rfl locals)⟩
    cases closed <;> rfl
  | batchSpinTail items h =>
    obtain ⟨freed, holds⟩ := holds.producerTail step (fun tail => by unfold LockFreeQueue.batchGuard; split <;> rfl)
      fun count le freedBy => (agrees.staleTail le freedBy).batchGuard locals.1 locals.2.1 locals.2.2 rfl rfl rfl
    exact ⟨counts, freed, holds⟩
  | batchWrite items h i =>
    obtain rfl := Option.some.inj step
    obtain ⟨isSlot, within, short⟩ := locals
    obtain rfl : h = capacity.slot pushed.length := isSlot
    have position : (items.take i).length = i := List.length_take_of_le within.le
    have wrote : items.take (i + 1) = items.take i ++ [items[i]] := (List.take_append_getElem within).symm
    have write := agrees.write items[i]
    simp only [latest, Producer.written, Producer.reserved, position] at write
    rw [capacity.slot_advance, List.getElem?_eq_getElem within]
    have isSlot : capacity.slot (pushed.length + i) =
        capacity.slot (pushed.length + (items.take i).length) := by rw [position]
    split
    · next more =>
      exact ⟨counts, freed, holds.producerWrite isSlot wrote
        (write (.batchWrite items _ (i + 1)) within wrote rfl ⟨rfl, more, short⟩ rfl rfl)⟩
    · next last =>
      rw [List.take_of_length_le (by omega)] at wrote
      exact ⟨counts, freed,
        holds.producerWrite isSlot wrote (write (.batchStore items _) within wrote rfl ⟨rfl, by omega, short⟩ rfl rfl)⟩
  | batchStore items h =>
    obtain rfl := Option.some.inj step
    obtain rfl : h = capacity.slot pushed.length := locals.1
    obtain ⟨counts, holds⟩ := holds.producerStore (capacity.slot_advance pushed.length items.length) rfl rfl
    exact ⟨counts, freed, holds⟩
  | close =>
    obtain rfl := Option.some.inj step
    refine ⟨counts, freed, ?_, holds.knows.shut, holds.published, holds.freeing, holds.recheck⟩
    unfold latest
    dsimp only
    rw [Atomic.latest_release]
    exact (agrees.shut rfl).reenter
  | threw error =>
    obtain rfl := Option.some.inj step
    have idle := agrees.turn .idle agrees.room rfl rfl trivial (fun _ => rfl) fun touched => by contradiction
    exact ⟨counts, freed, idle, holds.knows, holds.published, holds.freeing, holds.recheck⟩

/-- The consumer finds a head that it knows at least as much of as before, and reads or waits. -/
theorem consumerHead {index : ℕ} {t : UInt64}
    (step : state.consumerHead index (fun head => if t = head then .spinClosed t else .read t)
      (fun _ => []) = some after)
    (isTail : t = capacity.slot state.taken.length) (empty : state.consumer.held = [])
    (untouched : state.consumer.emptied = id) :
    ∃ seen, Holds capacity after counts freed seen := by
  obtain ⟨⟨head, view⟩, load, rfl⟩ := Option.map_eq_some_iff.mp step
  obtain ⟨count, rfl, le, isCount, knows⟩ := holds.knows.loadHead load
  have published := holds.published count isCount
  rw [untouched] at knows
  refine ⟨count, ?_⟩
  dsimp only
  rw [List.append_nil]
  split
  · have agrees := (holds.agrees.staleHead le published (.spinClosed t) rfl empty rfl untouched isTail).reenter
    exact ⟨agrees, knows, holds.published, holds.freeing, fun _ phase => by contradiction⟩
  · next apart =>
    have behind : state.taken.length < count := by
      refine lt_of_le_of_ne (holds.agrees.taken_le.trans le) fun all => apart ?_
      rw [isTail, all]
    have agrees := (holds.agrees.staleHead le published (.read t) rfl empty rfl untouched ⟨isTail, behind⟩).reenter
    exact ⟨agrees, knows, holds.published, holds.freeing, fun _ phase => by contradiction⟩

/-- The last head says how many items are published. -/
theorem count_eq {count : ℕ} (isLast : state.memory.head.latest = capacity.slot count)
    (le : seen ≤ count) (isCount : count ∈ counts) :
    count = state.pushed.length := by
  have published := holds.published count isCount
  have room := holds.agrees.room
  have freed_le := holds.agrees.freed_le
  have taken_le := holds.agrees.taken_le
  have isHead : state.memory.head.latest = capacity.slot state.pushed.length := holds.agrees.head
  refine (capacity.slot_eq_iff published ?_).mp (isLast.symm.trans isHead)
  change state.pushed.length + _ < _ at room
  omega

/-- Every step of the consumer keeps the invariant, whatever store it loads. -/
theorem consume {index : ℕ} (step : Ordered.consume capacity state index = some after) :
    ∃ seen, Holds capacity after counts freed seen := by
  obtain ⟨memory, producer, consumer, pushed, taken, popped, results⟩ := state
  have agrees := holds.agrees
  have locals := agrees.consumer
  have isTail := agrees.tail
  have isCached := agrees.headCached
  rw [Ordered.consume] at step
  cases consumer with
  | idle => contradiction
  | loadTail =>
    obtain ⟨⟨t, view⟩, load, rfl⟩ := Option.map_eq_some_iff.mp step
    obtain ⟨rfl, rfl⟩ := holds.knows.tail.relaxed_latest holds.knows.ownTail load
    refine ⟨seen, ?_⟩
    dsimp only [latest] at isTail isCached ⊢
    split
    · exact ⟨agrees.look (.loadHead _) rfl rfl rfl rfl isTail, holds.knows, holds.published,
        holds.freeing, fun _ phase => by contradiction⟩
    · next some =>
      have behind : taken.length < seen := by
        apply lt_of_le_of_ne agrees.taken_le
        rintro rfl
        exact some (isTail.trans isCached.symm)
      exact ⟨agrees.look (.read _) rfl rfl rfl rfl ⟨isTail, behind⟩, holds.knows, holds.published, holds.freeing,
        fun _ phase => by contradiction⟩
  | loadHead t => exact holds.consumerHead step locals rfl rfl
  | spinHead t => exact holds.consumerHead step locals rfl rfl
  | spinClosed t =>
    obtain ⟨⟨closed, view⟩, load, rfl⟩ := Option.map_eq_some_iff.mp step
    obtain ⟨grows, within, -⟩ := holds.knows.closed.acquire holds.knows.consumer load
    have knows := holds.knows.consumerKeeps grows within
    refine ⟨seen, ?_⟩
    cases closed with
    | false =>
      exact ⟨agrees.look (.spinHead t) rfl rfl rfl rfl locals, knows, holds.published,
        holds.freeing, fun _ phase => by contradiction⟩
    | true =>
      obtain ⟨isClosed, lastHead⟩ := holds.knows.loadClosed load
      exact ⟨agrees.look (.recheckHead t) rfl rfl rfl rfl ⟨locals, isClosed⟩, knows,
        holds.published, holds.freeing, fun _ _ => lastHead⟩
  | recheckHead t =>
    obtain ⟨⟨head, view⟩, load, rfl⟩ := Option.map_eq_some_iff.mp step
    -- the flag came with the last head
    obtain rfl := holds.knows.head.acquire_latest (holds.recheck t rfl) load
    obtain ⟨count, isLast, le, isCount, knows⟩ := holds.knows.loadHead load
    obtain rfl := holds.count_eq isLast le isCount
    refine ⟨pushed.length, ?_⟩
    dsimp only at knows ⊢
    by_cases empty : t = memory.head.latest
    · rw [if_pos empty, if_pos empty]
      exact ⟨(agrees.refuse rfl empty).reenter, knows, holds.published, holds.freeing, fun _ phase => by contradiction⟩
    · rw [if_neg empty, if_neg empty, List.append_nil]
      exact ⟨(agrees.reads locals.1 empty rfl rfl).reenter, knows, holds.published,
        holds.freeing, fun _ phase => by contradiction⟩
  | read t =>
    obtain rfl := Option.some.inj step
    obtain ⟨isSlot, behind⟩ := locals
    obtain rfl : t = capacity.slot taken.length := isSlot
    exact ⟨seen, (agrees.read behind rfl rfl).reenter, holds.knows.take, holds.published,
      holds.freeing, fun _ phase => by contradiction⟩
  | store t item =>
    obtain rfl := Option.some.inj step
    obtain rfl : t = capacity.slot taken.length := locals.1
    have knows := holds.knows.free (congrArg Nat.succ holds.freeing.symm)
    have length : (taken ++ [item]).length = taken.length + 1 := List.length_append
    refine ⟨seen, ?_, ?_, holds.published, ?_, fun _ phase => by contradiction⟩
    · have agrees := (agrees.free rfl).reenter
      unfold latest
      dsimp only
      rw [Atomic.latest_release]
      exact agrees
    · rw [capacity.next_slot]
      change Knows capacity _ _ _ (taken ++ [item]).length _ _
      rw [length]
      exact knows
    · have freeing : memory.top .tail = taken.length := holds.freeing
      change (memory.tail.release .tail memory.consumerView _).stores.length - 1 = (taken ++ [item]).length
      rw [holds.knows.tail.length_release, View.next_self, freeing, length]
  | call item =>
    obtain rfl := Option.some.inj step
    exact ⟨seen, agrees.call rfl, holds.knows, holds.published, holds.freeing, fun _ phase => by contradiction⟩

theorem enter (call : Call α) (idle : state.producer = .idle) :
    Holds capacity (Ordered.enter state call) counts freed seen := by
  have agrees := (holds.agrees.reenter.enter call idle).reenter
  have knows := holds.knows
  rw [idle] at knows
  refine ⟨?_, ?_, holds.published, holds.freeing, holds.recheck⟩
  · cases call <;> exact agrees
  · cases call <;> exact knows

theorem move {choice : Move α} (step : Ordered.move capacity state choice = some after) :
    ∃ counts freed seen, Holds capacity after counts freed seen := by
  cases choice with
  | enter call =>
    cases idle : state.producer <;> simp only [Ordered.move, idle, reduceCtorEq, Option.some_inj] at step
    subst step
    exact ⟨counts, freed, seen, holds.enter call idle⟩
  | produce index =>
    obtain ⟨counts, freed, holds⟩ := holds.produce step
    exact ⟨counts, freed, seen, holds⟩
  | pop =>
    cases idle : state.consumer <;> simp only [Ordered.move, idle, reduceCtorEq, Option.some_inj] at step
    subst step
    have empty : state.consumer.held = [] := by rw [idle]; rfl
    have untouched : state.consumer.emptied = id := by rw [idle]; rfl
    have knows := holds.knows
    rw [untouched] at knows
    exact ⟨counts, freed, seen, holds.agrees.look .loadTail rfl empty rfl untouched trivial,
      knows, holds.published, holds.freeing,
      fun _ phase => by contradiction⟩
  | consume index =>
    obtain ⟨seen, holds⟩ := holds.consume step
    exact ⟨counts, freed, seen, holds⟩

end Holds

/-- The invariant holds whatever stores the threads load. -/
theorem holds_reachable (reached : (system capacity α).Reachable state) :
    ∃ counts freed seen, Holds capacity state counts freed seen := by
  apply reached.invariant
  · rintro _ rfl
    exact ⟨[0], 0, 0, holds_start⟩
  · rintro before after ⟨counts, freed, seen, holds⟩ ⟨choice, step⟩
    exact holds.move step

theorem emptied_le (holds : Holds capacity state counts freed seen) :
    state.consumer.emptied state.taken.length ≤ state.pushed.length := by
  have locals := holds.agrees.consumer
  have taken_le := holds.agrees.taken_le
  have seen_le := holds.agrees.seen_le
  dsimp only [latest] at locals taken_le seen_le
  cases phase : state.consumer with
  | store t item =>
    rw [phase] at locals
    exact Nat.succ_le_of_lt (locals.2.1.trans_le seen_le)
  | _ => exact taken_le.trans seen_le

/-- The consumer's last access to the slot that the producer writes next happens before that write. -/
theorem Holds.writes (holds : Holds capacity state counts freed seen) {slot : UInt64}
    (target : state.producer.target capacity = some slot) :
    ¬state.memory.buffer.Races state.memory.producerView .producer slot := by
  obtain ⟨more, rfl, near⟩ := holds.agrees.target target
  change state.pushed.length + more < freed + capacity.size at near
  change ¬state.memory.buffer.Races state.memory.producerView .producer (capacity.slot (state.pushed.length + more))
  have emptied_le := emptied_le holds
  rintro ⟨other, notProducer, unknown⟩
  by_cases isConsumer : other = .consumer
  · subst isConsumer
    have before : state.memory.buffer.accessed (capacity.slot (state.pushed.length + more)) .consumer ≤ freed := by
      refine holds.knows.consumerAccesses _ freed fun position left taken same => ?_
      have := (capacity.slot_eq_iff (by omega) (near.trans_le (by omega))).mp same
      omega
    exact absurd unknown (Nat.not_lt_of_le (before.trans holds.knows.freedClock))
  · rw [holds.knows.noOther _ other notProducer isConsumer] at unknown
    contradiction

/-- The producer's last access to the slot that the consumer reads next happens before that read. -/
theorem Holds.reads (holds : Holds capacity state counts freed seen) {slot : UInt64}
    (source : state.consumer.source = some slot) :
    ¬state.memory.buffer.Races state.memory.consumerView .consumer slot := by
  have locals := holds.agrees.consumer
  have room := holds.agrees.room
  have freed_le := holds.agrees.freed_le
  have written_le := holds.agrees.written_le
  dsimp only [latest] at locals room freed_le written_le
  obtain ⟨rfl, behind⟩ : slot = capacity.slot state.taken.length ∧ state.taken.length < seen := by
    cases phase : state.consumer with
    | read t =>
      rw [phase] at locals source
      obtain rfl := Option.some.inj source
      exact locals
    | _ =>
      rw [phase] at source
      contradiction
  rintro ⟨other, notConsumer, unknown⟩
  by_cases isProducer : other = .producer
  · subst isProducer
    have before :
        state.memory.buffer.accessed (capacity.slot state.taken.length) .producer ≤ state.taken.length + 1 := by
      refine holds.knows.producerAccesses _ _ fun position left written same => ?_
      rw [List.length_append] at written
      have := (capacity.slot_eq_iff (by omega) (by omega)).mp same.symm
      omega
    exact absurd unknown (Nat.not_lt_of_le (before.trans (Nat.le_trans behind holds.knows.seenClock)))
  · rw [holds.knows.noOther _ other isProducer notConsumer] at unknown
    contradiction

structure OrdersSuffice (capacity : RingCapacity) (state : Ordered α) : Prop where
  /-- An access to a slot comes after the accesses of the other thread to it. -/
  writes : ∀ slot, state.producer.target capacity = some slot →
    slot < capacity.word ∧ ¬state.memory.buffer.Races state.memory.producerView .producer slot
  reads : ∀ slot, state.consumer.source = some slot →
    slot < capacity.word ∧ ¬state.memory.buffer.Races state.memory.consumerView .consumer slot
  /-- What was popped is what was pushed, in order, with nothing lost, invented or repeated. -/
  inOrder : state.popped <+: state.pushed.map some
  /-- A pop that returned false saw the queue closed and everything popped. -/
  drained : false ∈ state.results → state.memory.closed.latest ∧ state.popped = state.pushed.map some
  /-- After it no pop returns true. -/
  final : state.results.Pairwise fun earlier later : Bool => later = true → earlier = true
  /-- A call that threw found the queue closed or its batch too long. -/
  error : ∀ error, state.producer = .threw error → error = pushBatchTooLong ∨ state.memory.closed.latest

/-- With the memory orders of the source the queue has no race on a slot, and its items and its
shutdown are as over sequentially consistent memory. -/
theorem ordersSuffice_reachable (reached : (system capacity α).Reachable state) : OrdersSuffice capacity state := by
  obtain ⟨counts, freed, seen, holds⟩ := holds_reachable reached
  obtain ⟨refused, isResults, quiet⟩ := holds.agrees.results
  have taken := holds.agrees.taken
  have popped := holds.agrees.popped
  dsimp only [latest] at isResults quiet taken popped
  have inOrder : state.popped <+: state.pushed.map some := by
    have isPrefix : state.popped <+: state.taken := ⟨_, popped.symm⟩
    rw [taken] at isPrefix
    exact isPrefix.trans ((List.take_prefix _ _).map _)
  constructor
  · intro slot target
    obtain ⟨more, rfl, -⟩ := holds.agrees.target target
    exact ⟨slot_lt_word _, holds.writes target⟩
  · intro slot source
    refine ⟨?_, holds.reads source⟩
    have locals := holds.agrees.consumer
    dsimp only [latest] at locals
    cases phase : state.consumer with
    | read t =>
      rw [phase] at locals source
      obtain rfl := Option.some.inj source
      rw [locals.1]
      exact slot_lt_word _
    | _ =>
      rw [phase] at source
      contradiction
  · exact inOrder
  · intro refusal
    have some : 0 < refused := by
      rw [isResults, List.mem_append] at refusal
      rcases refusal with popped | refused
      · exact absurd (List.eq_of_mem_replicate popped) (by decide)
      · exact Nat.pos_of_ne_zero (List.mem_replicate.mp refused).1
    obtain ⟨isClosed, all⟩ := quiet some
    exact ⟨isClosed, inOrder.eq_of_length (by rw [all, List.length_map])⟩
  · rw [isResults, List.pairwise_append]
    refine ⟨List.pairwise_replicate.mpr (.inr id), List.pairwise_replicate.mpr (.inr id), ?_⟩
    intro earlier popped later _ _
    exact List.eq_of_mem_replicate popped
  · intro error phase
    have locals := holds.agrees.producer
    dsimp only [latest] at locals
    rw [phase] at locals
    exact locals

/-- The producer waits on an old tail for its second push and closes the queue after it. The second
pop loads the head from before that push, then the flag, and so the last head; the third returns
false. -/
def staleLoads : List (Move ℕ) :=
  [.enter (.push 5), .produce 0, .produce 0, .produce 0, .produce 0,
    .pop, .consume 0, .consume 0, .consume 0, .consume 1, .consume 0, .consume 0, .consume 0,
    .enter (.push 6), .produce 0, .produce 1, .produce 0, .produce 0, .produce 0, .produce 1, .produce 0, .produce 0,
    .enter .close, .produce 0,
    .pop, .consume 1, .consume 1, .consume 1, .consume 2, .consume 0, .consume 0, .consume 0,
    .pop, .consume 2, .consume 2, .consume 1, .consume 2]

theorem ordersSuffice_reachable_staleLoads : ∃ state, staleLoads.foldlM (move twoSlots) {} = some state ∧
    state.popped = [some 5, some 6] ∧ state.results = [true, true, false] ∧ OrdersSuffice twoSlots state :=
  ⟨_, rfl, rfl, rfl, ordersSuffice_reachable (TransitionSystem.reachable_ofMoves staleLoads rfl)⟩

end Ordered

end BackTester.LockFreeQueue
