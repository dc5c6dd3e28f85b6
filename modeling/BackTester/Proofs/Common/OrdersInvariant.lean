import BackTester.Model.Common.LockFreeQueueOrders

/-! # What the threads of the lock-free queue know

An index of the tail comes with the knowledge that the slots before it were read, one of the head
with the knowledge that the slots before it were written, and the closed flag with the last head. So
what a thread concludes from an index that it loads, however old, is true of the slots that it goes
on to access.
-/

namespace BackTester.LockFreeQueue

variable {α : Type*} {capacity : RingCapacity} {memory : Memory α} {counts : List ℕ}
  {written read freed seen : ℕ} {view : View Source}

/-- All there is to know. -/
def Memory.top (memory : Memory α) : View Source
  | .head => memory.head.stores.length - 1
  | .tail => memory.tail.stores.length - 1
  | .closed => memory.closed.stores.length - 1
  | .producer => memory.producerView .producer
  | .consumer => memory.consumerView .consumer

/-- Accesses to the slots of the positions below `last`, in order: the last access to a slot was to one of these. -/
def AccessedBy (capacity : RingCapacity) (memory : Memory α) (thread : Source) (last : ℕ) : Prop :=
  ∀ slot n, (∀ position, n ≤ position → position < last → capacity.slot position ≠ slot) →
    memory.buffer.accessed slot thread ≤ n

/-- What is stored and what is known of it, when the head was stored with the item counts `counts`,
slots were written up to `written` and read up to `read`, and the threads count on `freed` slots
having been read and `seen` having been written. -/
structure Knows (capacity : RingCapacity) (memory : Memory α) (counts : List ℕ)
    (written read freed seen : ℕ) : Prop where
  head : memory.head.Within .head memory.top
  tail : memory.tail.Within .tail memory.top
  closed : memory.closed.Within .closed memory.top
  producer : memory.producerView ≤ memory.top
  consumer : memory.consumerView ≤ memory.top
  /-- A thread knows of its own stores. -/
  ownHead : memory.producerView .head = memory.top .head
  ownClosed : memory.producerView .closed = memory.top .closed
  ownTail : memory.consumerView .tail = memory.top .tail
  producerClock : memory.producerView .producer = written
  consumerClock : memory.consumerView .consumer = read
  headStores : memory.head.stores.map Prod.fst = counts.map capacity.slot
  sorted : counts.Pairwise (· ≤ ·)
  counted : ∀ n ∈ counts, n ≤ written
  headKnows : ∀ (index : ℕ) (store : UInt64 × View Source) (n : ℕ), memory.head.stores[index]? = some store →
    counts[index]? = some n → n ≤ store.2 .producer
  tailStores : ∀ (index : ℕ) (store : UInt64 × View Source), memory.tail.stores[index]? = some store →
    store.1 = capacity.slot index ∧ index ≤ store.2 .consumer
  /-- Who finds the queue closed knows the last head. -/
  closedStores :
    ∀ (index : ℕ) (store : Bool × View Source), memory.closed.stores[index]? = some store → store.1 = true →
    memory.closed.latest = true ∧ memory.top .head ≤ store.2 .head
  freedIndex : freed ≤ memory.producerView .tail
  freedClock : freed ≤ memory.producerView .consumer
  seenIndex : ∀ n, counts[memory.consumerView .head]? = some n → seen ≤ n
  seenClock : seen ≤ memory.consumerView .producer
  producerAccesses : AccessedBy capacity memory .producer written
  consumerAccesses : AccessedBy capacity memory .consumer read
  noOther : ∀ slot source, source ≠ .producer → source ≠ .consumer → memory.buffer.accessed slot source = 0

theorem knows_start : Knows capacity ({} : Memory α) [0] 0 0 0 0 := by
  have isTop : ({} : Memory α).top = fun _ => 0 := by
    funext source
    cases source <;> rfl
  have first {β : Type} {value : β} {index : ℕ} {store : β × View Source}
      (found : (Atomic.init value).stores[index]? = some store) :
      index = 0 ∧ store = (value, fun _ => 0) := by
    rw [Atomic.init, List.getElem?_singleton] at found
    split at found
    · next isFirst => exact ⟨isFirst, (Option.some.inj found).symm⟩
    · contradiction
  exact {
    head := by rw [isTop]; exact Atomic.within_init _
    tail := by rw [isTop]; exact Atomic.within_init _
    closed := by rw [isTop]; exact Atomic.within_init _
    producer := fun _ => Nat.zero_le _
    consumer := fun _ => Nat.zero_le _
    ownHead := by rw [isTop]
    ownClosed := by rw [isTop]
    ownTail := by rw [isTop]
    producerClock := rfl
    consumerClock := rfl
    headStores := by simp [Atomic.init, RingCapacity.slot]
    sorted := List.pairwise_singleton _ _
    counted := by simp
    headKnows := fun index store n _ isCount => by
      rw [List.getElem?_singleton] at isCount
      split at isCount
      · exact (Option.some.inj isCount).symm ▸ Nat.zero_le _
      · contradiction
    tailStores := fun index store found => by
      obtain ⟨rfl, rfl⟩ := first found
      exact ⟨by simp [RingCapacity.slot], Nat.zero_le _⟩
    closedStores := fun index store found isClosed => by
      obtain ⟨rfl, rfl⟩ := first found
      contradiction
    freedIndex := Nat.zero_le _
    freedClock := Nat.zero_le _
    seenIndex := fun _ _ => Nat.zero_le _
    seenClock := Nat.zero_le _
    producerAccesses := fun _ _ _ => Nat.zero_le _
    consumerAccesses := fun _ _ _ => Nat.zero_le _
    noOther := fun _ _ _ _ => rfl }

namespace Knows

variable (knows : Knows capacity memory counts written read freed seen)
include knows

theorem length_counts : counts.length = memory.top .head + 1 := by
  rw [← knows.head.last, ← List.length_map Prod.fst, knows.headStores, List.length_map]

/-- The producer learns more, and may count on more slots. -/
theorem producerLearns (tailCached : UInt64) {more : ℕ} (grows : memory.producerView ≤ view)
    (within : view ≤ memory.top) (index : more ≤ view .tail) (clock : more ≤ view .consumer) :
    Knows capacity { memory with producerView := view, tailCached } counts written read more seen := by
  have same : ({ memory with producerView := view, tailCached } : Memory α).top = memory.top := by
    funext source
    cases source with
    | producer => exact Nat.le_antisymm (within .producer) (grows .producer)
    | head | tail | closed | consumer => rfl
  have isTop {source : Source} (own : memory.producerView source = memory.top source) :
      view source = memory.top source :=
    Nat.le_antisymm (within source) (own ▸ grows source)
  exact { knows with
    head := by rw [same]; exact knows.head
    tail := by rw [same]; exact knows.tail
    closed := by rw [same]; exact knows.closed
    producer := by rw [same]; exact within
    consumer := by rw [same]; exact knows.consumer
    ownHead := by rw [same]; exact isTop knows.ownHead
    ownClosed := by rw [same]; exact isTop knows.ownClosed
    ownTail := by rw [same]; exact knows.ownTail
    producerClock := (isTop rfl).trans knows.producerClock
    closedStores := by rw [same]; exact knows.closedStores
    freedIndex := index
    freedClock := clock }

/-- Later stores of the head have greater counts. -/
theorem count_le {index later n m : ℕ} (le : index ≤ later) (isCount : counts[index]? = some n)
    (isLater : counts[later]? = some m) :
    n ≤ m := by
  rcases Nat.eq_or_lt_of_le le with rfl | lt
  · exact (Option.some.inj (isCount.symm.trans isLater)).le
  · obtain ⟨_, rfl⟩ := List.getElem?_eq_some_iff.mp isCount
    obtain ⟨_, rfl⟩ := List.getElem?_eq_some_iff.mp isLater
    exact List.pairwise_iff_getElem.mp knows.sorted _ _ _ _ lt

theorem exists_count {index : ℕ} (le : index ≤ memory.top .head) : ∃ n, counts[index]? = some n := by
  have inside : index < counts.length := by
    rw [knows.length_counts]
    exact Nat.lt_succ_of_le le
  exact ⟨_, List.getElem?_eq_getElem inside⟩

/-- The consumer learns more, and may count on more items. -/
theorem consumerLearns (headCached : UInt64) {more : ℕ} (grows : memory.consumerView ≤ view)
    (within : view ≤ memory.top)
    (index : ∀ n, counts[view .head]? = some n → more ≤ n) (clock : more ≤ view .producer) :
    Knows capacity { memory with consumerView := view, headCached } counts written read freed more := by
  have same : ({ memory with consumerView := view, headCached } : Memory α).top = memory.top := by
    funext source
    cases source with
    | consumer => exact Nat.le_antisymm (within .consumer) (grows .consumer)
    | head | tail | closed | producer => rfl
  have isTop {source : Source} (own : memory.consumerView source = memory.top source) :
      view source = memory.top source :=
    Nat.le_antisymm (within source) (own ▸ grows source)
  exact { knows with
    head := by rw [same]; exact knows.head
    tail := by rw [same]; exact knows.tail
    closed := by rw [same]; exact knows.closed
    producer := by rw [same]; exact knows.producer
    consumer := by rw [same]; exact within
    ownHead := by rw [same]; exact knows.ownHead
    ownClosed := by rw [same]; exact knows.ownClosed
    ownTail := by rw [same]; exact isTop knows.ownTail
    consumerClock := (isTop rfl).trans knows.consumerClock
    closedStores := by rw [same]; exact knows.closedStores
    seenIndex := index
    seenClock := clock }

/-- The consumer still counts on what it did. -/
theorem consumerKeeps (grows : memory.consumerView ≤ view) (within : view ≤ memory.top) :
    Knows capacity { memory with consumerView := view } counts written read freed seen := by
  refine knows.consumerLearns memory.headCached grows within (fun n isCount => ?_)
    (knows.seenClock.trans (grows .producer))
  obtain ⟨m, isBefore⟩ := knows.exists_count ((grows .head).trans (within .head))
  exact (knows.seenIndex m isBefore).trans (knows.count_le (grows .head) isBefore isCount)

/-- The producer still counts on what it did. -/
theorem producerKeeps (grows : memory.producerView ≤ view) (within : view ≤ memory.top) :
    Knows capacity { memory with producerView := view } counts written read freed seen :=
  knows.producerLearns memory.tailCached grows within (knows.freedIndex.trans (grows .tail))
    (knows.freedClock.trans (grows .consumer))

/-- A tail that the producer loads says how many slots were read, and that it knows of it. -/
theorem loadTail {tail : UInt64} {index : ℕ}
    (load : memory.tail.acquire .tail memory.producerView index = some (tail, view)) :
    tail = capacity.slot index ∧ freed ≤ index ∧ index ≤ memory.top .tail ∧
      Knows capacity { memory with producerView := view, tailCached := tail } counts written read index seen := by
  obtain ⟨grows, within, indexed⟩ := knows.tail.acquire knows.producer load
  obtain ⟨fresh, released, found, rfl⟩ := Atomic.acquire_eq_some_iff.mp load
  obtain ⟨isSlot, clock⟩ := knows.tailStores index _ found
  refine ⟨isSlot, knows.freedIndex.trans fresh, knows.tail.index_le_top found,
    knows.producerLearns tail grows within indexed ?_⟩
  exact clock.trans (le_sup_right (a := memory.producerView) _)

/-- A head that the consumer loads says how many items were written, and that it knows of them. -/
theorem loadHead {head : UInt64} {index : ℕ}
    (load : memory.head.acquire .head memory.consumerView index = some (head, view)) :
    ∃ count, head = capacity.slot count ∧ seen ≤ count ∧ count ∈ counts ∧
      Knows capacity { memory with consumerView := view, headCached := head } counts written read freed count := by
  obtain ⟨grows, within, indexed⟩ := knows.head.acquire knows.consumer load
  obtain ⟨fresh, released, found, rfl⟩ := Atomic.acquire_eq_some_iff.mp load
  obtain ⟨count, isCount⟩ := knows.exists_count (knows.head.index_le_top found)
  have isSlot : some head = some (capacity.slot count) := by
    have stores := congrArg (fun slots : List UInt64 => slots[index]?) knows.headStores
    simp only [List.getElem?_map, found, isCount, Option.map_some] at stores
    exact stores
  obtain ⟨before, isBefore⟩ := knows.exists_count (fresh.trans (knows.head.index_le_top found))
  have le := (knows.seenIndex before isBefore).trans (knows.count_le fresh isBefore isCount)
  refine ⟨count, Option.some.inj isSlot, le, List.mem_of_getElem? isCount,
    knows.consumerLearns head grows within (fun n isLater => ?_) ?_⟩
  · exact knows.count_le indexed isCount isLater
  · exact (knows.headKnows index _ count found isCount).trans (le_sup_right (a := memory.consumerView) _)

/-- Who loads the closed flag and finds it set knows the last head. -/
theorem loadClosed {index : ℕ} (load : memory.closed.acquire .closed memory.consumerView index = some (true, view)) :
    memory.closed.latest = true ∧ view .head = memory.top .head := by
  obtain ⟨-, within, -⟩ := knows.closed.acquire knows.consumer load
  obtain ⟨-, released, found, rfl⟩ := Atomic.acquire_eq_some_iff.mp load
  obtain ⟨isClosed, known⟩ := knows.closedStores index _ found rfl
  exact ⟨isClosed, Nat.le_antisymm (within .head) (known.trans (le_sup_right (a := memory.consumerView) _))⟩

omit knows in
/-- The next access of a thread is one to the slot of the next position. -/
theorem accessedBy_access {thread : Source} {last : ℕ} (accesses : AccessedBy capacity memory thread last)
    (clock : view thread = last) (item : Option α) (slot n)
    (apart : ∀ position, n ≤ position → position < last + 1 → capacity.slot position ≠ slot) :
    (memory.buffer.access view thread (capacity.slot last) item).accessed slot thread ≤ n := by
  unfold Plain.access
  dsimp only
  rcases eq_or_ne slot (capacity.slot last) with rfl | other
  · rw [Function.update_self, Function.update_self, clock]
    by_contra before
    exact apart last (by omega) (Nat.lt_succ_self _) rfl
  · rw [Function.update_of_ne other]
    exact accesses slot n fun position le lt => apart position le (Nat.lt_succ_of_lt lt)

omit knows in
/-- Of other threads nothing changes. -/
theorem accessed_access_of_ne {thread other : Source} (apart : other ≠ thread) (cell : UInt64)
    (item : Option α) (slot : UInt64) :
    (memory.buffer.access view thread cell item).accessed slot other = memory.buffer.accessed slot other := by
  unfold Plain.access
  dsimp only
  rcases eq_or_ne slot cell with rfl | elsewhere
  · rw [Function.update_self, Function.update_of_ne apart]
  · rw [Function.update_of_ne elsewhere]

/-- The producer writes the slot of the next position. -/
theorem write (item : Option α) :
    Knows capacity { memory with
      buffer := memory.buffer.access memory.producerView .producer (capacity.slot written) item
      producerView := memory.producerView.next .producer } counts (written + 1) read freed seen := by
  have same : ({ memory with
      buffer := memory.buffer.access memory.producerView .producer (capacity.slot written) item
      producerView := memory.producerView.next .producer } : Memory α).top = memory.top.next .producer := by
    funext source
    cases source <;> rfl
  have more := memory.top.le_next .producer
  have clock : memory.producerView .producer + 1 = written + 1 := by rw [knows.producerClock]
  exact { knows with
    head := by rw [same]; exact knows.head.mono more rfl
    tail := by rw [same]; exact knows.tail.mono more rfl
    closed := by rw [same]; exact knows.closed.mono more rfl
    producer := by rw [same]; exact View.next_le_next knows.producer _
    consumer := by rw [same]; exact knows.consumer.trans more
    ownHead := by rw [same]; exact knows.ownHead
    ownClosed := by rw [same]; exact knows.ownClosed
    ownTail := by rw [same]; exact knows.ownTail
    producerClock := (View.next_self _ _).trans clock
    counted := fun n isCount => Nat.le_succ_of_le (knows.counted n isCount)
    closedStores := by rw [same]; exact knows.closedStores
    freedIndex := knows.freedIndex
    freedClock := knows.freedClock
    producerAccesses := accessedBy_access knows.producerAccesses knows.producerClock item
    consumerAccesses := fun slot n apart => by
      rw [accessed_access_of_ne (by decide)]
      exact knows.consumerAccesses slot n apart
    noOther := fun slot source notProducer notConsumer => by
      rw [accessed_access_of_ne notProducer]
      exact knows.noOther slot source notProducer notConsumer }

/-- The consumer empties the slot of the next position. -/
theorem take :
    Knows capacity { memory with
      buffer := memory.buffer.access memory.consumerView .consumer (capacity.slot read) none
      consumerView := memory.consumerView.next .consumer } counts written (read + 1) freed seen := by
  have same : ({ memory with
      buffer := memory.buffer.access memory.consumerView .consumer (capacity.slot read) none
      consumerView := memory.consumerView.next .consumer } : Memory α).top = memory.top.next .consumer := by
    funext source
    cases source <;> rfl
  have more := memory.top.le_next .consumer
  have clock : memory.consumerView .consumer + 1 = read + 1 := by rw [knows.consumerClock]
  exact { knows with
    head := by rw [same]; exact knows.head.mono more rfl
    tail := by rw [same]; exact knows.tail.mono more rfl
    closed := by rw [same]; exact knows.closed.mono more rfl
    producer := by rw [same]; exact knows.producer.trans more
    consumer := by rw [same]; exact View.next_le_next knows.consumer _
    ownHead := by rw [same]; exact knows.ownHead
    ownClosed := by rw [same]; exact knows.ownClosed
    ownTail := by rw [same]; exact knows.ownTail
    consumerClock := (View.next_self _ _).trans clock
    closedStores := by rw [same]; exact knows.closedStores
    seenIndex := knows.seenIndex
    seenClock := knows.seenClock
    producerAccesses := fun slot n apart => by
      rw [accessed_access_of_ne (by decide)]
      exact knows.producerAccesses slot n apart
    consumerAccesses := accessedBy_access knows.consumerAccesses knows.consumerClock none
    noOther := fun slot source notProducer notConsumer => by
      rw [accessed_access_of_ne notConsumer]
      exact knows.noOther slot source notProducer notConsumer }

/-- The producer publishes what it has written, while the queue is open. -/
theorem publish (opened : memory.closed.latest = false) :
    Knows capacity { memory with
      head := memory.head.release .head memory.producerView (capacity.slot written)
      producerView := memory.head.known .head memory.producerView } (counts ++ [written]) written read freed seen := by
  have isNext : memory.head.known .head memory.producerView = memory.producerView.next .head :=
    knows.head.known_eq knows.ownHead
  have own : memory.producerView.next .head .head = memory.top.next .head .head := by
    rw [View.next_self, View.next_self, knows.ownHead]
  have same : ({ memory with
      head := memory.head.release .head memory.producerView (capacity.slot written)
      producerView := memory.head.known .head memory.producerView } : Memory α).top = memory.top.next .head := by
    funext source
    cases source with
    | head => exact knows.head.length_release _
    | producer => simp only [Memory.top, isNext]; rfl
    | tail | closed | consumer => rfl
  have more := memory.top.le_next .head
  have inside {index : ℕ} (found : index < memory.head.stores.length) : index < counts.length := by
    rwa [knows.length_counts, ← knows.head.last]
  exact { knows with
    head := by rw [same]; exact knows.head.release knows.producer _
    tail := by rw [same]; exact knows.tail.mono more rfl
    closed := by rw [same]; exact knows.closed.mono more rfl
    producer := by rw [same, isNext]; exact View.next_le_next knows.producer _
    consumer := by rw [same]; exact knows.consumer.trans more
    ownHead := by rw [same, isNext]; exact own
    ownClosed := by rw [same, isNext]; exact knows.ownClosed
    ownTail := by rw [same]; exact knows.ownTail
    producerClock := by rw [isNext]; exact knows.producerClock
    headStores := by
      rw [Atomic.release, List.map_append, List.map_append, knows.headStores]
      rfl
    sorted := by
      refine List.pairwise_append.mpr ⟨knows.sorted, List.pairwise_singleton _ _, fun n isCount m isLast => ?_⟩
      rw [List.mem_singleton.mp isLast]
      exact knows.counted n isCount
    counted := fun n isCount => by
      rcases List.mem_append.mp isCount with isCount | isLast
      · exact knows.counted n isCount
      · exact (List.mem_singleton.mp isLast).le
    headKnows := fun index store n found isCount => by
      rcases Atomic.stores_release.mp found with found | ⟨-, rfl⟩
      · rw [List.getElem?_append_left (inside (List.getElem?_eq_some_iff.mp found).1)] at isCount
        exact knows.headKnows index store n found isCount
      · have le : n ≤ written := by
          rcases List.mem_append.mp (List.mem_of_getElem? isCount) with isCount | isLast
          · exact knows.counted n isCount
          · exact (List.mem_singleton.mp isLast).le
        rw [isNext]
        exact le.trans knows.producerClock.ge
    closedStores := fun index store found isClosed => by
      rw [(knows.closedStores index store found isClosed).1] at opened
      contradiction
    freedIndex := by rw [isNext]; exact knows.freedIndex
    freedClock := by rw [isNext]; exact knows.freedClock
    seenIndex := fun n isCount => by
      obtain ⟨m, isBefore⟩ := knows.exists_count (knows.consumer .head)
      rw [List.getElem?_append_left (List.getElem?_eq_some_iff.mp isBefore).1] at isCount
      exact knows.seenIndex n isCount }

/-- The producer closes the queue. -/
theorem shut :
    Knows capacity { memory with
      closed := memory.closed.release .closed memory.producerView true
      producerView := memory.closed.known .closed memory.producerView } counts written read freed seen := by
  have isNext : memory.closed.known .closed memory.producerView = memory.producerView.next .closed :=
    knows.closed.known_eq knows.ownClosed
  have own : memory.producerView.next .closed .closed = memory.top.next .closed .closed := by
    rw [View.next_self, View.next_self, knows.ownClosed]
  have same : ({ memory with
      closed := memory.closed.release .closed memory.producerView true
      producerView := memory.closed.known .closed memory.producerView } : Memory α).top = memory.top.next .closed := by
    funext source
    cases source with
    | closed => exact knows.closed.length_release _
    | producer => simp only [Memory.top, isNext]; rfl
    | tail | head | consumer => rfl
  have more := memory.top.le_next .closed
  exact { knows with
    head := by rw [same]; exact knows.head.mono more rfl
    tail := by rw [same]; exact knows.tail.mono more rfl
    closed := by rw [same]; exact knows.closed.release knows.producer _
    producer := by rw [same, isNext]; exact View.next_le_next knows.producer _
    consumer := by rw [same]; exact knows.consumer.trans more
    ownHead := by rw [same, isNext]; exact knows.ownHead
    ownClosed := by rw [same, isNext]; exact own
    ownTail := by rw [same]; exact knows.ownTail
    producerClock := by rw [isNext]; exact knows.producerClock
    closedStores := fun index store found isClosed => by
      refine ⟨Atomic.latest_release, ?_⟩
      rw [same]
      rcases Atomic.stores_release.mp found with found | ⟨-, rfl⟩
      · exact (knows.closedStores index store found isClosed).2
      · rw [isNext]
        exact knows.ownHead.ge
    freedIndex := by rw [isNext]; exact knows.freedIndex
    freedClock := by rw [isNext]; exact knows.freedClock }

/-- The consumer frees the slots that it has read. -/
theorem free (isNext : read = memory.top .tail + 1) :
    Knows capacity { memory with
      tail := memory.tail.release .tail memory.consumerView (capacity.slot read)
      consumerView := memory.tail.known .tail memory.consumerView } counts written read freed seen := by
  have isKnown : memory.tail.known .tail memory.consumerView = memory.consumerView.next .tail :=
    knows.tail.known_eq knows.ownTail
  have own : memory.consumerView.next .tail .tail = memory.top.next .tail .tail := by
    rw [View.next_self, View.next_self, knows.ownTail]
  have same : ({ memory with
      tail := memory.tail.release .tail memory.consumerView (capacity.slot read)
      consumerView := memory.tail.known .tail memory.consumerView } : Memory α).top = memory.top.next .tail := by
    funext source
    cases source with
    | tail => exact knows.tail.length_release _
    | consumer => simp only [Memory.top, isKnown]; rfl
    | head | closed | producer => rfl
  have more := memory.top.le_next .tail
  exact { knows with
    head := by rw [same]; exact knows.head.mono more rfl
    tail := by rw [same]; exact knows.tail.release knows.consumer _
    closed := by rw [same]; exact knows.closed.mono more rfl
    producer := by rw [same]; exact knows.producer.trans more
    consumer := by rw [same, isKnown]; exact View.next_le_next knows.consumer _
    ownHead := by rw [same]; exact knows.ownHead
    ownClosed := by rw [same]; exact knows.ownClosed
    ownTail := by rw [same, isKnown]; exact own
    consumerClock := by rw [isKnown]; exact knows.consumerClock
    tailStores := fun index store found => by
      rcases Atomic.stores_release.mp found with found | ⟨rfl, rfl⟩
      · exact knows.tailStores index store found
      · rw [knows.tail.last, ← isNext, isKnown]
        exact ⟨rfl, knows.consumerClock.ge⟩
    closedStores := by rw [same]; exact knows.closedStores
    seenIndex := fun n isCount => by
      rw [isKnown] at isCount
      exact knows.seenIndex n isCount
    seenClock := by rw [isKnown]; exact knows.seenClock }

end Knows

end BackTester.LockFreeQueue
