import BackTester.Model.Common.LockFreeQueue

/-! # The invariant of the lock-free queue

Positions count the items published and taken from the start on. Each index member is the slot of a
position, and a cached index the slot of an earlier one: the producer knows a position up to which
slots were freed, the consumer one up to which items were published. What lies in between is stored,
the producer's unpublished items behind it.
-/

namespace BackTester.LockFreeQueue

variable {α : Type*} {capacity : RingCapacity} {state after : State α} {freed seen : ℕ}

/-- The slots that the call has found free, from the head on. -/
@[simp] def Producer.reserved : Producer α → ℕ
  | .pushWrite _ _ | .pushStore _ _ => 1
  | .batchWrite items _ _ | .batchStore items _ => items.length
  | _ => 0

/-- The items that the call has written and not published. -/
@[simp] def Producer.written : Producer α → List α
  | .pushStore value _ => [value]
  | .batchWrite items _ i => items.take i
  | .batchStore items _ => items
  | _ => []

/-- The call has passed its check of the closed flag. -/
@[simp] def Producer.admitted : Producer α → Bool
  | .idle | .pushClosed _ | .batchClosed _ | .close | .threw _ => false
  | _ => true

/-- The call has not written a slot, and will not if it threw. -/
@[simp] def Producer.untouched : Producer α → Bool
  | .idle | .pushWrite _ _ | .pushStore _ _ | .batchWrite _ _ _ | .batchStore _ _ => false
  | _ => true

/-- What the locals of the producer's call are. -/
def ProducerAgrees (capacity : RingCapacity) (published : ℕ) (closed : Bool) : Producer α → Prop
  | .pushSpinClosed _ h | .pushSpinTail _ h | .pushWrite _ h | .pushStore _ h => h = capacity.slot published
  | .batchClosed items => items.length < 2 ^ 64
  | .batchHead items => 0 < items.length ∧ items.length < capacity.size
  | .batchSpinClosed items h | .batchSpinTail items h | .batchStore items h =>
    h = capacity.slot published ∧ 0 < items.length ∧ items.length < capacity.size
  | .batchWrite items h i => h = capacity.slot published ∧ i < items.length ∧ items.length < capacity.size
  | .threw error => error = pushBatchTooLong ∨ closed
  | _ => True

/-- The item whose slot the consumer has freed and that its callback has not seen. -/
@[simp] def Consumer.held : Consumer α → List (Option α)
  | .call item => [item]
  | _ => []

/-- The items whose slots hold them no longer, when the slots of `taken` are freed. -/
@[simp] def Consumer.emptied : Consumer α → ℕ → ℕ
  | .store _ _, taken => taken + 1
  | _, taken => taken

/-- What the locals of the consumer's call are. -/
def ConsumerAgrees (capacity : RingCapacity) (pushed : List α) (taken seen : ℕ) (closed : Bool) : Consumer α → Prop
  | .loadHead t | .spinClosed t | .spinHead t => t = capacity.slot taken
  | .recheckHead t => t = capacity.slot taken ∧ closed
  | .read t => t = capacity.slot taken ∧ taken < seen
  | .store t item => t = capacity.slot taken ∧ taken < seen ∧ item = pushed[taken]?
  | _ => True

/-- What the producer can have changed is what it was at its last call. -/
def Unchanged (capacity : RingCapacity) (state : State α) : Prop :=
  state.queue.head = state.entry.head ∧ state.pushed = state.entered ∧
    ∀ i, state.consumer.emptied state.taken.length ≤ i → i < state.pushed.length →
      state.entry.buffer (capacity.slot i) = state.pushed[i]?

/-- The queue stores what its history says, when the producer knows that the slots of `freed` items are free and the
consumer that `seen` items are published. -/
structure Agrees (capacity : RingCapacity) (state : State α) (freed seen : ℕ) : Prop where
  head : state.queue.head = capacity.slot state.pushed.length
  tail : state.queue.tail = capacity.slot state.taken.length
  tailCached : state.queue.tailCached = capacity.slot freed
  headCached : state.queue.headCached = capacity.slot seen
  freed_le : freed ≤ state.taken.length
  taken_le : state.taken.length ≤ seen
  seen_le : seen ≤ state.pushed.length
  room : state.pushed.length + state.producer.reserved < freed + capacity.size
  written_le : state.producer.written.length ≤ state.producer.reserved
  slots : ∀ i, state.consumer.emptied state.taken.length ≤ i → i < (state.pushed ++ state.producer.written).length →
    state.queue.buffer (capacity.slot i) = (state.pushed ++ state.producer.written)[i]?
  producer : ProducerAgrees capacity state.pushed.length state.queue.closed state.producer
  consumer : ConsumerAgrees capacity state.pushed state.taken.length seen state.queue.closed state.consumer
  taken : state.taken = (state.pushed.take state.taken.length).map some
  popped : state.taken = state.popped ++ state.consumer.held
  /-- A call that passed its check of the flag is the producer's, and so the flag is not set before it ends. -/
  closed : state.queue.closed → state.producer.admitted = false
  results : ∃ refused, state.results = List.replicate state.popped.length true ++ List.replicate refused false ∧
    (0 < refused → state.queue.closed ∧ state.popped.length = state.pushed.length)
  entry : state.producer.untouched → Unchanged capacity state

theorem agrees_start : Agrees capacity ({} : State α) 0 0 where
  head := by simp [RingCapacity.slot]
  tail := by simp [RingCapacity.slot]
  tailCached := by simp [RingCapacity.slot]
  headCached := by simp [RingCapacity.slot]
  freed_le := le_refl 0
  taken_le := le_refl 0
  seen_le := le_refl 0
  room := by simpa using capacity.size_pos
  written_le := le_refl 0
  slots i _ stored := by simp at stored
  producer := trivial
  consumer := trivial
  taken := rfl
  popped := rfl
  closed isClosed := by contradiction
  results := ⟨0, rfl, fun none => by contradiction⟩
  entry touched := by contradiction

theorem Consumer.le_emptied (consumer : Consumer α) (n : ℕ) : n ≤ consumer.emptied n := by
  cases consumer <;> simp

namespace Agrees

variable (holds : Agrees capacity state freed seen)
include holds

/-- A step that touches no member of the queue and writes no item. -/
theorem turn (phase : Producer α) (room : state.pushed.length + phase.reserved < freed + capacity.size)
    (nothing : phase.written = []) (unwritten : state.producer.written = [])
    (locals : ProducerAgrees capacity state.pushed.length state.queue.closed phase)
    (flag : state.queue.closed → phase.admitted = false) (still : phase.untouched → Unchanged capacity state) :
    Agrees capacity { state with producer := phase } freed seen :=
  { holds with
    room := room
    written_le := by rw [nothing]; exact Nat.zero_le _
    slots := by
      have slots := holds.slots
      rw [unwritten] at slots
      rw [nothing]
      exact slots
    producer := locals
    closed := flag
    entry := still }

/-- The producer takes over the real tail. -/
theorem refreshTail : Agrees capacity { state with queue := { state.queue with tailCached := state.queue.tail } }
    state.taken.length seen :=
  { holds with
    tailCached := holds.tail
    freed_le := le_refl _
    room := by
      have := holds.room
      have := holds.freed_le
      dsimp only
      omega }

/-- A slot that the producer writes holds no unread item. -/
theorem slot_ne {i more : ℕ} (more_lt : more < state.producer.reserved)
    (left : state.consumer.emptied state.taken.length ≤ i) (below : i < state.pushed.length + more) :
    capacity.slot i ≠ capacity.slot (state.pushed.length + more) := by
  intro same
  have := holds.freed_le
  have := holds.room
  have := state.consumer.le_emptied state.taken.length
  have := (capacity.slot_eq_iff (by omega) (by omega)).mp same
  omega

/-- The producer writes the next of its reserved slots. -/
theorem write (value : α) (phase : Producer α) (more : state.producer.written.length < state.producer.reserved)
    (one : phase.written = state.producer.written ++ [value]) (same : phase.reserved = state.producer.reserved)
    (locals : ProducerAgrees capacity state.pushed.length state.queue.closed phase)
    (inside : state.producer.admitted) (touches : phase.untouched = false) :
    Agrees capacity { state with
      queue := { state.queue with
        buffer := Function.update state.queue.buffer
          (capacity.slot (state.pushed.length + state.producer.written.length)) (some value) }
      producer := phase } freed seen :=
  { holds with
    room := by rw [same]; exact holds.room
    written_le := by
      rw [one, same, List.length_append, List.length_singleton]
      exact more
    slots := by
      intro i left stored
      rw [one, ← List.append_assoc, List.length_append, List.length_singleton, Nat.lt_succ_iff] at stored
      rw [one, ← List.append_assoc]
      dsimp only
      rcases Nat.lt_or_eq_of_le stored with before | last
      · rw [List.length_append] at before
        rw [Function.update_of_ne (holds.slot_ne more left before), List.getElem?_append_left (by simpa using before)]
        exact holds.slots i left (by simpa using before)
      · rw [List.length_append] at last
        rw [last, Function.update_self, List.getElem?_append_right (by simp)]
        simp
    producer := locals
    closed := fun isClosed => by
      rw [holds.closed isClosed] at inside
      contradiction
    entry := fun untouched => by
      rw [touches] at untouched
      contradiction }

/-- The producer publishes what it has written. -/
theorem publish (inside : state.producer.admitted) :
    Agrees capacity { state with
      queue := { state.queue with head := capacity.slot (state.pushed.length + state.producer.written.length) }
      producer := .idle
      pushed := state.pushed ++ state.producer.written } freed seen where
  head := by simp
  tail := holds.tail
  tailCached := holds.tailCached
  headCached := holds.headCached
  freed_le := holds.freed_le
  taken_le := holds.taken_le
  seen_le := by
    have := holds.seen_le
    rw [List.length_append]
    omega
  room := by
    have := holds.room
    have := holds.written_le
    rw [List.length_append]
    simp only [Producer.reserved]
    omega
  written_le := le_refl 0
  slots := by
    simp only [Producer.written, List.append_nil]
    exact holds.slots
  producer := trivial
  consumer := by
    have consumer := holds.consumer
    have := holds.taken_le
    have := holds.seen_le
    cases phase : state.consumer with
    | store t item =>
      rw [phase] at consumer
      obtain ⟨isTail, behind, isItem⟩ := consumer
      have within : state.taken.length < state.pushed.length := by omega
      refine ⟨isTail, behind, ?_⟩
      rw [isItem, List.getElem?_append_left within]
    | _ =>
      rw [phase] at consumer
      exact consumer
  taken := by
    rw [List.take_append_of_le_length (holds.taken_le.trans holds.seen_le)]
    exact holds.taken
  popped := holds.popped
  closed isClosed := rfl
  results := by
    obtain ⟨refused, isResults, quiet⟩ := holds.results
    refine ⟨refused, isResults, fun some => ?_⟩
    rw [holds.closed (quiet some).1] at inside
    contradiction
  entry untouched := by contradiction

/-- The producer sets the closed flag. -/
theorem shut (phase : state.producer = .close) :
    Agrees capacity { state with queue := { state.queue with closed := true }, producer := .idle } freed seen := by
  have room := holds.room
  have slots := holds.slots
  rw [phase] at room slots
  exact { holds with
    room := room
    written_le := le_refl 0
    slots := slots
    producer := trivial
    consumer := by
      have consumer := holds.consumer
      cases phase : state.consumer with
      | recheckHead t =>
        rw [phase] at consumer
        exact ⟨consumer.1, rfl⟩
      | _ =>
        rw [phase] at consumer
        exact consumer
    closed := fun _ => rfl
    results := by
      obtain ⟨refused, isResults, quiet⟩ := holds.results
      exact ⟨refused, isResults, fun some => ⟨rfl, (quiet some).2⟩⟩
    entry := fun touched => by contradiction }

/-- A step that takes no item. -/
theorem look (phase : Consumer α) (nothing : phase.held = []) (empty : state.consumer.held = [])
    (untaken : phase.emptied = id) (untouched : state.consumer.emptied = id)
    (locals : ConsumerAgrees capacity state.pushed state.taken.length seen state.queue.closed phase) :
    Agrees capacity { state with consumer := phase } freed seen :=
  { holds with
    slots := by
      have slots := holds.slots
      rw [untouched] at slots
      rw [untaken]
      exact slots
    consumer := locals
    popped := by
      rw [nothing, ← empty]
      exact holds.popped
    entry := by
      have entry := holds.entry
      unfold Unchanged at entry ⊢
      rw [untouched] at entry
      rw [untaken]
      exact entry }

/-- The consumer takes over the real head. -/
theorem refreshHead (phase : Consumer α) (nothing : phase.held = []) (empty : state.consumer.held = [])
    (untaken : phase.emptied = id) (untouched : state.consumer.emptied = id)
    (locals : ConsumerAgrees capacity state.pushed state.taken.length state.pushed.length state.queue.closed phase) :
    Agrees capacity { state with
      queue := { state.queue with headCached := state.queue.head }
      consumer := phase } freed state.pushed.length := by
  have idle := holds.look .idle rfl empty rfl untouched trivial
  have refreshed : Agrees capacity { state with
      queue := { state.queue with headCached := state.queue.head }, consumer := .idle } freed state.pushed.length :=
    { idle with
      headCached := holds.head
      taken_le := holds.taken_le.trans holds.seen_le
      seen_le := le_refl _
      consumer := trivial }
  exact refreshed.look phase nothing rfl untaken rfl locals

/-- The slot at the tail holds the next item. -/
theorem slot_tail (untouched : state.consumer.emptied = id) (behind : state.taken.length < seen) :
    state.queue.buffer (capacity.slot state.taken.length) = state.pushed[state.taken.length]? := by
  have within : state.taken.length < state.pushed.length := behind.trans_le holds.seen_le
  have slots := holds.slots state.taken.length
  rw [untouched, List.getElem?_append_left within, List.length_append] at slots
  apply slots (le_refl _)
  omega

/-- The consumer moves the next item out of its slot. -/
theorem read (behind : state.taken.length < seen) (empty : state.consumer.held = [])
    (untouched : state.consumer.emptied = id) :
    Agrees capacity { state with
      queue := { state.queue with buffer := Function.update state.queue.buffer (capacity.slot state.taken.length) none }
      consumer := .store (capacity.slot state.taken.length)
        (state.queue.buffer (capacity.slot state.taken.length)) } freed seen :=
  { holds with
    slots := by
      intro i left stored
      simp only [Consumer.emptied] at left
      have written_le := holds.written_le
      have := holds.freed_le
      have room := holds.room
      have slots := holds.slots i
      rw [untouched] at slots
      have short : i < state.pushed.length + state.producer.written.length := by
        rw [← List.length_append]
        exact stored
      have apart : capacity.slot i ≠ capacity.slot state.taken.length := by
        intro same
        have := (capacity.slot_eq_iff (by omega) (by omega)).mp same.symm
        omega
      dsimp only
      rw [Function.update_of_ne apart]
      exact slots ((Nat.le_succ _).trans left) stored
    consumer := ⟨rfl, behind, holds.slot_tail untouched behind⟩
    popped := by
      have popped := holds.popped
      rw [empty] at popped
      exact popped
    entry := by
      intro still
      have entry := holds.entry still
      unfold Unchanged at entry
      rw [untouched] at entry
      refine ⟨entry.1, entry.2.1, fun i left => entry.2.2 i ?_⟩
      exact (Nat.le_succ _).trans left }

/-- The consumer frees the slot. -/
theorem free {t : UInt64} {item : Option α} (phase : state.consumer = .store t item) :
    Agrees capacity { state with
      queue := { state.queue with tail := (t + 1) &&& capacity.mask }
      consumer := .call item
      taken := state.taken ++ [item] } freed seen := by
  have consumer := holds.consumer
  rw [phase] at consumer
  obtain ⟨rfl, behind, isItem⟩ := consumer
  have within : state.taken.length < state.pushed.length := behind.trans_le holds.seen_le
  have length : (state.taken ++ [item]).length = state.taken.length + 1 := by simp
  have slots := holds.slots
  have entry := holds.entry
  have popped := holds.popped
  unfold Unchanged at entry
  rw [phase] at slots entry popped
  exact { holds with
    tail := by
      rw [length]
      exact capacity.next_slot _
    freed_le := by
      rw [length]
      exact holds.freed_le.trans (Nat.le_succ _)
    taken_le := by
      rw [length]
      exact behind
    slots := by
      rw [length]
      exact slots
    consumer := trivial
    taken := by
      rw [length, List.take_add_one, List.map_append, ← holds.taken, isItem, List.getElem?_eq_getElem within]
      rfl
    popped := by
      simp only [Consumer.held, List.append_nil] at popped
      rw [popped]
      rfl
    entry := by
      unfold Unchanged
      rw [length]
      exact entry }

/-- The consumer hands the item over. -/
theorem call {item : Option α} (phase : state.consumer = .call item) :
    Agrees capacity { state with
      consumer := .idle
      popped := state.popped ++ [item]
      results := state.results ++ [true] } freed seen := by
  have slots := holds.slots
  have entry := holds.entry
  have popped := holds.popped
  unfold Unchanged at entry
  rw [phase] at slots entry popped
  exact { holds with
    slots := slots
    consumer := trivial
    popped := by
      rw [popped]
      simp only [Consumer.held, List.append_nil]
    results := by
      obtain ⟨refused, isResults, quiet⟩ := holds.results
      have none : refused = 0 := by
        by_contra some
        have all := (quiet (Nat.pos_of_ne_zero some)).2
        have := holds.taken_le.trans holds.seen_le
        rw [popped, List.length_append] at this
        simp only [Consumer.held, List.length_singleton] at this
        omega
      refine ⟨0, ?_, fun some => absurd some (lt_irrefl 0)⟩
      rw [isResults, none, List.length_append, List.length_singleton, List.replicate_succ']
      simp
    entry := entry }

/-- The consumer finds the queue closed and empty. -/
theorem refuse {t : UInt64} (phase : state.consumer = .recheckHead t) (isHead : t = state.queue.head) :
    Agrees capacity { state with
      queue := { state.queue with headCached := state.queue.head }
      consumer := .idle
      results := state.results ++ [false] } freed state.pushed.length := by
  have consumer := holds.consumer
  have popped := holds.popped
  have idle := holds.refreshHead .idle rfl (by rw [phase]; rfl) rfl (by rw [phase]; rfl) trivial
  rw [phase] at consumer popped
  simp only [Consumer.held, List.append_nil] at popped
  obtain ⟨isTail, isClosed⟩ := consumer
  have all : state.taken.length = state.pushed.length := by
    have := holds.freed_le
    have := holds.room
    rw [holds.head, isTail] at isHead
    exact (capacity.slot_eq_iff (holds.taken_le.trans holds.seen_le) (by omega)).mp isHead
  exact { idle with
    results := by
      obtain ⟨refused, isResults, _⟩ := holds.results
      refine ⟨refused + 1, ?_, fun _ => ⟨isClosed, ?_⟩⟩
      · rw [isResults, List.replicate_succ', List.append_assoc]
      · rw [← popped]
        exact all }

end Agrees

end BackTester.LockFreeQueue
