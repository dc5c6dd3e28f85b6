import BackTester.Model.Main.Pipeline
import BackTester.Soundness.MergerAgreement

/-! # What reaches the dispatcher

A producer closes its queue before its last batch is flushed, and a batch is not flushed to a closed
queue. So the queue of a file is given the whole batches of its events, and the merger works on
these.
-/

namespace BackTester.Pipeline

open ProcessNetwork FlatMerger

variable {N : ℕ} {Heap : Type*} [PriorityQueue Heap (cmp (N := N))] {BatchSize : ℕ} {file : Fin N}
  {inputs : Channel N → List MarketDataEvent}

/-- The events up to the last full batch. -/
def wholeBatches (BatchSize : ℕ) (events : List MarketDataEvent) : List MarketDataEvent :=
  events.take (BatchSize * (events.length / BatchSize))

theorem wholeBatches_of_short {events : List MarketDataEvent} (short : events.length < BatchSize) :
    wholeBatches BatchSize events = [] := by
  rw [wholeBatches, Nat.div_eq_of_lt short, Nat.mul_zero, List.take_zero]

theorem wholeBatches_append {batch : List MarketDataEvent} (full : batch.length = BatchSize) (positive : 0 < BatchSize)
    (events : List MarketDataEvent) :
    wholeBatches BatchSize (batch ++ events) = batch ++ wholeBatches BatchSize events := by
  have oneMore : (batch ++ events).length / BatchSize = events.length / BatchSize + 1 := by
    rw [List.length_append, full, Nat.add_comm, Nat.add_div_right _ positive]
  rw [wholeBatches, oneMore, Nat.mul_succ, Nat.add_comm, ← full, List.take_length_add_append, full, wholeBatches]

theorem wholeBatches_eq_iff (events : List MarketDataEvent) :
    wholeBatches BatchSize events = events ↔ BatchSize ∣ events.length := by
  rw [wholeBatches, List.take_eq_self_iff]
  constructor
  · intro whole
    exact ⟨_, Nat.le_antisymm whole (Nat.mul_div_le _ _)⟩
  · intro divides
    rw [Nat.mul_div_cancel' divides]

/-- Run alone, a producer gives its queue the whole batches of what is in the batch and what is still handed over. -/
theorem runs_produce (events : List MarketDataEvent) (batcher : BatchPusher MarketDataEvent BatchSize)
    (short : batcher.batch.length < BatchSize) :
    ∃ steps, Act.Runs act (reader · = .producer file) (writer · = .producer file) (produce file events batcher) inputs
      (fun _ => false)
      (Function.update (fun _ => []) (.file file) (wholeBatches BatchSize (batcher.batch ++ events))) steps
      (.finished : Local N Heap) := by
  have own : writer (.file file) = .producer file := rfl
  induction events generalizing batcher with
  | nil =>
    rw [List.append_nil, wholeBatches_of_short short, Function.update_eq_self]
    have shut : ∀ channel, writer channel = .producer file →
        Function.update (fun _ => false) (.file file) true channel = true := by
      intro channel isOwn
      cases channel with
      | file i =>
        obtain rfl := Thread.producer.inj isOwn
        exact Function.update_self _ _ _
      | output => contradiction
    have finish : Act.Runs act (reader · = .producer file) (writer · = .producer file) (.finished : Local N Heap) inputs
        (Function.update (fun _ => false) (.file file) true) (fun _ => []) 0 .finished := .done rfl shut
    rw [produce, flush]
    split
    · refine ⟨2, .close rfl own (.isClosed rfl own ?_)⟩
      rw [Function.update_self]
      exact finish
    · exact ⟨1, .close rfl own finish⟩
  | cons e events ih =>
    have joined : batcher.batch ++ e :: events = (batcher.batch ++ [e]) ++ events := by
      rw [List.append_assoc, List.singleton_append]
    have fits : (batcher.batch ++ [e]).length ≤ BatchSize := by
      rw [List.length_append, List.length_singleton]
      exact short
    rw [joined, produce, push, dif_pos short]
    dsimp only
    split
    · next full =>
      have positive : 0 < BatchSize := Nat.zero_lt_of_lt short
      obtain ⟨steps, run⟩ := ih .empty positive
      have pushed : Act.Runs act (reader · = .producer file) (writer · = .producer file)
          (.pushing file (batcher.batch ++ [e]) (produce file events .empty)) inputs
            (fun _ => false) _ _ (.finished : Local N Heap) :=
        .pushBatch rfl own rfl run
      rw [Function.update_self, Function.update_idem] at pushed
      rw [flush, if_pos (Nat.lt_of_lt_of_le positive full), wholeBatches_append (Nat.le_antisymm fits full) positive]
      exact ⟨steps + 2, .isClosed rfl own pushed⟩
    · next room => exact ih ⟨batcher.batch ++ [e], fits⟩ (Nat.lt_of_not_le room)

theorem act_behind (state : FlatMerger.Local N Heap) : act (.behind state) = (FlatMerger.act state).map .behind := rfl

theorem oneReader (thread other : Thread N) (channel : Channel N) (mine : reader channel = thread)
    (yours : reader channel = other) :
    thread = other := mine.symm.trans yours

theorem oneWriter (thread other : Thread N) (channel : Channel N) (mine : writer channel = thread)
    (yours : writer channel = other) :
    thread = other := mine.symm.trans yours

theorem exists_lower (thread : Thread N) (channel : Channel N) (reads : reader channel = thread) :
    ∃ other, writer channel = other ∧ rank other < rank thread := by
  subst reads
  refine ⟨writer channel, rfl, ?_⟩
  cases channel with
  | file => exact Nat.zero_lt_one
  | output => exact Nat.one_lt_two

def final (emitted : List MarketDataEvent) : Thread N → Local N Heap
  | .producer _ => .finished
  | .merger => .behind .finished
  | .consumer => .behind (.consumed emitted)

/-- Run alone on whole batches, the merger emits `emitted`. -/
def Emits (Heap : Type*) [PriorityQueue Heap (cmp (N := N))] (events : Fin N → List MarketDataEvent)
    (emitted : List MarketDataEvent) : Prop :=
  ∃ steps, Act.Runs FlatMerger.act (reader · = .merger) (writer · = .merger)
    (.filling 0 (fun _ => {}) (PriorityQueue.empty : Heap))
    (contents (fun i => wholeBatches batchSize (events i)) emitted) (fun _ => false)
    (Function.update (fun _ => []) .output emitted) steps .finished

variable {events : Fin N → List MarketDataEvent} {emitted : List MarketDataEvent}

theorem runs_alone (emits : Emits Heap events emitted) (thread : Thread N) :
    ∃ outputs steps, Act.Runs act (reader · = thread) (writer · = thread) ((network Heap events).start thread)
      (contents (fun i => wholeBatches batchSize (events i)) emitted)
      (fun _ => false) outputs steps (final emitted thread) ∧
      ∀ channel, writer channel = thread →
      outputs channel = contents (fun i => wholeBatches batchSize (events i)) emitted channel := by
  cases thread with
  | producer i =>
    have positive : (BatchPusher.empty : BatchPusher MarketDataEvent batchSize).batch.length < batchSize := by decide
    obtain ⟨steps, run⟩ := @runs_produce N Heap _ batchSize i (contents _ emitted) (events i) .empty positive
    refine ⟨_, steps, run, fun channel isOwn => ?_⟩
    cases channel with
    | file j =>
      obtain rfl := Thread.producer.inj isOwn
      exact Function.update_self _ _ _
    | output => contradiction
  | merger =>
    obtain ⟨outputs, steps, run, agrees⟩ := (FlatMerger.solution Heap _ emitted emits).runs .merger
    exact ⟨outputs, steps, run.map Local.behind act_behind, agrees⟩
  | consumer =>
    obtain ⟨outputs, steps, run, agrees⟩ := (FlatMerger.solution Heap _ emitted emits).runs .consumer
    exact ⟨outputs, steps, run.map Local.behind act_behind, agrees⟩

theorem unwritten (channel : Channel N) (nobody : ∀ thread, ¬writer channel = thread) :
    contents (fun i => wholeBatches batchSize (events i)) emitted channel = [] :=
  absurd rfl (nobody (writer channel))

/-- The rest of the network follows the merger. -/
def solution (emits : Emits Heap events emitted) :
    (network Heap events).Solution (contents (fun i => wholeBatches batchSize (events i)) emitted) where
  reads thread channel := reader channel = thread
  writes thread channel := writer channel = thread
  oneReader := oneReader
  oneWriter := oneWriter
  unwritten := unwritten
  rank := rank
  lower := exists_lower
  final := final emitted
  runs := runs_alone emits

/-- What the events of all files are owed: a queue that is closed was given all events of its file
in order, and what the merger emits and the dispatcher applies has every event of every file once,
in the order of its file. -/
structure DeliversEvery {Queue : Type*} [FifoQueue Queue MarketDataEvent] (events : Fin N → List MarketDataEvent)
    (config : Config (Thread N) (Channel N) Queue MarketDataEvent (Local N Heap)) : Prop where
  handedOver : ∀ i, closed config (.file i) → config.sent (.file i) = events i
  emitted : closed config .output → Interleaves events (config.sent .output)
  applied : ∀ received, config.locals .consumer = .behind (.consumed received) → Interleaves events received

/-- Every schedule delivers every event just where the events of each file fill whole batches. -/
theorem deliversEvery_iff (Heap : Type*) [PriorityQueue Heap (cmp (N := N))] (Queue : Type*)
    [FifoQueue Queue MarketDataEvent] (events : Fin N → List MarketDataEvent) :
    (∀ config, ((network Heap events).system Queue).Reachable config → DeliversEvery events config) ↔
      ∀ i, batchSize ∣ (events i).length := by
  obtain ⟨out, merges, emits⟩ := exists_emitted Heap fun i => wholeBatches batchSize (events i)
  let whole := solution emits
  constructor
  · intro always i
    have delivers : (network Heap events).Delivers Queue (.file i) (wholeBatches batchSize (events i)) :=
      whole.delivers Queue ⟨.producer i, rfl⟩
    obtain ⟨config, reached, complete⟩ := delivers.exists_complete
    obtain ⟨isSent, isClosed⟩ := delivers.complete config reached complete
    exact (wholeBatches_eq_iff (events i)).mp (isSent.symm.trans ((always config reached).handedOver i isClosed))
  · intro divides config reached
    have same : (fun i => wholeBatches batchSize (events i)) = events := by
      funext i
      exact (wholeBatches_eq_iff (events i)).mpr (divides i)
    have interleaves := merges.interleaves
    rw [same] at interleaves
    obtain ⟨cost, holds⟩ := agrees_reachable whole reached
    constructor
    · intro i isClosed
      exact (holds.sent_of_closed isClosed).trans (congrFun same i)
    · intro isClosed
      rw [holds.sent_of_closed isClosed]
      exact interleaves
    · intro received isDone
      obtain ⟨_, run, _⟩ := holds.runs .consumer
      have isFinal := (run.of_done (by rw [isDone]; rfl)).2.2
      rw [isDone] at isFinal
      injection isFinal with isFinal
      injection isFinal with isFinal
      rw [isFinal]
      exact interleaves

/-- A file with one event: its producer closes the queue, and the event is lost. -/
theorem not_deliversEvery : ¬∀ (N : ℕ) (events : Fin N → List MarketDataEvent)
    (config : Config (Thread N) (Channel N) (BlockingQueue MarketDataEvent) MarketDataEvent
      (Local N (BinaryHeap (cmp (N := N))))),
    ((network (BinaryHeap (cmp (N := N))) events).system (BlockingQueue MarketDataEvent)).Reachable config →
      DeliversEvery events config := by
  intro always
  have reached :
      ((network (BinaryHeap (cmp (N := 1))) fun _ => [{}]).system (BlockingQueue MarketDataEvent)).Reachable _ :=
    TransitionSystem.reachable_ofMoves [Thread.producer 0] rfl
  have handedOver := (always 1 (fun _ => [{}]) _ reached).handedOver 0 rfl
  contradiction

end BackTester.Pipeline
