import BackTester.Model.Common.BlockingQueue
import BackTester.Proofs.Ingestion.FlatMerger

/-! # What the flat merger emits

Run alone, the merger emits a merge of the files. It is all the network writes to the output queue,
whatever the schedule.
-/

namespace BackTester.FlatMerger

open ProcessNetwork

variable {N : ℕ} {Heap : Type*} [PriorityQueue Heap (cmp (N := N))]

/-- The complete contents of the queues. -/
def contents (files : Fin N → List MarketDataEvent) (emitted : List MarketDataEvent) : Channel N → List MarketDataEvent
  | .file i => files i
  | .output => emitted

def rank : Thread N → ℕ
  | .producer _ => 0
  | .merger => 1
  | .consumer => 2

/-- If the merger, run alone, emits `emitted`, the rest of the network follows it. -/
def solution (Heap : Type*) [PriorityQueue Heap (cmp (N := N))] (files : Fin N → List MarketDataEvent)
    (emitted : List MarketDataEvent) (emits : ∃ steps, Act.Runs act (reader · = .merger) (writer · = .merger)
      (.filling 0 (fun _ => {}) (PriorityQueue.empty : Heap)) (contents files emitted)
      (fun _ => false) (Function.update (fun _ => []) .output emitted) steps .finished) :
    (network Heap files).Solution (contents files emitted) where
  reads thread channel := reader channel = thread
  writes thread channel := writer channel = thread
  oneReader _ _ _ mine yours := mine.symm.trans yours
  oneWriter _ _ _ mine yours := mine.symm.trans yours
  unwritten channel nobody := absurd rfl (nobody (writer channel))
  rank := rank
  lower := by
    rintro _ channel rfl
    refine ⟨writer channel, rfl, ?_⟩
    cases channel with
    | file => exact Nat.zero_lt_one
    | output => exact Nat.one_lt_two
  final
    | .producer _ => .finished
    | .merger => .finished
    | .consumer => .consumed emitted
  runs thread := by
    cases thread with
    | producer i =>
      have own (channel : Channel N) : writer channel = .producer i ↔ channel = .file i := by
        cases channel <;> simp [writer]
      have run : Act.Runs act (reader · = .producer i) (writer · = .producer i)
          (.producing i (files i)) (contents files emitted) (fun _ => false) _ _ (.finished : Local N Heap) :=
        .feed (Local.producing i) (fun _ _ => rfl) (by rfl) (by rfl) own rfl (files i)
      refine ⟨_, _, run, fun channel isOwn => ?_⟩
      obtain rfl := (own channel).mp isOwn
      exact Function.update_self _ _ _
    | merger =>
      obtain ⟨steps, run⟩ := emits
      refine ⟨_, steps, run, ?_⟩
      intro channel isOwn
      cases channel with
      | file => contradiction
      | output => exact Function.update_self _ _ _
    | consumer =>
      have silent (channel : Channel N) : writer channel ≠ .consumer := by
        cases channel <;> exact fun same => by contradiction
      have run : Act.Runs act (reader · = .consumer) (writer · = .consumer) (.consuming []) (contents files emitted)
          (fun _ => false) _ _ (.consumed emitted : Local N Heap) :=
        .collect .output Local.consuming Local.consumed (fun _ => rfl) (fun _ _ => rfl)
          (fun _ => rfl) (fun _ => rfl) (by rfl) silent []
      exact ⟨_, _, run, fun channel isOwn => absurd isOwn (silent channel)⟩

/-- Run alone, the merger emits a merge of the files. -/
theorem exists_emitted (Heap : Type*) [PriorityQueue Heap (cmp (N := N))] (files : Fin N → List MarketDataEvent) :
    ∃ emitted, Merges MarketDataEvent.tsRecv files emitted ∧ ∃ steps,
      Act.Runs act (reader · = .merger) (writer · = .merger)
        (.filling 0 (fun _ => {}) (PriorityQueue.empty : Heap)) (contents files emitted)
        (fun _ => false) (Function.update (fun _ => []) .output emitted) steps .finished := by
  obtain ⟨emitted, steps, run, merges⟩ := runs_filling (inStep_start Heap (contents files [])) (Nat.zero_le N)
  refine ⟨emitted, merges, steps, run.congr ?_ fun _ _ => rfl⟩
  intro channel isReader
  cases channel with
  | file => rfl
  | output => contradiction

/-- Whatever the schedule, the merger emits one and the same interleaving of the files, sorted if the files are. -/
theorem delivers_interleaving (Heap : Type*) [PriorityQueue Heap (cmp (N := N))] (Queue : Type*)
    [FifoQueue Queue MarketDataEvent] (files : Fin N → List MarketDataEvent) :
    ∃ emitted, (network Heap files).Delivers Queue .output emitted ∧ Interleaves files emitted ∧
      ((∀ i, (files i).SortedBy MarketDataEvent.tsRecv) → emitted.SortedBy MarketDataEvent.tsRecv) := by
  obtain ⟨emitted, merges, emits⟩ := exists_emitted Heap files
  exact ⟨emitted, (solution Heap files emitted emits).delivers Queue ⟨.merger, rfl⟩,
    merges.interleaves, merges.sortedBy⟩

end BackTester.FlatMerger
