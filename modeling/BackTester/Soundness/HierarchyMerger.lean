import BackTester.Model.Common.BlockingQueue
import BackTester.Proofs.Ingestion.HierarchyMerger

/-! # What the hierarchical merger emits

The plan gives every queue one writer and one reader, which comes later in the plan. So the network
writes to each queue of the pool the merge of the two queues under it, and the files sorted stably
to the output queue.
-/

namespace BackTester.HierarchyMerger

open ProcessNetwork

variable {N : ℕ} {files : Fin N → List MarketDataEvent}

theorem planned_plan (sorted : ∀ i, (files i).SortedBy MarketDataEvent.tsRecv) : Planned files (plan N).2 (plan N).1 :=
  planned_rounds N (planned_files sorted)

theorem length_plan (N : ℕ) : (plan N).1.length ≤ 2 := by
  apply length_rounds
  rw [List.length_ofFn]

def contents (files : Fin N → List MarketDataEvent) : Channel N → List MarketDataEvent
  | .input queue => stream files (plan N).2 queue
  | .output => (List.ofFn files).flatten.sortBy MarketDataEvent.tsRecv

def reads : Thread N → Channel N → Prop
  | .producer _, _ => False
  | .worker k, channel => ∃ queue ∈ [((plan N).2.get k).q0, ((plan N).2.get k).q1], channel = .input queue
  | .last, channel => ∃ queue ∈ (plan N).1, channel = .input queue
  | .consumer, channel => channel = .output

def writes : Thread N → Channel N → Prop
  | .producer i, channel => channel = .input (.file i)
  | .worker k, channel => channel = .input (.pool k)
  | .last, channel => channel = .output
  | .consumer, _ => False

def rank : Thread N → ℕ
  | .producer _ => 0
  | .worker k => k + 1
  | .last => (plan N).2.length + 1
  | .consumer => (plan N).2.length + 2

namespace Planned

variable (holds : Planned files (plan N).2 (plan N).1)
include holds

theorem nodup : (inputsOf (plan N).2 ++ (plan N).1).Nodup := by
  rw [holds.once.nodup_iff, List.nodup_append]
  refine ⟨?_, ?_, ?_⟩
  · rw [List.nodup_ofFn]
    exact fun i j same => InputQueue.file.inj same
  · exact List.nodup_range.map fun i j same => InputQueue.pool.inj same
  · intro queue isFile other isPool
    obtain ⟨i, rfl⟩ := List.mem_ofFn.mp isFile
    obtain ⟨k, _, rfl⟩ := List.mem_map.mp isPool
    exact fun same => by contradiction

theorem apart (k : Fin (plan N).2.length) : ((plan N).2.get k).q0 ≠ ((plan N).2.get k).q1 := by
  have each := (List.nodup_flatMap.mp (List.nodup_append.mp holds.nodup).1).1 _ (List.get_mem (plan N).2 k)
  simpa using each

theorem not_left {k : Fin (plan N).2.length} {queue : InputQueue N}
    (isRead : queue ∈ [((plan N).2.get k).q0, ((plan N).2.get k).q1]) : queue ∉ (plan N).1 := by
  intro isLeft
  have isInput : queue ∈ inputsOf (plan N).2 := List.mem_flatMap.mpr ⟨_, List.get_mem (plan N).2 k, isRead⟩
  exact (List.nodup_append.mp holds.nodup).2.2 queue isInput queue isLeft rfl

theorem oneWorker {k j : Fin (plan N).2.length} {queue : InputQueue N}
    (mine : queue ∈ [((plan N).2.get k).q0, ((plan N).2.get k).q1])
    (yours : queue ∈ [((plan N).2.get j).q0, ((plan N).2.get j).q1]) : k = j := by
  have disjoint := List.pairwise_iff_get.mp (List.nodup_flatMap.mp (List.nodup_append.mp holds.nodup).1).2
  rcases lt_trichotomy k j with before | same | after
  · exact (disjoint k j before mine yours).elim
  · exact same
  · exact (disjoint j k after yours mine).elim

theorem oneReader (thread other : Thread N) (channel : Channel N) (mine : reads thread channel)
    (yours : reads other channel) :
    thread = other := by
  cases thread with
  | producer => exact mine.elim
  | worker k =>
    obtain ⟨queue, isMine, rfl⟩ := mine
    cases other with
    | producer => exact yours.elim
    | worker j =>
      obtain ⟨_, isYours, same⟩ := yours
      obtain rfl := Channel.input.inj same
      rw [holds.oneWorker isMine isYours]
    | last =>
      obtain ⟨_, isLeft, same⟩ := yours
      obtain rfl := Channel.input.inj same
      exact absurd isLeft (holds.not_left isMine)
    | consumer => contradiction
  | last =>
    obtain ⟨queue, isLeft, rfl⟩ := mine
    cases other with
    | producer => exact yours.elim
    | worker j =>
      obtain ⟨_, isYours, same⟩ := yours
      obtain rfl := Channel.input.inj same
      exact absurd isLeft (holds.not_left isYours)
    | last => rfl
    | consumer => contradiction
  | consumer =>
    obtain rfl : channel = .output := mine
    cases other with
    | producer => exact yours.elim
    | worker | last =>
      obtain ⟨_, _, same⟩ := yours
      contradiction
    | consumer => rfl

end Planned

theorem exists_writer (queue : InputQueue N) (below : queue.Below (plan N).2.length) :
    ∃ thread, writes thread (.input queue) ∧
    ∀ k, queue.Below k → rank thread < k + 1 := by
  cases queue with
  | file i => exact ⟨.producer i, rfl, fun k _ => Nat.succ_pos k⟩
  | pool j => exact ⟨.worker ⟨j, below⟩, rfl, fun k before => Nat.succ_lt_succ before⟩

theorem oneWriter (thread other : Thread N) (channel : Channel N) (mine : writes thread channel)
    (yours : writes other channel) :
    thread = other := by
  cases thread with
  | producer i =>
    obtain rfl : channel = .input (.file i) := mine
    cases other with
    | producer j =>
      obtain rfl := InputQueue.file.inj (Channel.input.inj yours)
      rfl
    | worker | last => cases yours
    | consumer => exact yours.elim
  | worker k =>
    obtain rfl : channel = .input (.pool k) := mine
    cases other with
    | worker j => rw [Fin.ext (InputQueue.pool.inj (Channel.input.inj yours))]
    | producer | last => cases yours
    | consumer => exact yours.elim
  | last =>
    obtain rfl : channel = .output := mine
    cases other with
    | last => rfl
    | producer | worker => cases yours
    | consumer => exact yours.elim
  | consumer => exact mine.elim

/-- The plan does not depend on what is in the files. -/
theorem planned_empty (N : ℕ) : Planned (fun _ : Fin N => []) (plan N).2 (plan N).1 :=
  planned_plan fun _ => List.Pairwise.nil

/-- A queue is filled before it is read. -/
theorem exists_lower (thread : Thread N) (channel : Channel N) (isReader : reads thread channel) :
    ∃ other, writes other channel ∧ rank other < rank thread := by
  have holds := planned_empty N
  cases thread with
  | producer => exact isReader.elim
  | worker k =>
    obtain ⟨queue, isIn, rfl⟩ := isReader
    have earlier := holds.earlier k _ (List.getElem?_eq_getElem k.isLt)
    have below : queue.Below k := by
      rcases List.mem_pair.mp isIn with rfl | rfl
      · exact earlier.1
      · exact earlier.2
    obtain ⟨writer, isWriter, isLower⟩ := exists_writer queue (below.mono k.isLt.le)
    exact ⟨writer, isWriter, isLower k below⟩
  | last =>
    obtain ⟨queue, isIn, rfl⟩ := isReader
    obtain ⟨writer, isWriter, isLower⟩ := exists_writer queue (holds.below queue isIn)
    exact ⟨writer, isWriter, isLower _ (holds.below queue isIn)⟩
  | consumer =>
    obtain rfl : channel = .output := isReader
    exact ⟨.last, rfl, Nat.lt_succ_self _⟩

section Alone

variable {content : Channel N → List MarketDataEvent}
  (isStream : ∀ queue, content (.input queue) = stream files (plan N).2 queue)
include isStream

theorem unwritten_eq_nil (channel : Channel N) (nobody : ∀ thread, ¬writes thread channel) : content channel = [] := by
  cases channel with
  | output => exact absurd rfl (nobody .last)
  | input queue =>
    cases queue with
    | file i => exact absurd rfl (nobody (.producer i))
    | pool k =>
      have beyond : (poolStreams files (plan N).2).length ≤ k := by
        rw [length_poolStreams]
        exact not_lt.mp fun within => nobody (.worker ⟨k, within⟩) rfl
      rw [isStream, stream, read, List.getElem?_eq_none beyond]
      rfl

theorem runs_producer (i : Fin N) : ∃ outputs steps, Act.Runs act (reads (.producer i)) (writes (.producer i))
    ((network files).start (.producer i)) content (fun _ => false) outputs steps .finished ∧
      ∀ channel, writes (.producer i) channel → outputs channel = content channel := by
  have run : Act.Runs act (reads (.producer i)) (writes (.producer i)) (.producing i (files i))
      content (fun _ => false) _ _ .finished :=
    .feed (Local.producing i) (fun _ _ => rfl) (by rfl) (by rfl) (fun _ => Iff.rfl) rfl (files i)
  refine ⟨_, _, run, ?_⟩
  rintro _ rfl
  exact (Function.update_self _ _ _).trans (isStream (.file i)).symm

theorem runs_worker (k : Fin (plan N).2.length) : ∃ outputs steps, Act.Runs act (reads (.worker k)) (writes (.worker k))
    ((network files).start (.worker k)) content (fun _ => false) outputs steps .finished ∧
      ∀ channel, writes (.worker k) channel → outputs channel = content channel := by
  have holds := planned_empty N
  have reading (queue : InputQueue N) (isIn : queue ∈ [((plan N).2.get k).q0, ((plan N).2.get k).q1]) :
      reads (.worker k) (.input queue) := ⟨queue, isIn, rfl⟩
  have own (channel : Channel N) : writes (.worker k) channel ↔ channel = .input (.pool k) := Iff.rfl
  obtain ⟨steps, run⟩ := runs_mergeTwo (holds.apart k) (reading _ List.mem_cons_self)
    (reading _ (List.mem_cons_of_mem _ List.mem_cons_self)) own (isStream _) (isStream _)
  refine ⟨_, steps, run, ?_⟩
  rintro _ rfl
  rw [Function.update_self, isStream]
  exact (stream_worker holds.earlier (List.getElem?_eq_getElem k.isLt)).symm

end Alone

theorem runs_consumer (content : Channel N → List MarketDataEvent) :
    ∃ outputs steps, Act.Runs act (reads .consumer) (writes .consumer)
    ((network files).start .consumer) content (fun _ => false) outputs steps (.consumed (content .output)) ∧
      ∀ channel, writes .consumer channel → outputs channel = content channel := by
  have run : Act.Runs act (reads (.consumer : Thread N)) (writes .consumer) (.consuming []) content (fun _ => false) _ _
      (.consumed (content .output)) :=
    .collect Channel.output Local.consuming Local.consumed (fun _ => rfl) (fun _ _ => rfl)
      (fun _ => rfl) (fun _ => rfl) (by rfl) (fun _ => id) []
  exact ⟨_, _, run, fun channel isOwn => isOwn.elim⟩

/-- What becomes of the streams that are left. -/
def mergeLast : List (List MarketDataEvent) → List MarketDataEvent
  | [] => []
  | [events] => events
  | events0 :: events1 :: _ => List.mergeBy MarketDataEvent.tsRecv events0 events1

/-- What goes into the output. -/
def emitted (files : Fin N → List MarketDataEvent) : List MarketDataEvent :=
  mergeLast ((plan N).1.map (stream files (plan N).2))

theorem runs_last {content : Channel N → List MarketDataEvent}
    (isStream : ∀ queue, content (.input queue) = stream files (plan N).2 queue)
    (isOutput : content .output = emitted files) : ∃ outputs steps, Act.Runs act (reads .last) (writes .last)
      ((network files).start .last) content (fun _ => false) outputs steps .finished ∧
        ∀ channel, writes .last channel → outputs channel = content channel := by
  have few := length_plan N
  have nodup := (List.nodup_append.mp (planned_empty N).nodup).2.1
  have own (channel : Channel N) : writes .last channel ↔ channel = .output := Iff.rfl
  have reading (queue : InputQueue N) (isLeft : queue ∈ (plan N).1) : reads .last (.input queue) := ⟨queue, isLeft, rfl⟩
  suffices ∃ steps, Act.Runs act (reads .last) (writes .last) (lastStart (plan N).1) content (fun _ => false)
      (Function.update (fun _ => []) .output (emitted files)) steps .finished by
    obtain ⟨steps, run⟩ := this
    refine ⟨_, steps, run, ?_⟩
    rintro _ rfl
    exact (Function.update_self _ _ _).trans isOutput.symm
  rw [emitted]
  generalize (plan N).1 = cur at few nodup reading
  match cur, few with
  | [], _ =>
    rw [List.map_nil, mergeLast, Function.update_eq_self]
    refine ⟨1, .close (by rfl) (by rfl) (.done rfl ?_)⟩
    rintro _ rfl
    exact Function.update_self _ _ _
  | [q], _ => exact runs_draining own (reading q List.mem_cons_self) (isStream q)
  | [q0, q1], _ =>
    have apart : q0 ≠ q1 := by
      simpa using nodup
    exact runs_mergeTwo apart (reading q0 List.mem_cons_self)
      (reading q1 (List.mem_cons_of_mem _ List.mem_cons_self)) own
      (isStream q0) (isStream q1)

/-- Of files that are sorted the stable sort goes into the output. -/
theorem emitted_of_sorted (sorted : ∀ i, (files i).SortedBy MarketDataEvent.tsRecv) :
    emitted files = (List.ofFn files).flatten.sortBy MarketDataEvent.tsRecv := by
  have few := length_plan N
  obtain ⟨parts, whole, same⟩ := (planned_plan sorted).sorts
  rw [emitted, same, ← whole]
  replace few : parts.length ≤ 2 := by
    rw [← List.length_map (List.sortBy MarketDataEvent.tsRecv), ← same, List.length_map]
    exact few
  match parts, few with
  | [], _ => rw [List.map_nil, mergeLast, List.flatten_nil, List.sortBy, List.mergeSort_nil]
  | [part], _ => rw [List.flatten_cons, List.flatten_nil, List.append_nil]; rfl
  | [part0, part1], _ =>
    rw [List.flatten_cons, List.flatten_cons, List.flatten_nil, List.append_nil, ← List.mergeBy_sortBy]
    rfl

/-- The threads on files that are sorted. -/
def solution (sorted : ∀ i, (files i).SortedBy MarketDataEvent.tsRecv) : (network files).Solution (contents files) where
  reads := reads
  writes := writes
  oneReader := (planned_plan sorted).oneReader
  oneWriter := oneWriter
  unwritten := unwritten_eq_nil fun _ => rfl
  rank := rank
  lower := exists_lower
  final
    | .producer _ => .finished
    | .worker _ => .finished
    | .last => .finished
    | .consumer => .consumed ((List.ofFn files).flatten.sortBy MarketDataEvent.tsRecv)
  runs thread := by
    cases thread with
    | producer i => exact runs_producer (fun _ => rfl) i
    | worker k => exact runs_worker (fun _ => rfl) k
    | last => exact runs_last (fun _ => rfl) (emitted_of_sorted sorted).symm
    | consumer => exact runs_consumer (contents files)

/-- Whatever the schedule, the merger emits the files sorted stably by time, and closes the output after them. -/
theorem delivers_sorted (Queue : Type*) [FifoQueue Queue MarketDataEvent] (files : Fin N → List MarketDataEvent)
    (sorted : ∀ i, (files i).SortedBy MarketDataEvent.tsRecv) :
    (network files).Delivers Queue .output ((List.ofFn files).flatten.sortBy MarketDataEvent.tsRecv) :=
  (solution sorted).delivers Queue ⟨.last, rfl⟩

/-- An odd file out, and one time that occurs in all three. -/
def threeFiles : Fin 3 → List MarketDataEvent
  | 0 => [{ tsRecv := 2, orderId := 1 }, { tsRecv := 5, orderId := 2 }]
  | 1 => [{ tsRecv := 2, orderId := 3 }]
  | 2 => [{ tsRecv := 1, orderId := 4 }, { tsRecv := 2, orderId := 5 }]

theorem delivers_sorted_threeFiles : (network threeFiles).Delivers (BlockingQueue MarketDataEvent) .output
    ((List.ofFn threeFiles).flatten.sortBy MarketDataEvent.tsRecv) :=
  delivers_sorted (BlockingQueue MarketDataEvent) threeFiles fun i => by
    unfold List.SortedBy
    fin_cases i <;> decide

end BackTester.HierarchyMerger
