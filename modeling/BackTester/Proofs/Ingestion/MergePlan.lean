import BackTester.Model.Ingestion.HierarchyMerger
import BackTester.ToMathlib.StableSort

/-! # The plan of the merges

Every step of a round replaces two neighbouring queues by the one that they are merged into. It
keeps that every queue is to be read once, by a worker that was added after the queue was filled,
and that what will be in the queues left over are stable sorts of consecutive stretches of the
files.
-/

namespace BackTester.HierarchyMerger

variable {N : ℕ} {files : Fin N → List MarketDataEvent} {workers : List (Worker N)} {cur front : List (InputQueue N)}
  {queue q0 q1 : InputQueue N} {k : ℕ}

/-- A queue of a file, or one that a worker before number `k` fills. -/
def InputQueue.Below (k : ℕ) : InputQueue N → Prop
  | .file _ => True
  | .pool j => j < k

/-- What will be in a queue when the queues of the pool are given `pools`. -/
def read (files : Fin N → List MarketDataEvent) (pools : List (List MarketDataEvent)) :
    InputQueue N → List MarketDataEvent
  | .file i => files i
  | .pool k => pools[k]?.getD []

/-- What will be in the queues of the pool. -/
def poolStreams (files : Fin N → List MarketDataEvent) (workers : List (Worker N)) : List (List MarketDataEvent) :=
  workers.foldl
    (fun pools worker =>
      pools ++ [List.mergeBy MarketDataEvent.tsRecv (read files pools worker.q0) (read files pools worker.q1)])
    []

/-- What will be in a queue. -/
def stream (files : Fin N → List MarketDataEvent) (workers : List (Worker N)) (queue : InputQueue N) :
    List MarketDataEvent :=
  read files (poolStreams files workers) queue

def inputsOf (workers : List (Worker N)) : List (InputQueue N) :=
  workers.flatMap fun worker => [worker.q0, worker.q1]

theorem InputQueue.Below.mono (below : queue.Below k) {n : ℕ} (le : k ≤ n) : queue.Below n := by
  cases queue with
  | file => trivial
  | pool j => exact Nat.lt_of_lt_of_le below le

theorem poolStreams_append (workers : List (Worker N)) (worker : Worker N) :
    poolStreams files (workers ++ [worker]) = poolStreams files workers ++
      [List.mergeBy MarketDataEvent.tsRecv (stream files workers worker.q0) (stream files workers worker.q1)] := by
  rw [poolStreams, List.foldl_append]
  rfl

@[simp] theorem length_poolStreams (files : Fin N → List MarketDataEvent) (workers : List (Worker N)) :
    (poolStreams files workers).length = workers.length := by
  induction workers using List.reverseRecOn with
  | nil => rfl
  | append_singleton workers worker ih => rw [poolStreams_append, List.length_append, List.length_append, ih]; rfl

/-- A worker that is added changes nothing in the queues that there were. -/
theorem stream_append_of_below (below : queue.Below workers.length) (more : List (Worker N)) :
    stream files (workers ++ more) queue = stream files workers queue := by
  induction more using List.reverseRecOn with
  | nil => rw [List.append_nil]
  | append_singleton more worker ih =>
    rw [← ih, ← List.append_assoc, stream, stream, poolStreams_append]
    cases queue with
    | file => rfl
    | pool j =>
      have within : j < (poolStreams files (workers ++ more)).length := by
        rw [length_poolStreams, List.length_append]
        exact Nat.lt_add_right _ below
      rw [read, read, List.getElem?_append_left within]

/-- The queue of a worker. -/
theorem stream_pool (workers : List (Worker N)) (worker : Worker N) :
    stream files (workers ++ [worker]) (.pool workers.length) =
      List.mergeBy MarketDataEvent.tsRecv (stream files workers worker.q0) (stream files workers worker.q1) := by
  rw [stream, poolStreams_append, read, ← length_poolStreams files workers, List.getElem?_concat_length]
  rfl

/-- What will be in the queue of a worker, when all workers read what was filled before them. -/
theorem stream_worker {worker : Worker N}
    (earlier : ∀ (k : ℕ) (worker : Worker N), workers[k]? = some worker → worker.q0.Below k ∧ worker.q1.Below k)
    (isWorker : workers[k]? = some worker) : stream files workers (.pool k) =
      List.mergeBy MarketDataEvent.tsRecv (stream files workers worker.q0) (stream files workers worker.q1) := by
  obtain ⟨within, rfl⟩ := List.getElem?_eq_some_iff.mp isWorker
  obtain ⟨below0, below1⟩ := earlier k _ isWorker
  have length : (workers.take k).length = k := List.length_take_of_le within.le
  have split : workers = (workers.take k ++ [workers[k]]) ++ workers.drop (k + 1) := by
    rw [List.take_append_getElem, List.take_append_drop]
  have kept (queue : InputQueue N) (below : queue.Below k) :
      stream files workers queue = stream files (workers.take k) queue := by
    conv_lhs => rw [← List.take_append_drop k workers]
    exact stream_append_of_below (by rwa [length]) _
  have own : stream files workers (.pool k) = stream files (workers.take k ++ [workers[k]]) (.pool k) := by
    conv_lhs => rw [split]
    apply stream_append_of_below
    rw [List.length_append, length]
    exact Nat.lt_succ_self k
  have filled := @stream_pool N files (workers.take k) workers[k]
  rw [length] at filled
  rw [own, filled, kept _ below0, kept _ below1]

/-- Where the loops over the queues stand with the queues `cur` left. -/
structure Planned (files : Fin N → List MarketDataEvent) (workers : List (Worker N))
    (cur : List (InputQueue N)) : Prop where
  below : ∀ queue ∈ cur, queue.Below workers.length
  earlier : ∀ (k : ℕ) (worker : Worker N), workers[k]? = some worker → worker.q0.Below k ∧ worker.q1.Below k
  /-- Every queue has been given to one reader or is left. -/
  once : (inputsOf workers ++ cur).Perm (List.ofFn .file ++ (List.range workers.length).map .pool)
  merges : ∀ (k : ℕ) (worker : Worker N), workers[k]? = some worker → stream files workers (.pool k) =
    List.mergeBy MarketDataEvent.tsRecv (stream files workers worker.q0) (stream files workers worker.q1)
  sorts : ∃ parts : List (List MarketDataEvent), parts.flatten = (List.ofFn files).flatten ∧
    cur.map (stream files workers) = parts.map (List.sortBy MarketDataEvent.tsRecv)

theorem planned_files (sorted : ∀ i, (files i).SortedBy MarketDataEvent.tsRecv) :
    Planned files [] (List.ofFn .file) where
  below queue isIn := by
    obtain ⟨i, rfl⟩ := List.mem_ofFn.mp isIn
    trivial
  earlier k worker isWorker := by contradiction
  once := by
    rw [List.length_nil, List.range_zero, List.map_nil, List.append_nil]
    exact List.Perm.refl _
  merges k worker isWorker := by contradiction
  sorts := by
    refine ⟨List.ofFn files, rfl, ?_⟩
    rw [List.map_ofFn, List.map_ofFn]
    congr 1
    funext i
    exact (sorted i).sortBy_eq.symm

/-- Two neighbours are replaced by the queue that they are merged into. -/
theorem Planned.pair (holds : Planned files workers (front ++ q0 :: q1 :: cur)) :
    Planned files (workers ++ [⟨q0, q1⟩]) (front ++ .pool workers.length :: cur) := by
  have below0 : q0.Below workers.length := holds.below q0 (by simp)
  have below1 : q1.Below workers.length := holds.below q1 (by simp)
  have length : (workers ++ [(⟨q0, q1⟩ : Worker N)]).length = workers.length + 1 := by simp
  have kept (queue : InputQueue N) (isIn : queue.Below workers.length) :
      stream files (workers ++ [⟨q0, q1⟩]) queue = stream files workers queue := stream_append_of_below isIn _
  have earlier (k : ℕ) (worker : Worker N) (isWorker : (workers ++ [⟨q0, q1⟩])[k]? = some worker) :
      worker.q0.Below k ∧ worker.q1.Below k := by
    rcases Nat.lt_trichotomy k workers.length with old | rfl | beyond
    · rw [List.getElem?_append_left old] at isWorker
      exact holds.earlier k worker isWorker
    · rw [List.getElem?_concat_length, Option.some_inj] at isWorker
      subst isWorker
      exact ⟨below0, below1⟩
    · rw [List.getElem?_eq_none (by omega)] at isWorker
      contradiction
  refine ⟨?_, earlier, ?_, fun _ _ => stream_worker earlier, ?_⟩
  · intro queue isIn
    rw [length]
    rw [List.mem_append, List.mem_cons] at isIn
    rcases isIn with old | rfl | old
    · exact (holds.below queue (List.mem_append_left _ old)).mono (Nat.le_succ _)
    · exact Nat.lt_succ_self _
    · apply (holds.below queue _).mono (Nat.le_succ _)
      simp [old]
  · rw [List.perm_iff_count]
    intro queue
    have once := holds.once.count_eq queue
    simp only [inputsOf, List.flatMap_append, List.flatMap_cons, List.flatMap_nil, List.append_nil, List.count_append,
      List.count_cons, List.count_nil, length, List.range_succ, List.map_append, List.map_cons, List.map_nil] at once ⊢
    omega
  · obtain ⟨parts, whole, same⟩ := holds.sorts
    rw [List.map_append, eq_comm, List.map_eq_append_iff] at same
    obtain ⟨parts, others, rfl, isFront, same⟩ := same
    rw [List.map_cons, List.map_cons, List.map_eq_cons_iff] at same
    obtain ⟨p0, others, rfl, is0, same⟩ := same
    rw [List.map_eq_cons_iff] at same
    obtain ⟨p1, others, rfl, is1, isCur⟩ := same
    refine ⟨parts ++ (p0 ++ p1) :: others, ?_, ?_⟩
    · rw [← whole]
      simp
    · rw [List.map_append, List.map_append, List.map_cons, List.map_cons, isFront, stream_pool, ← is0, ← is1,
        List.mergeBy_sortBy, isCur]
      congr 1
      · apply List.map_congr_left
        intro queue isIn
        exact kept queue (holds.below queue (List.mem_append_left _ isIn))
      · congr 1
        apply List.map_congr_left
        intro queue isIn
        exact kept queue (holds.below queue (by simp [isIn]))

/-- A round keeps the plan, whatever stands before the queues that it has not come to. -/
theorem Planned.pairUp (holds : Planned files workers (front ++ cur)) :
    Planned files (HierarchyMerger.pairUp workers cur).2 (front ++ (HierarchyMerger.pairUp workers cur).1) := by
  induction workers, cur using HierarchyMerger.pairUp.induct generalizing front with
  | case1 workers q0 q1 cur ih =>
    have next : Planned files (workers ++ [⟨q0, q1⟩]) ((front ++ [.pool workers.length]) ++ cur) := by
      rw [List.append_assoc, List.singleton_append]
      exact holds.pair
    have rest := ih next
    rw [List.append_assoc, List.singleton_append] at rest
    exact rest
  | case2 workers q => exact holds
  | case3 workers => exact holds

theorem length_pairUp (workers : List (Worker N)) (cur : List (InputQueue N)) :
    (pairUp workers cur).1.length = (cur.length + 1) / 2 := by
  induction workers, cur using pairUp.induct with
  | case1 workers q0 q1 cur ih =>
    simp only [pairUp, List.length_cons, ih]
    omega
  | case2 workers q => simp [pairUp]
  | case3 workers => simp [pairUp]

theorem planned_rounds (fuel : ℕ) (holds : Planned files workers cur) :
    Planned files (rounds fuel cur workers).2 (rounds fuel cur workers).1 := by
  induction fuel generalizing cur workers with
  | zero => exact holds
  | succ fuel ih =>
    rw [rounds]
    split
    · exact ih (Planned.pairUp (List.nil_append cur ▸ holds))
    · exact holds

/-- The rounds end because there are at most two queues left, and one at least if there was one. -/
theorem length_rounds (fuel : ℕ) (cur : List (InputQueue N)) (workers : List (Worker N)) (enough : cur.length ≤ fuel) :
    (rounds fuel cur workers).1.length ≤ 2 := by
  induction fuel generalizing cur workers with
  | zero =>
    change cur.length ≤ 2
    omega
  | succ fuel ih =>
    rw [rounds]
    split
    · apply ih
      rw [length_pairUp]
      omega
    · next few => exact not_lt.mp few

/-- More rounds than there are queues change nothing. -/
theorem rounds_of_enough (fuel : ℕ) (cur : List (InputQueue N)) (workers : List (Worker N))
    (enough : cur.length ≤ fuel) (more : ℕ) :
    rounds (fuel + more) cur workers = rounds fuel cur workers := by
  induction fuel generalizing cur workers with
  | zero =>
    cases more with
    | zero => rfl
    | succ more =>
      rw [Nat.zero_add, rounds, rounds, if_neg (by omega)]
  | succ fuel ih =>
    rw [Nat.add_right_comm, rounds, rounds]
    split
    · apply ih
      rw [length_pairUp]
      omega
    · rfl

theorem length_rounds_pos (fuel : ℕ) (cur : List (InputQueue N)) (workers : List (Worker N)) (some : 0 < cur.length) :
    0 < (rounds fuel cur workers).1.length := by
  induction fuel generalizing cur workers with
  | zero => exact some
  | succ fuel ih =>
    rw [rounds]
    split
    · apply ih
      rw [length_pairUp]
      omega
    · exact some

end BackTester.HierarchyMerger
