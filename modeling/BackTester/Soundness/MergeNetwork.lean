import BackTester.Soundness.HierarchyMerger

/-! # One reader and one writer for every queue

The rounds of the hierarchical merger end with one queue or two. In the network that they build,
whatever is in the files and whatever the schedule, each queue is popped by one thread, and pushed
to and closed by one thread that pushes nothing after it. So the queues may be such that allow a
single producer and a single consumer.
-/

namespace BackTester.HierarchyMerger

open ProcessNetwork

variable {N : ℕ} {files : Fin N → List MarketDataEvent} {Queue : Type*} [FifoQueue Queue MarketDataEvent]
  {thread : Thread N} {channel : Channel N} {queue a b : InputQueue N} {out : Channel N}
  {config : Config (Thread N) (Channel N) Queue MarketDataEvent (Local N)}

/-- What goes through the queues. -/
def flows (files : Fin N → List MarketDataEvent) : Channel N → List MarketDataEvent
  | .input queue => stream files (plan N).2 queue
  | .output => emitted files

def final (files : Fin N → List MarketDataEvent) : Thread N → Local N
  | .consumer => .consumed (emitted files)
  | _ => .finished

theorem runs_alone (files : Fin N → List MarketDataEvent) (thread : Thread N) : ∃ outputs steps,
    Act.Runs act (reads thread) (writes thread) ((network files).start thread) (flows files)
      (fun _ => false) outputs steps
      (final files thread) ∧ ∀ channel, writes thread channel → outputs channel = flows files channel := by
  cases thread with
  | producer i => exact runs_producer (fun _ => rfl) i
  | worker k => exact runs_worker (fun _ => rfl) k
  | last => exact runs_last (fun _ => rfl) rfl
  | consumer => exact runs_consumer (flows files)

theorem flows_eq_nil (channel : Channel N) (nobody : ∀ thread, ¬writes thread channel) : flows files channel = [] :=
  unwritten_eq_nil (fun _ => rfl) channel nobody

def flowSolution (files : Fin N → List MarketDataEvent) : (network files).Solution (flows files) where
  reads := reads
  writes := writes
  oneReader := (planned_empty N).oneReader
  oneWriter := oneWriter
  unwritten := flows_eq_nil
  rank := rank
  lower := exists_lower
  final := final files
  runs := runs_alone files

/-- In some run the thread comes to pop the queue. -/
def Pops (Queue : Type*) [FifoQueue Queue MarketDataEvent] (thread : Thread N) (channel : Channel N) : Prop :=
  ∃ (files : Fin N → List MarketDataEvent) (config : Config (Thread N) (Channel N) Queue MarketDataEvent (Local N)),
    ((network files).system Queue).Reachable config ∧ ∃ next, act (config.locals thread) = .pop channel next

/-- In some run the thread comes to push to the queue. -/
def Pushes (Queue : Type*) [FifoQueue Queue MarketDataEvent] (thread : Thread N) (channel : Channel N) : Prop :=
  ∃ (files : Fin N → List MarketDataEvent) (config : Config (Thread N) (Channel N) Queue MarketDataEvent (Local N)),
    ((network files).system Queue).Reachable config ∧
    ∃ value next, act (config.locals thread) = .push channel value next

/-- In some run the thread comes to close the queue. -/
def Closes (Queue : Type*) [FifoQueue Queue MarketDataEvent] (thread : Thread N) (channel : Channel N) : Prop :=
  ∃ (files : Fin N → List MarketDataEvent) (config : Config (Thread N) (Channel N) Queue MarketDataEvent (Local N)),
    ((network files).system Queue).Reachable config ∧ ∃ next, act (config.locals thread) = .close channel next

theorem own (reached : ((network files).system Queue).Reachable config) (thread : Thread N) :
    (act (config.locals thread)).Own (reads thread) (writes thread) (closed config) := by
  obtain ⟨cost, holds⟩ := agrees_reachable (flowSolution files) reached
  exact holds.own thread

theorem reads_of_pops (pops : Pops Queue thread channel) : reads thread channel := by
  obtain ⟨files, config, reached, next, isPop⟩ := pops
  have own := own reached thread
  rw [isPop] at own
  exact own

theorem writes_of_pushes (pushes : Pushes Queue thread channel) : writes thread channel := by
  obtain ⟨files, config, reached, value, next, isPush⟩ := pushes
  have own := own reached thread
  rw [isPush] at own
  exact own.1

theorem writes_of_closes (closes : Closes Queue thread channel) : writes thread channel := by
  obtain ⟨files, config, reached, next, isClose⟩ := closes
  have own := own reached thread
  rw [isClose] at own
  exact own

/-- Some run takes all threads to their end, with the flows sent and their queues closed. -/
theorem exists_end (Queue : Type*) [FifoQueue Queue MarketDataEvent] (files : Fin N → List MarketDataEvent) :
    ∃ config : Config (Thread N) (Channel N) Queue MarketDataEvent (Local N),
      ((network files).system Queue).Reachable config ∧
      (∀ thread, config.locals thread = final files thread) ∧
      ∀ channel, (∃ thread, writes thread channel) → config.sent channel = flows files channel := by
  have delivers (channel : Channel N) (own : ∃ thread, writes thread channel) := (flowSolution files).delivers Queue own
  obtain ⟨config, reached, complete⟩ := (delivers .output ⟨.last, rfl⟩).exists_complete
  obtain ⟨cost, holds⟩ := agrees_reachable (flowSolution files) reached
  exact ⟨config, reached, holds.locals_of_complete complete, fun channel own =>
    ((delivers channel own).complete config reached complete).1⟩

/-- A thread whose start is in a set and whose end is not takes a step out of it. -/
theorem exists_leaving {P : Local N → Prop} (files : Fin N → List MarketDataEvent)
    (starts : P ((network files).start thread))
    (ends : ¬P (final files thread)) : ∃ before after : Config (Thread N) (Channel N) Queue MarketDataEvent (Local N),
      ((network files).system Queue).Reachable before ∧ ((network files).system Queue).Reachable after ∧
        (act (before.locals thread)).Next (after.locals thread) ∧ P (before.locals thread) ∧
        ¬P (after.locals thread) := by
  obtain ⟨config, reached, ended, _⟩ := exists_end Queue files
  have outside : ¬P (config.locals thread) := by rwa [ended]
  obtain ⟨before, after, isReached, ⟨mover, step⟩, isIn, isOut⟩ := @TransitionSystem.Reachable.exists_leaving _ _ _
    (fun config => P (config.locals thread)) reached (by rintro _ rfl; exact starts) outside
  obtain ⟨goesOn, others, _⟩ := effect_of_step step
  have same : thread = mover := by
    by_contra apart
    rw [others thread apart] at isOut
    exact isOut isIn
  subst same
  exact ⟨before, after, isReached, isReached.step ⟨thread, step⟩, goesOn, isIn, isOut⟩

/-- A merge pops both of its queues. -/
theorem pops_of_mergeTwo (starts : ∀ files : Fin N → List MarketDataEvent, (network files).start thread = .popA a b out)
    (ends : ∀ files, final files thread = .finished) : Pops Queue thread (.input a) ∧ Pops Queue thread (.input b) := by
  obtain ⟨before, after, _, reached, goesOn, isIn, _⟩ :=
    @exists_leaving N Queue _ thread (· = .popA a b out) (fun _ => []) (starts _)
    (by rw [ends]; nofun)
  rw [isIn] at goesOn
  obtain ⟨ea, isNext⟩ := goesOn
  exact ⟨⟨fun _ => [], _, .of_initial rfl, _, congrArg act (starts _)⟩,
    ⟨fun _ => [], after, reached, _, congrArg act isNext⟩⟩

/-- Only a thread that has just closed a queue is finished. -/
theorem close_of_finished {state : Local N} (goesOn : (act state).Next .finished) :
    ∃ channel, act state = .close channel .finished := by
  revert goesOn
  fun_cases act state with
  | case2 | case9 | case14 =>
    -- a thread that closes its queue is finished
    intro _
    exact ⟨_, rfl⟩
  | case3 | case4 | case10 | case11 =>
    rintro ⟨_, same⟩
    contradiction
  | case12 | case15 =>
    rintro ⟨value, same⟩
    cases value <;> contradiction
  | _ =>
    intro goesOn
    contradiction

theorem act_ne_pushBatch (state : Local N) (channel : Channel N) (values : List MarketDataEvent) (next : Local N) :
    act state ≠ .pushBatch channel values next := by
  fun_cases act state <;> nofun

section Owner

variable {party : Thread N} (isWriter : writes party channel)
include isWriter

theorem pushes_iff {some : Fin N → List MarketDataEvent} (flows : flows some channel ≠ []) :
    Pushes Queue thread channel ↔ thread = party := by
  constructor
  · intro pushes
    exact oneWriter thread party channel (writes_of_pushes pushes) isWriter
  · rintro rfl
    obtain ⟨config, reached, _, isSent⟩ := exists_end Queue some
    have outside : ¬config.sent channel = [] := by rwa [isSent channel ⟨thread, isWriter⟩]
    obtain ⟨before, after, isReached, ⟨mover, step⟩, none, more⟩ := @TransitionSystem.Reachable.exists_leaving _ _ _
      (fun config => config.sent channel = []) reached (by rintro _ rfl; rfl) outside
    obtain ⟨_, _, effect⟩ := effect_of_step step
    rcases effect channel with same | ⟨value, next, isPush⟩ | ⟨values, next, isBatch⟩
    · exact absurd (same.trans none) more
    · have pushes : Pushes Queue mover channel := ⟨some, before, isReached, value, next, isPush⟩
      rwa [oneWriter thread mover channel isWriter (writes_of_pushes pushes)]
    · exact absurd isBatch (act_ne_pushBatch _ _ _ _)

theorem closes_iff (only : ∀ other, writes party other → other = channel)
    (starts : ∀ files : Fin N → List MarketDataEvent, (network files).start party ≠ .finished)
    (ends : ∀ files, final files party = .finished) : Closes Queue thread channel ↔ thread = party := by
  constructor
  · intro closes
    exact oneWriter thread party channel (writes_of_closes closes) isWriter
  · rintro rfl
    obtain ⟨before, after, reached, _, goesOn, _, isOut⟩ :=
      @exists_leaving N Queue _ thread (· ≠ .finished) (fun _ => [])
      (starts _) (by rw [ends]; exact fun working => working rfl)
    rw [not_not.mp isOut] at goesOn
    obtain ⟨other, isClose⟩ := close_of_finished goesOn
    have closes : Closes Queue thread other := ⟨_, before, reached, _, isClose⟩
    rwa [only other (writes_of_closes closes)] at closes

end Owner

/-- Files that are not empty fill every queue. -/
theorem stream_ne_nil (some : ∀ i, files i ≠ []) (below : queue.Below (plan N).2.length) :
    stream files (plan N).2 queue ≠ [] := by
  cases queue with
  | file i => exact some i
  | pool k =>
    induction k using Nat.strong_induction_on with
    | _ k ih =>
      have within : k < (plan N).2.length := below
      have earlier := (planned_empty N).earlier
      have isWorker := List.getElem?_eq_getElem within
      have first : stream files (plan N).2 (plan N).2[k].q0 ≠ [] := by
        have before := (earlier k _ isWorker).1
        cases isQueue : (plan N).2[k].q0 with
        | file i => exact some i
        | pool j =>
          rw [isQueue] at before
          have before : j < k := before
          exact ih j before (before.trans within)
      rw [stream_worker earlier isWorker]
      intro none
      have length := congrArg List.length none
      rw [List.mergeBy, List.length_merge, List.length_nil] at length
      exact first (List.length_eq_zero_iff.mp (Nat.eq_zero_of_add_eq_zero_right length))

/-- What is left after the rounds is popped last. -/
theorem pops_last (isLeft : queue ∈ (plan N).1) : Pops Queue .last (.input queue) := by
  have few := length_plan N
  have starts (files : Fin N → List MarketDataEvent) : (network files).start .last = lastStart (plan N).1 := rfl
  generalize (plan N).1 = cur at few isLeft starts
  match cur, few with
  | [q], _ =>
    obtain rfl := List.mem_singleton.mp isLeft
    exact ⟨fun _ => [], _, .of_initial rfl, _, congrArg act (starts fun _ => [])⟩
  | [q0, q1], _ =>
    obtain ⟨pops0, pops1⟩ : Pops Queue (.last : Thread N) (.input q0) ∧ Pops Queue .last (.input q1) :=
      pops_of_mergeTwo starts fun _ => rfl
    rcases List.mem_pair.mp isLeft with rfl | rfl
    · exact pops0
    · exact pops1

theorem exists_popper (queue : InputQueue N) (below : queue.Below (plan N).2.length) :
    ∃ party : Thread N, (party = .last ∨ ∃ k, party = .worker k) ∧
    ∀ thread, Pops Queue thread (.input queue) ↔ thread = party := by
  have holds := planned_empty N
  have isIn : queue ∈ inputsOf (plan N).2 ++ (plan N).1 := by
    rw [holds.once.mem_iff, List.mem_append]
    cases queue with
    | file i => exact .inl (List.mem_ofFn.mpr ⟨i, rfl⟩)
    | pool k => exact .inr (List.mem_map_of_mem (List.mem_range.mpr below))
  have onlyOne {party : Thread N} (isReader : reads party (.input queue))
      (pops : Pops Queue party (.input queue)) (thread : Thread N) :
      Pops Queue thread (.input queue) ↔ thread = party :=
    ⟨fun other => holds.oneReader thread party _ (reads_of_pops other) isReader, fun same => same ▸ pops⟩
  rcases List.mem_append.mp isIn with isInput | isLeft
  · obtain ⟨worker, isWorker, isIn⟩ := List.mem_flatMap.mp isInput
    obtain ⟨k, rfl⟩ := List.get_of_mem isWorker
    obtain ⟨pops0, pops1⟩ : Pops Queue (.worker k) (.input ((plan N).2.get k).q0) ∧
        Pops Queue (.worker k) (.input ((plan N).2.get k).q1) :=
      pops_of_mergeTwo (fun _ => rfl) fun _ => rfl
    refine ⟨.worker k, .inr ⟨k, rfl⟩, onlyOne ⟨queue, isIn, rfl⟩ ?_⟩
    rcases List.mem_pair.mp isIn with rfl | rfl
    · exact pops0
    · exact pops1
  · exact ⟨.last, .inl rfl, onlyOne ⟨queue, isLeft, rfl⟩ (pops_last isLeft)⟩

/-- The number of threads that merge two queues. -/
def merges (N : ℕ) : ℕ := (plan N).2.length + if (plan N).1.length = 2 then 1 else 0

theorem length_inputsOf (workers : List (Worker N)) : (inputsOf workers).length = 2 * workers.length := by
  simp [inputsOf, List.length_flatMap, Nat.mul_comm]

theorem length_plan_pos (positive : 1 ≤ N) : 1 ≤ (plan N).1.length :=
  length_rounds_pos N _ _ (by rwa [List.length_ofFn])

/-- Each merge makes one queue of two. -/
theorem merges_eq (positive : 1 ≤ N) : merges N = N - 1 := by
  have length := (planned_empty N).once.length_eq
  rw [List.length_append, List.length_append, length_inputsOf, List.length_ofFn,
    List.length_map, List.length_range] at length
  have few := length_plan N
  have some := length_plan_pos positive
  unfold merges
  split <;> omega

theorem emitted_ne_nil (positive : 1 ≤ N) (some : ∀ i, files i ≠ []) : emitted files ≠ [] := by
  have few := length_plan N
  have left := length_plan_pos positive
  have filled (queue : InputQueue N) (isLeft : queue ∈ (plan N).1) : stream files (plan N).2 queue ≠ [] :=
    stream_ne_nil some ((planned_empty N).below queue isLeft)
  unfold emitted
  generalize (plan N).1 = cur at few left filled
  match cur, few with
  | [q], _ => exact filled q List.mem_cons_self
  | [q0, q1], _ =>
    intro none
    have length := congrArg List.length none
    rw [List.map_cons, List.map_cons, mergeLast, List.mergeBy, List.length_merge, List.length_nil] at length
    exact filled q0 List.mem_cons_self (List.length_eq_zero_iff.mp (Nat.eq_zero_of_add_eq_zero_right length))

theorem last_ne_finished (files : Fin N → List MarketDataEvent) : (network files).start .last ≠ .finished := by
  have few := length_plan N
  change lastStart (plan N).1 ≠ .finished
  generalize (plan N).1 = cur at few
  match cur, few with
  | [], _ | [_], _ | [_, _], _ => nofun

/-- What the queues of the network may rely on, on every kind of queue. -/
structure SinglyOwned (Queue : Type*) [FifoQueue Queue MarketDataEvent] (N : ℕ) : Prop where
  /-- The loop over the rounds comes to its end, and leaves one queue or two. -/
  ends : (∀ fuel, N ≤ fuel → rounds fuel (List.ofFn InputQueue.file) [] = plan N) ∧
    1 ≤ (plan N).1.length ∧ (plan N).1.length ≤ 2
  merges : merges N = N - 1
  popped : ∀ queue : InputQueue N, queue.Below (plan N).2.length →
    ∃ party : Thread N, (party = .last ∨ ∃ k, party = .worker k) ∧
    ∀ thread, Pops Queue thread (.input queue) ↔ thread = party
  pool : ∀ (k : Fin (plan N).2.length) (thread : Thread N),
    (Pushes Queue thread (.input (.pool k)) ↔ thread = .worker k) ∧
    (Closes Queue thread (.input (.pool k)) ↔ thread = .worker k)
  output : ∀ thread : Thread N, (Pushes Queue thread .output ↔ thread = .last) ∧
    (Closes Queue thread .output ↔ thread = .last)
  /-- Nothing is pushed to a queue that is closed. -/
  opened : ∀ (files : Fin N →
    List MarketDataEvent) (config : Config (Thread N) (Channel N) Queue MarketDataEvent (Local N)),
    ((network files).system Queue).Reachable config → ∀ thread channel value next,
      act (config.locals thread) = .push channel value next → closed config channel = false
  /-- Every run ends with all queues closed, and none gets stuck. -/
  delivers : ∀ (files : Fin N → List MarketDataEvent) (thread : Thread N) (channel : Channel N), writes thread channel →
    (network files).Delivers Queue channel (flows files channel)

/-- In the network on any number of files every queue has one thread that pops it and one that
pushes to it and closes it. -/
theorem singlyOwned (Queue : Type*) [FifoQueue Queue MarketDataEvent] (N : ℕ) (positive : 1 ≤ N) :
    SinglyOwned Queue N where
  ends := by
    refine ⟨fun fuel enough => ?_, length_plan_pos positive, length_plan N⟩
    obtain ⟨more, rfl⟩ := Nat.exists_eq_add_of_le enough
    exact rounds_of_enough N _ _ (List.length_ofFn).le more
  merges := merges_eq positive
  popped := exists_popper
  pool k thread := by
    have filled : flows (fun _ : Fin N => [{}]) (.input (.pool k)) ≠ [] :=
      stream_ne_nil (fun _ => List.cons_ne_nil _ _) (show InputQueue.Below _ (.pool k) from k.isLt)
    have isWriter : writes (.worker k) (.input (.pool k)) := rfl
    exact ⟨pushes_iff isWriter filled, closes_iff isWriter (fun _ => id) (fun _ => nofun) fun _ => rfl⟩
  output thread := by
    have filled : flows (fun _ : Fin N => [{}]) .output ≠ [] := emitted_ne_nil positive fun _ => List.cons_ne_nil _ _
    have isWriter : writes (.last : Thread N) .output := rfl
    exact ⟨pushes_iff isWriter filled, closes_iff isWriter (fun _ => id) last_ne_finished fun _ => rfl⟩
  opened files config reached thread channel value next isPush := by
    have own := own reached thread
    rw [isPush] at own
    exact own.2
  delivers files thread channel isWriter := (flowSolution files).delivers Queue ⟨thread, isWriter⟩

theorem singlyOwned_five : SinglyOwned (BlockingQueue MarketDataEvent) 5 := singlyOwned _ 5 (by decide)

end BackTester.HierarchyMerger
