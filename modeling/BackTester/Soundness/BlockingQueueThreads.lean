import BackTester.Proofs.Common.Wakeups

/-! # The blocking queue is one queue

Whatever the threads, their calls and the interleaving, the calls answer as those of the queue whose
member functions are single steps, taken in an order that respects the order of calls and answers.
Every call ends, but for a pop that waits for an item.
-/

namespace BackTester.BlockingQueue

open AtomicObject

variable {α Thread : Type*} [DecidableEq Thread] {state after : Threads Thread α} {thread : Thread}

/-- The call leaves the queue as it is. -/
theorem step_answer (exclusive : Exclusive state) {call : Call α}
    (isTesting : state.phase thread = .testing call) (notice : Notice)
    {result : Result α} (applies : (object α).apply state.queue call = some (result, state.queue)) :
    Exclusive (goTo state thread (.unlocking notice result)) ∧
      ((object α).shared Thread).Answers (taken state) [] (taken (goTo state thread (.unlocking notice result))) := by
  have inside : (state.phase thread).holds = true := by rw [isTesting]; rfl
  have nothing : (state.phase thread).upcoming = [] := by rw [isTesting]; rfl
  have isCalled : (state.phase thread).status = .called call := by rw [isTesting]; rfl
  exact step_take exclusive inside nothing isCalled rfl rfl (by simpa [Phase.upcoming] using applies)

theorem step_test (exclusive : Exclusive state) {call : Call α} (isTesting : state.phase thread = .testing call) :
    Exclusive (test state thread call) ∧
      ((object α).shared Thread).Answers (taken state) [] (taken (test state thread call)) := by
  have inside : (state.phase thread).holds = true := by rw [isTesting]; rfl
  have nothing : (state.phase thread).upcoming = [] := by rw [isTesting]; rfl
  have isCalled : (state.phase thread).status = .called call := by rw [isTesting]; rfl
  cases call with
  | push value =>
    cases closed : state.queue.closed with
    | true =>
      have isTest : test state thread (.push value) = goTo state thread (.unlocking .nobody (.threw pushIsClosed)) := by
        simp [test, closed]
      rw [isTest]
      exact step_answer exclusive isTesting .nobody (by simp [object, pushImpl, closed, pushIsClosed])
    | false =>
      have isTest : test state thread (.push value) = goTo state thread (.pushing value) := by
        simp [test, closed]
      have applies : (object α).apply state.queue (.push value) =
          some (.returned, { state.queue with queue := state.queue.queue ++ [value] }) := by
        simp [object, pushImpl, closed]
      rw [isTest]
      exact step_take exclusive inside nothing isCalled rfl rfl applies
  | pushBatch items =>
    cases closed : state.queue.closed with
    | true =>
      have isTest : test state thread (.pushBatch items) =
          goTo state thread (.unlocking .nobody (.threw pushBatchIsClosed)) := by
        simp [test, closed]
      rw [isTest]
      exact step_answer exclusive isTesting .nobody (by simp [object, pushBatchImpl, closed, pushBatchIsClosed])
    | false =>
      have isTest : test state thread (.pushBatch items) = goTo state thread (.batching items) := by
        simp [test, closed]
      have applies : (object α).apply state.queue (.pushBatch items) =
          some (.returned, { state.queue with queue := state.queue.queue ++ items }) := by
        simp [object, pushBatchImpl, closed]
      rw [isTest]
      exact step_take exclusive inside nothing isCalled rfl rfl applies
  | pop =>
    cases isQueue : state.queue.queue with
    | cons item rest =>
      have isTest : test state thread .pop = goTo state thread .popping := by
        simp [test, isQueue]
      rw [isTest]
      exact step_inside exclusive inside rfl isCalled.symm (fun _ => by rw [isQueue]; exact List.cons_ne_nil _ _) rfl
        (by rw [nothing]; rfl)
    | nil =>
      cases closed : state.queue.closed with
      | true =>
        have isTest : test state thread .pop = goTo state thread (.unlocking .nobody .refused) := by
          simp [test, isQueue, closed]
        rw [isTest]
        exact step_answer exclusive isTesting .nobody (by simp [object, popImpl, isQueue, closed])
      | false =>
        have isTest : test state thread .pop = { goTo state thread .waiting with mutex := none } := by
          simp [test, isQueue, closed]
        rw [isTest]
        exact step_release exclusive inside nothing rfl isCalled.symm
  | close => exact step_take exclusive inside nothing isCalled rfl rfl (by simp [object, closeImpl, Phase.upcoming])
  | isClosed => exact step_answer exclusive isTesting .nobody rfl
  | empty => exact step_answer exclusive isTesting .nobody rfl
  | size => exact step_answer exclusive isTesting .nobody rfl

theorem step_run (exclusive : Exclusive state) (step : run state thread = some after) :
    Exclusive after ∧
      ((object α).shared Thread).Answers (taken state) (shown state (.run thread)).toList (taken after) := by
  unfold run at step
  unfold shown
  cases isPhase : state.phase thread with
  | idle | waiting =>
    rw [isPhase] at step
    contradiction
  | locking call =>
    simp only [isPhase] at step ⊢
    split at step
    · next free =>
      obtain rfl := Option.some.inj step
      exact step_acquire exclusive free (by rw [isPhase]; rfl)
    · contradiction
  | testing call =>
    simp only [isPhase, Option.some_inj] at step ⊢
    subst step
    exact step_test exclusive isPhase
  | pushing value =>
    simp only [isPhase, Option.some_inj] at step ⊢
    subst step
    exact step_inside exclusive (by rw [isPhase]; rfl) rfl (by rw [isPhase]; rfl) (fun isPopping =>
      by contradiction) rfl (by rw [isPhase]; exact List.append_nil _)
  | batching items =>
    cases items with
    | nil =>
      simp only [isPhase, Option.some_inj] at step ⊢
      subst step
      exact step_inside exclusive (by rw [isPhase]; rfl) rfl (by rw [isPhase]; rfl) (fun isPopping =>
        by contradiction) rfl (by rw [isPhase]; rfl)
    | cons item items =>
      simp only [isPhase, Option.some_inj] at step ⊢
      subst step
      exact step_inside exclusive (by rw [isPhase]; rfl) rfl (by rw [isPhase]; rfl) (fun isPopping =>
        by contradiction) rfl
        (by rw [isPhase]; exact List.append_assoc _ _ _)
  | popping =>
    have inside : (state.phase thread).holds = true := by rw [isPhase]; rfl
    cases isQueue : state.queue.queue with
    | nil => exact absurd isQueue (exclusive.popping thread isPhase)
    | cons item rest =>
      simp only [isPhase, isQueue, Option.some_inj] at step ⊢
      subst step
      exact step_take exclusive inside (by rw [isPhase]; rfl) (by rw [isPhase]; rfl) rfl rfl
        (by simp [object, popImpl, isQueue, Phase.upcoming])
  | unlocking notice result =>
    have inside : (state.phase thread).holds = true := by rw [isPhase]; rfl
    have nothing : (state.phase thread).upcoming = [] := by rw [isPhase]; rfl
    cases notice with
    | nobody =>
      simp only [isPhase, Option.some_inj] at step ⊢
      subst step
      exact step_release exclusive inside nothing rfl (by rw [isPhase]; rfl)
    | one | all =>
      simp only [isPhase, Option.some_inj] at step ⊢
      subst step
      exact step_release exclusive inside nothing rfl (by rw [isPhase]; rfl)
  | notifying notice result =>
    cases notice with
    | nobody =>
      simp only [isPhase, Option.some_inj] at step ⊢
      subst step
      have outside : (state.phase thread).holds = false := by rw [isPhase]; rfl
      exact ⟨exclusive_turn exclusive outside rfl, answers_none (taken_turn exclusive outside (by rw [isPhase]; rfl))⟩
    | one =>
      simp only [isPhase] at step
      contradiction
    | all =>
      simp only [isPhase, Option.some_inj] at step ⊢
      subst step
      have own : ({ state with phase := fun other => (state.phase other).woken } : Threads Thread α).phase thread =
          .notifying .all result :=
        congrArg Phase.woken isPhase
      have outside :
          (({ state with phase := fun other => (state.phase other).woken } : Threads Thread α).phase thread).holds =
            false := by
        rw [own]; rfl
      exact ⟨exclusive_turn exclusive.wakeAll outside rfl,
        answers_none ((taken_turn exclusive.wakeAll outside (by rw [own]; rfl)).trans taken_wakeAll)⟩
  | waking =>
    simp only [isPhase] at step ⊢
    split at step
    · next free =>
      obtain rfl := Option.some.inj step
      exact step_acquire exclusive free (by rw [isPhase]; rfl)
    · contradiction
  | returning result =>
    simp only [isPhase, Option.some_inj] at step ⊢
    subst step
    have outside : (state.phase thread).holds = false := by rw [isPhase]; rfl
    have returns : ((object α).shared Thread).step (taken state) (some (.ret thread result))
        { taken state with status := Function.update (taken state).status thread .idle } :=
      .ret (congrArg Phase.status isPhase)
    refine ⟨exclusive.turn (by rw [isPhase]; rfl) (fun isPopping => by contradiction), ?_⟩
    rw [exclusive.taken_outside outside]
    exact .of_step returns

variable [Fintype Thread]

theorem step_notifyOne (exclusive : Exclusive state) {woken : Option Thread}
    (step : notifyOne state thread woken = some after) :
    Exclusive after ∧ ((object α).shared Thread).Answers (taken state) [] (taken after) := by
  unfold notifyOne at step
  split at step
  · next result isPhase =>
    have outside : (state.phase thread).holds = false := by rw [isPhase]; rfl
    cases woken with
    | none =>
      simp only at step
      split at step
      · obtain rfl := Option.some.inj step
        exact ⟨exclusive_turn exclusive outside rfl, answers_none (taken_turn exclusive outside (by rw [isPhase]; rfl))⟩
      · contradiction
    | some sleeper =>
      simp only at step
      split at step
      · next sleeps =>
        obtain rfl := Option.some.inj step
        have isWaiting : state.phase sleeper = .waiting := by
          cases isSleeper : state.phase sleeper <;> simp [isSleeper, Phase.isWaiting] at sleeps ⊢
        have asleep : (state.phase sleeper).holds = false := by rw [isWaiting]; rfl
        have apart : thread ≠ sleeper := by
          rintro rfl
          rw [isPhase] at isWaiting
          contradiction
        have still : (goTo state sleeper .waking).phase thread = .notifying .one result := by
          rw [goTo_phase, Function.update_of_ne apart, isPhase]
        have exclusive' : Exclusive (goTo state sleeper .waking) := exclusive_turn exclusive asleep rfl
        have woke : taken (goTo state sleeper .waking) = taken state :=
          taken_turn exclusive asleep (by rw [isWaiting]; rfl)
        have outside' : ((goTo state sleeper .waking).phase thread).holds = false := by rw [still]; rfl
        exact ⟨exclusive_turn exclusive' outside' rfl,
          answers_none ((taken_turn exclusive' outside' (by rw [still]; rfl)).trans woke)⟩
      · contradiction
  · contradiction

theorem step_move (exclusive : Exclusive state) {choice : Move Thread α} (step : move state choice = some after) :
    Exclusive after ∧ ((object α).shared Thread).Answers (taken state) (shown state choice).toList (taken after) := by
  cases choice with
  | enter thread call =>
    cases isPhase : state.phase thread <;> simp only [move, isPhase, reduceCtorEq, Option.some_inj] at step
    subst step
    have outside : (state.phase thread).holds = false := by rw [isPhase]; rfl
    have calls : ((object α).shared Thread).step (taken state) (some (.call thread call))
        { taken state with status := Function.update (taken state).status thread (.called call) } :=
      .call call (congrArg Phase.status isPhase)
    refine ⟨exclusive_turn exclusive outside rfl, ?_⟩
    rw [exclusive.taken_outside outside]
    exact .of_step calls
  | run thread => exact step_run exclusive step
  | notifyOne thread woken => exact step_notifyOne exclusive step
  | wake thread =>
    cases isPhase : state.phase thread <;> simp only [move, isPhase, reduceCtorEq, Option.some_inj] at step
    subst step
    have outside : (state.phase thread).holds = false := by rw [isPhase]; rfl
    exact ⟨exclusive_turn exclusive outside rfl, answers_none (taken_turn exclusive outside (by rw [isPhase]; rfl))⟩

/-- Whatever is seen of the queue and its threads is explained by its calls, taken one after the other. -/
theorem threads_linearizable (Thread α : Type*) [DecidableEq Thread] [Fintype Thread] :
    (object α).Linearizable (threads Thread α) := by
  have simulates : (threads Thread α).Simulates ((object α).shared Thread)
      fun state other => Exclusive state ∧ other = taken state := by
    constructor
    · rintro _ rfl
      exact ⟨_, rfl, exclusive_start, by simp [object, taken, upcoming, Phase.status]⟩
    · rintro state event after _ ⟨exclusive, rfl⟩ ⟨choice, step, rfl⟩
      obtain ⟨exclusive', answers⟩ := step_move exclusive step
      exact ⟨_, answers, exclusive', rfl⟩
  exact linearizable_of_simulates simulates

/-- No wakeup is lost: the calls under way end by themselves, in as many steps as the bound says,
and where none can go on the only ones left are pops that sleep while there is no item and the queue
is open. -/
theorem settles
    (reached : (TransitionSystem.ofMoves ({} : Threads Thread α)
      fun state choice => move state choice).Reachable state) :
    ((∀ choice : Move Thread α, choice.isOwn = true → move state choice = none) → Settled state) ∧
      ∀ (moves : List (Move Thread α)) (after : Threads Thread α), (∀ choice ∈ moves, choice.isOwn = true) →
        moves.foldlM (fun state choice => move state choice) state = some after →
        moves.length ≤ Fintype.card Thread * (5 * Fintype.card Thread + 6) +
          ∑ thread, (state.phase thread).batch.length := by
  have holds : Exclusive state ∧ Served state := by
    refine reached.invariant (P := fun state => Exclusive state ∧ Served state) ?_ ?_
    · rintro _ rfl
      exact ⟨exclusive_start, served_start⟩
    · rintro before after ⟨exclusive, served⟩ ⟨choice, step⟩
      exact ⟨(step_move exclusive step).1, served_move served step⟩
  refine ⟨settled_of_stuck holds.1 holds.2, fun moves after allOwn run => ?_⟩
  have isShort := TransitionSystem.length_le_of_cost (fun _ _ _ own step => cost_move own step) moves allOwn run
  have bound := @cost_le α Thread state _
  omega

/-- One thread sleeps in a pop, and the other has pushed an item and has not notified yet. -/
theorem settles_sleeper :
    ∃ state : Threads Bool ℕ, state.phase false = .waiting ∧ state.phase true = .notifying .one .returned ∧
    ((∀ choice : Move Bool ℕ, choice.isOwn = true → move state choice = none) → Settled state) ∧
      ∀ (moves : List (Move Bool ℕ)) (after : Threads Bool ℕ), (∀ choice ∈ moves, choice.isOwn = true) →
        moves.foldlM (fun state choice => move state choice) state = some after →
        moves.length ≤ Fintype.card Bool * (5 * Fintype.card Bool + 6) + ∑ thread, (state.phase thread).batch.length :=
  ⟨_, by rfl, by rfl, settles (TransitionSystem.reachable_ofMoves
    [.enter false .pop, .run false, .run false, .enter true (.push 7), .run true, .run true, .run true, .run true] rfl)⟩

end BackTester.BlockingQueue
