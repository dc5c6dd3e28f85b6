import BackTester.Model.OrderBook.MapOrderBook
import BackTester.Proofs.OrderBook.ShardedOrderBookRouter
import BackTester.ToMathlib.RunCost

/-! # Every call of the sharded router returns

No snapshot waits for a promise that nobody fulfils, and `close` waits for no worker that sleeps.
Where no thread can go on, the calling thread is in no call, and every worker has dealt with all
that its queue was given and sleeps, or has ended.
-/

namespace BackTester.ShardedOrderBookRouter

variable {BookType : Type} {NumShards : ℕ} {state after : State BookType NumShards} {shard i : Fin NumShards}

def Caller.cost (NumShards : ℕ) : Caller → ℕ
  | .idle | .threw _ => 0
  | .reading shard | .joining shard => NumShards - shard + 1
  | .waiting shard | .closing shard => NumShards - shard + NumShards + 2
  | .syncing shard => 3 * (NumShards - shard) + 2 * NumShards + 3

def Worker.cost : Worker NumShards → ℕ
  | .popping => 1
  | .visiting _ => 2
  | .finished => 0

/-- A worker pops an item and visits it. -/
def shardCost (state : State BookType NumShards) (i : Fin NumShards) : ℕ :=
  (state.workers i).cost + 2 * (state.router.queues i).queue.length

def cost (state : State BookType NumShards) : ℕ := state.caller.cost NumShards + ∑ i, shardCost state i

theorem Caller.cost_le (caller : Caller) : caller.cost NumShards ≤ 5 * NumShards + 3 := by
  cases caller <;> simp only [cost] <;> omega

theorem cost_le : cost state ≤ 7 * NumShards + 3 + 2 * ∑ i, (state.router.queues i).queue.length := by
  have shards : ∑ i, shardCost state i ≤ ∑ i, (2 + 2 * (state.router.queues i).queue.length) := by
    refine Finset.sum_le_sum fun i _ => ?_
    unfold shardCost
    cases state.workers i <;> simp only [Worker.cost] <;> omega
  rw [Finset.sum_add_distrib, Finset.sum_const, Finset.card_univ, Fintype.card_fin,
    smul_eq_mul, ← Finset.mul_sum] at shards
  have := @Caller.cost_le NumShards state.caller
  unfold cost
  omega

/-- Only the worker of one shard has gone on. -/
theorem cost_lt_of_shard (same : after.caller = state.caller) (others : ∀ j ≠ i, shardCost after j = shardCost state j)
    (lower : shardCost after i < shardCost state i) : cost after < cost state := by
  have sum := Fintype.sum_add_of_differ i others
  unfold cost
  rw [same]
  omega

/-- A pop is paid for by the item, or by the end of the worker. -/
theorem cost_pop {queue rest : BlockingQueue (ShardItem NumShards)} {item : Option (ShardItem NumShards)}
    (pops : queue.popImpl = some (item, rest)) :
    (item.elim Worker.finished Worker.visiting).cost + 2 * rest.queue.length < 1 + 2 * queue.queue.length := by
  unfold BlockingQueue.popImpl at pops
  cases isQueue : queue.queue with
  | cons first others =>
    rw [isQueue] at pops
    obtain ⟨rfl, rfl⟩ := Prod.mk.inj (Option.some.inj pops)
    simp only [Option.elim_some, Worker.cost, List.length_cons]
    omega
  | nil =>
    rw [isQueue] at pops
    simp only [Option.ite_none_right_eq_some, Option.some_inj, Prod.mk.injEq] at pops
    obtain ⟨_, rfl, rfl⟩ := pops
    simp [Worker.cost, isQueue]

theorem cost_work [OrderBook BookType] (step : work state shard = some after) : cost after < cost state := by
  unfold work at step
  cases isWorker : state.workers shard with
  | finished =>
    simp only [isWorker] at step
    contradiction
  | popping =>
    simp only [isWorker] at step
    obtain ⟨⟨item, queue⟩, pops, rfl⟩ := Option.map_eq_some_iff.mp step
    refine @cost_lt_of_shard _ _ state _ shard rfl (fun j apart => by simp [shardCost, Function.update_of_ne apart]) ?_
    simpa [shardCost, isWorker, Worker.cost] using cost_pop pops
  | visiting item =>
    simp only [isWorker] at step
    cases item <;> obtain rfl := Option.some.inj step <;>
      exact @cost_lt_of_shard _ _ state _ shard rfl (fun j apart => by simp [shardCost, Function.update_of_ne apart])
        (by simp [shardCost, isWorker, Worker.cost])

/-- A push costs two steps. -/
theorem cost_pushedTo (caller : Caller) (item : ShardItem NumShards) :
    cost { pushedTo state shard item with caller := caller } = caller.cost NumShards + ∑ i, shardCost state i + 2 := by
  have sum : ∑ j, shardCost (pushedTo state shard item) j + shardCost state shard =
      ∑ j, shardCost state j + shardCost (pushedTo state shard item) shard :=
    Fintype.sum_add_of_differ shard fun j apart => by simp [shardCost, pushedTo, Function.update_of_ne apart]
  have more : shardCost (pushedTo state shard item) shard = shardCost state shard + 2 := by
    simp only [shardCost, pushedTo, Function.update_self, List.length_append, List.length_singleton]
    omega
  change caller.cost NumShards + ∑ j, shardCost (pushedTo state shard item) j = _
  omega

theorem cost_caller {caller : Caller} (same : ∀ i, shardCost after i = shardCost state i)
    (isCaller : after.caller = caller)
    (lower : caller.cost NumShards < state.caller.cost NumShards) : cost after < cost state := by
  have sum : ∑ i, shardCost after i = ∑ i, shardCost state i := Finset.sum_congr rfl fun i _ => same i
  unfold cost
  rw [isCaller, sum]
  omega

theorem cost_call (step : call state = some after) : cost after < cost state := by
  have turn {other : Caller} (lower : other.cost NumShards < state.caller.cost NumShards) :
      cost { state with caller := other } < cost state :=
    cost_caller (fun _ => rfl) rfl lower
  unfold call at step
  cases isCaller : state.caller with
  | idle | threw =>
    simp only [isCaller] at step
    contradiction
  | syncing next =>
    simp only [isCaller] at step
    split at step
    · next inside =>
      cases closed : (state.router.queues ⟨next, inside⟩).closed with
      | false =>
        rw [push_of_open closed] at step
        obtain rfl := Option.some.inj step
        rw [cost_pushedTo, cost, isCaller]
        simp only [Caller.cost]
        omega
      | true =>
        rw [push_of_closed closed] at step
        obtain rfl := Option.some.inj step
        exact turn (by rw [isCaller]; simp only [Caller.cost]; omega)
    · obtain rfl := Option.some.inj step
      exact turn (by rw [isCaller]; simp only [Caller.cost]; omega)
  | waiting next =>
    simp only [isCaller] at step
    split at step
    · split at step
      · obtain rfl := Option.some.inj step
        exact turn (by rw [isCaller]; simp only [Caller.cost]; omega)
      · contradiction
    · obtain rfl := Option.some.inj step
      exact turn (by rw [isCaller]; simp only [Caller.cost]; omega)
  | reading next =>
    simp only [isCaller] at step
    split at step <;> obtain rfl := Option.some.inj step <;>
      exact turn (by rw [isCaller]; simp only [Caller.cost]; omega)
  | closing next =>
    simp only [isCaller] at step
    split at step
    · next inside =>
      obtain rfl := Option.some.inj step
      refine cost_caller (fun i => ?_) rfl ?_
      · rcases eq_or_ne i ⟨next, inside⟩ with rfl | apart
        · simp [shardCost, BlockingQueue.closeImpl]
        · simp [shardCost, Function.update_of_ne apart]
      · rw [isCaller]
        simp only [Caller.cost]
        omega
    · obtain rfl := Option.some.inj step
      exact turn (by rw [isCaller]; simp only [Caller.cost]; omega)
  | joining next =>
    simp only [isCaller] at step
    split at step
    · split at step
      · obtain rfl := Option.some.inj step
        exact turn (by rw [isCaller]; simp only [Caller.cost]; omega)
      · contradiction
    · obtain rfl := Option.some.inj step
      exact turn (by rw [isCaller]; simp only [Caller.cost]; omega)

/-- The queues that the loop of `close` has passed are closed. -/
def Shut (state : State BookType NumShards) : Prop :=
  match state.caller with
  | .closing shard => ∀ i, i.val < shard → (state.router.queues i).closed = true
  | .joining _ => ∀ i, (state.router.queues i).closed = true
  | _ => True

theorem closed_of_pop {queue rest : BlockingQueue (ShardItem NumShards)} {item : Option (ShardItem NumShards)}
    (pops : queue.popImpl = some (item, rest)) : rest.closed = queue.closed := by
  unfold BlockingQueue.popImpl at pops
  cases isQueue : queue.queue with
  | cons first others =>
    rw [isQueue] at pops
    obtain ⟨rfl, rfl⟩ := Prod.mk.inj (Option.some.inj pops)
    rfl
  | nil =>
    rw [isQueue] at pops
    simp only [Option.ite_none_right_eq_some, Option.some_inj, Prod.mk.injEq] at pops
    rw [pops.2.2]

theorem closed_work [OrderBook BookType] (step : work state shard = some after) (i : Fin NumShards) :
    (after.router.queues i).closed = (state.router.queues i).closed := by
  unfold work at step
  split at step
  · obtain ⟨⟨item, queue⟩, pops, rfl⟩ := Option.map_eq_some_iff.mp step
    rcases eq_or_ne i shard with rfl | apart
    · simpa using closed_of_pop pops
    · simp [Function.update_of_ne apart]
  · next item _ =>
    cases item <;> obtain rfl := Option.some.inj step <;> rfl
  · contradiction

theorem Shut.work [OrderBook BookType] (shut : Shut state) (step : work state shard = some after) : Shut after := by
  have closed := closed_work step
  unfold Shut at shut ⊢
  rw [(unmoved_work step).caller]
  cases isCaller : state.caller with
  | closing next =>
    simp only [isCaller] at shut ⊢
    exact fun i before => (closed i).trans (shut i before)
  | joining next =>
    simp only [isCaller] at shut ⊢
    exact fun i => (closed i).trans (shut i)
  | _ => trivial

theorem Shut.call (shut : Shut state) (step : call state = some after) : Shut after := by
  unfold ShardedOrderBookRouter.call at step
  cases isCaller : state.caller with
  | idle | threw =>
    simp only [isCaller] at step
    contradiction
  | syncing next =>
    simp only [isCaller] at step
    split at step
    · split at step <;> obtain rfl := Option.some.inj step <;> trivial
    · obtain rfl := Option.some.inj step
      trivial
  | waiting next =>
    simp only [isCaller] at step
    split at step
    · split at step
      · obtain rfl := Option.some.inj step
        trivial
      · contradiction
    · obtain rfl := Option.some.inj step
      trivial
  | reading next =>
    simp only [isCaller] at step
    split at step <;> obtain rfl := Option.some.inj step <;> trivial
  | closing next =>
    simp only [Shut, isCaller] at shut
    simp only [isCaller] at step
    split at step
    · next inside =>
      obtain rfl := Option.some.inj step
      intro i before
      rcases eq_or_ne i ⟨next, inside⟩ with rfl | apart
      · simp [BlockingQueue.closeImpl]
      · have earlier : i.val < next := by
          have distinct : i.val ≠ next := fun same => apart (Fin.ext same)
          omega
        simpa [Function.update_of_ne apart] using shut i earlier
    · next outside =>
      obtain rfl := Option.some.inj step
      exact fun i => shut i (i.isLt.trans_le (Nat.le_of_not_lt outside))
  | joining next =>
    simp only [Shut, isCaller] at shut
    simp only [isCaller] at step
    split at step
    · split at step
      · obtain rfl := Option.some.inj step
        exact shut
      · contradiction
    · obtain rfl := Option.some.inj step
      trivial

/-- A promise that was visited is fulfilled. -/
def Kept (state : State BookType NumShards) : Prop :=
  ∀ round i, .promise round i ∈ state.visited i → (round, i) ∈ state.fulfilled

theorem Kept.congr (kept : Kept state) (visited : after.visited = state.visited)
    (fulfilled : after.fulfilled = state.fulfilled) :
    Kept after := by
  unfold Kept
  rw [visited, fulfilled]
  exact kept

theorem Kept.work [OrderBook BookType] (kept : Kept state) (step : work state shard = some after) : Kept after := by
  unfold ShardedOrderBookRouter.work at step
  split at step
  · obtain ⟨_, -, rfl⟩ := Option.map_eq_some_iff.mp step
    exact kept
  · next item _ =>
    have isIn {round : ℕ} {i : Fin NumShards}
        (visited : .promise round i ∈ Function.update state.visited shard (state.visited shard ++ [item]) i) :
        .promise round i ∈ state.visited i ∨ item = .promise round i := by
      rcases eq_or_ne i shard with rfl | apart
      · rw [Function.update_self, List.mem_append, List.mem_singleton] at visited
        exact visited.imp_right Eq.symm
      · rw [Function.update_of_ne apart] at visited
        exact .inl visited
    cases item with
    | event e =>
      obtain rfl := Option.some.inj step
      intro round i visited
      rcases isIn visited with before | now
      · exact kept round i before
      · contradiction
    | promise number named =>
      obtain rfl := Option.some.inj step
      intro round i visited
      rcases isIn visited with before | now
      · exact List.mem_cons_of_mem _ (kept round i before)
      · obtain ⟨rfl, rfl⟩ := ShardItem.promise.inj now
        exact List.mem_cons_self
  · contradiction

theorem shut_of_idle (isIdle : state.caller = .idle) : Shut state := by
  simp only [Shut, isIdle]

/-- A push leaves what the threads have done so far. -/
theorem push_frame {item : ShardItem NumShards} (pushes : push state shard item = .ok after) :
    after.caller = state.caller ∧ after.visited = state.visited ∧ after.fulfilled = state.fulfilled := by
  cases closed : (state.router.queues shard).closed with
  | false =>
    rw [push_of_open closed] at pushes
    obtain rfl := Except.ok.inj pushes
    exact ⟨rfl, rfl, rfl⟩
  | true =>
    rw [push_of_closed closed] at pushes
    contradiction

theorem call_frame (step : call state = some after) :
    after.visited = state.visited ∧ after.fulfilled = state.fulfilled := by
  unfold call at step
  split at step
  · contradiction
  · split at step
    · split at step
      · next pushes =>
        obtain rfl := Option.some.inj step
        exact (push_frame pushes).2
      · obtain rfl := Option.some.inj step
        exact ⟨rfl, rfl⟩
    · obtain rfl := Option.some.inj step
      exact ⟨rfl, rfl⟩
  · split at step
    · split at step
      · obtain rfl := Option.some.inj step
        exact ⟨rfl, rfl⟩
      · contradiction
    · obtain rfl := Option.some.inj step
      exact ⟨rfl, rfl⟩
  · split at step <;> obtain rfl := Option.some.inj step <;> exact ⟨rfl, rfl⟩
  · split at step <;> obtain rfl := Option.some.inj step <;> exact ⟨rfl, rfl⟩
  · split at step
    · split at step
      · obtain rfl := Option.some.inj step
        exact ⟨rfl, rfl⟩
      · contradiction
    · obtain rfl := Option.some.inj step
      exact ⟨rfl, rfl⟩
  · contradiction

variable [NeZero NumShards]

theorem applyImpl_frame (e : MarketDataEvent) :
    ((applyImpl state e).caller = state.caller ∨ ∃ error, (applyImpl state e).caller = .threw error) ∧
      (applyImpl state e).visited = state.visited ∧ (applyImpl state e).fulfilled = state.fulfilled := by
  unfold applyImpl
  dsimp only
  split
  · exact ⟨.inl rfl, rfl, rfl⟩
  · split
    · next pushes =>
      obtain ⟨caller, visited, fulfilled⟩ := push_frame pushes
      exact ⟨.inl caller, visited, fulfilled⟩
    · exact ⟨.inr ⟨_, rfl⟩, rfl, rfl⟩

theorem Kept.move [OrderBook BookType] (kept : Kept state) {choice : Move NumShards}
    (step : move state choice = some after) :
    Kept after := by
  cases choice with
  | apply e =>
    cases isCaller : state.caller <;>
      simp only [ShardedOrderBookRouter.move, isCaller, reduceCtorEq, Option.some_inj] at step
    subst step
    obtain ⟨-, visited, fulfilled⟩ := @applyImpl_frame BookType NumShards state _ e
    exact kept.congr visited fulfilled
  | snapshot =>
    cases isCaller : state.caller <;>
      simp only [ShardedOrderBookRouter.move, isCaller, reduceCtorEq, Option.some_inj] at step
    subst step
    unfold snapshot
    split <;> exact kept
  | close =>
    cases isCaller : state.caller <;>
      simp only [ShardedOrderBookRouter.move, isCaller, reduceCtorEq, Option.some_inj] at step
    subst step
    unfold close
    split <;> exact kept
  | call =>
    obtain ⟨visited, fulfilled⟩ := call_frame step
    exact kept.congr visited fulfilled
  | work shard => exact kept.work step

theorem Shut.move [OrderBook BookType] (shut : Shut state) {choice : Move NumShards}
    (step : move state choice = some after) :
    Shut after := by
  cases choice with
  | apply e =>
    cases isCaller : state.caller <;>
      simp only [ShardedOrderBookRouter.move, isCaller, reduceCtorEq, Option.some_inj] at step
    subst step
    rcases (@applyImpl_frame BookType NumShards state _ e).1 with same | ⟨error, threw⟩
    · exact shut_of_idle (same.trans isCaller)
    · simp only [Shut, threw]
  | snapshot =>
    cases isCaller : state.caller <;>
      simp only [ShardedOrderBookRouter.move, isCaller, reduceCtorEq, Option.some_inj] at step
    subst step
    unfold snapshot
    split <;> trivial
  | close =>
    cases isCaller : state.caller <;>
      simp only [ShardedOrderBookRouter.move, isCaller, reduceCtorEq, Option.some_inj] at step
    subst step
    unfold close
    split
    · exact shut
    · exact fun i before => absurd before (Nat.not_lt_zero _)
  | call => exact shut.call step
  | work shard => exact shut.work step

/-- The steps of the threads that are under way. -/
def Move.isOwn : Move NumShards → Bool
  | .call | .work _ => true
  | .apply _ | .snapshot | .close => false

/-- The calling thread is in no call, and each worker has dealt with all that its queue was given:
it sleeps while the queue is open, and has ended when it is closed. -/
structure AtRest (state : State BookType NumShards) : Prop where
  caller : state.caller = .idle ∨ ∃ error, state.caller = .threw error
  workers : ∀ i, CaughtUp state i ∧
    (state.workers i = .finished ∧ (state.router.queues i).closed = true ∨
      state.workers i = .popping ∧ (state.router.queues i).closed = false)

theorem cost_move [OrderBook BookType] {choice : Move NumShards} (own : choice.isOwn = true)
    (step : move state choice = some after) :
    cost after < cost state := by
  cases choice with
  | call => exact cost_call step
  | work shard => exact cost_work step
  | apply | snapshot | close => contradiction

/-- A worker that cannot go on has nothing left to do. -/
theorem worker_of_stuck [OrderBook BookType] (holds : Invariant state) (stuck : work state i = none) :
    CaughtUp state i ∧
    (state.workers i = .finished ∧ (state.router.queues i).closed = true ∨
      state.workers i = .popping ∧ (state.router.queues i).closed = false) := by
  unfold work at stuck
  cases isWorker : state.workers i with
  | finished => exact ⟨holds.flow.caughtUp_of_finished isWorker, .inl ⟨rfl, (holds.flow.finished i isWorker).2⟩⟩
  | visiting item =>
    simp only [isWorker] at stuck
    cases item <;> contradiction
  | popping =>
    simp only [isWorker, Option.map_eq_none_iff, BlockingQueue.popImpl] at stuck
    cases isQueue : (state.router.queues i).queue with
    | cons first rest =>
      rw [isQueue] at stuck
      contradiction
    | nil =>
      rw [isQueue] at stuck
      simp only [ite_eq_right_iff, reduceCtorEq, imp_false, Bool.not_eq_true] at stuck
      exact ⟨holds.flow.caughtUp_iff.mpr ⟨by rw [isWorker]; rfl, isQueue⟩, .inr ⟨rfl, stuck⟩⟩

theorem caller_of_stuck [OrderBook BookType] (holds : Invariant state) (shut : Shut state) (kept : Kept state)
    (stuck : ∀ choice : Move NumShards, choice.isOwn = true → move state choice = none) :
    state.caller = .idle ∨ ∃ error, state.caller = .threw error := by
  have workers (i : Fin NumShards) := worker_of_stuck holds (stuck (.work i) rfl)
  have halts : call state = none := stuck .call rfl
  have phase := holds.phase
  unfold call at halts
  unfold Phase at phase
  unfold Shut at shut
  cases isCaller : state.caller with
  | idle => exact .inl rfl
  | threw error => exact .inr ⟨error, rfl⟩
  | syncing next =>
    simp only [isCaller] at halts
    split at halts
    · split at halts <;> contradiction
    · contradiction
  | waiting next =>
    simp only [isCaller] at halts phase
    split at halts
    · next inside =>
      split at halts
      · contradiction
      · next broken =>
        -- the worker has visited the promise
        obtain ⟨before, isLast, -⟩ := (phase.2 ⟨next, inside⟩).1
        have visited : .promise state.round ⟨next, inside⟩ ∈ state.visited ⟨next, inside⟩ := by
          rw [(workers ⟨next, inside⟩).1, isLast]
          exact List.mem_append_right _ List.mem_cons_self
        exact absurd (kept _ _ visited) broken
    · contradiction
  | reading next =>
    simp only [isCaller] at halts
    split at halts <;> contradiction
  | closing next =>
    simp only [isCaller] at halts
    split at halts <;> contradiction
  | joining next =>
    simp only [isCaller] at halts shut
    split at halts
    · next inside =>
      split at halts
      · contradiction
      · next notFinished =>
        rcases (workers ⟨next, inside⟩).2 with ⟨isFinished, -⟩ | ⟨-, opened⟩
        · exact absurd isFinished notFinished
        · rw [shut] at opened
          contradiction
    · contradiction

/-- The threads under way come to rest, in as many steps as the bound says. -/
theorem completes [OrderBook BookType] (reached : (system BookType NumShards).Reachable state) :
    ((∀ choice : Move NumShards, choice.isOwn = true → move state choice = none) → AtRest state) ∧
      ∀ (moves : List (Move NumShards)) (after : State BookType NumShards), (∀ choice ∈ moves, choice.isOwn = true) →
        moves.foldlM (fun state choice => move state choice) state = some after →
        moves.length ≤ 7 * NumShards + 3 + 2 * ∑ i, (state.router.queues i).queue.length := by
  have holds := invariant_reachable reached
  obtain ⟨shut, kept⟩ : Shut state ∧ Kept state := by
    refine reached.invariant (P := fun state => Shut state ∧ Kept state) ?_ ?_
    · rintro _ rfl
      exact ⟨trivial, fun _ _ visited => absurd visited List.not_mem_nil⟩
    · rintro before after ⟨shut, kept⟩ ⟨choice, step⟩
      exact ⟨shut.move step, kept.move step⟩
  refine ⟨fun stuck => ⟨caller_of_stuck holds shut kept stuck, fun i => worker_of_stuck holds (stuck (.work i) rfl)⟩,
    fun moves after allOwn run => ?_⟩
  have few := TransitionSystem.length_le_of_cost (fun _ _ _ own step => cost_move own step) moves allOwn run
  have bound := @cost_le BookType NumShards state
  omega

/-- A snapshot has pushed one of its two promises, behind an event that no worker has popped. -/
theorem completes_snapshot : ∃ state : State AbseilOrderBook 2, state.caller = .syncing 1 ∧
    ((∀ choice : Move 2, choice.isOwn = true → move state choice = none) → AtRest state) ∧
      ∀ (moves : List (Move 2)) (after : State AbseilOrderBook 2), (∀ choice ∈ moves, choice.isOwn = true) →
        moves.foldlM (fun state choice => move state choice) state = some after →
        moves.length ≤ 7 * 2 + 3 + 2 * ∑ i, (state.router.queues i).queue.length :=
  ⟨_, by rfl, completes (TransitionSystem.reachable_ofMoves
    [.apply { instrumentId := 7, orderId := 1, side := .buy, price := 100, size := 10, action := .add },
      .snapshot, .call] rfl)⟩

end BackTester.ShardedOrderBookRouter
