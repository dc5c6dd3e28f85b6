import BackTester.Proofs.Common.MutexInvariant
import BackTester.ToMathlib.RunCost
import Mathlib.Algebra.Order.BigOperators.Group.Finset

/-! # No wakeup is lost

While a thread sleeps in `wait`, every item in the queue has a thread that is going to look at it:
one that is awake and pops, or one that has still to notify for it. Or all sleepers are going to be
woken, and they are when the queue is closed.
-/

namespace BackTester.BlockingQueue

variable {α Thread : Type*} {state after : Threads Thread α} {thread other : Thread}
  {phase : Phase α} {queue : BlockingQueue α} {mutex : Option Thread}

/-- Items the thread sees to: it pops one, or wakes a thread for one. -/
def Phase.ticket : Phase α → ℕ
  | .locking .pop | .testing .pop | .popping | .waking | .unlocking .one _ | .notifying .one _ => 1
  | _ => 0

theorem Phase.ticket_testing (call : Call α) : (Phase.testing call).ticket = (Phase.locking call).ticket := by
  cases call <;> rfl

/-- The thread is going to wake all sleepers. -/
def Phase.alarm : Phase α → Bool
  | .batching _ | .unlocking .all _ | .notifying .all _ => true
  | _ => false

theorem Phase.eq_waiting (sleeps : phase.isWaiting = true) : phase = .waiting := by
  cases phase <;> first | rfl | contradiction

def Alarmed (state : Threads Thread α) : Prop := ∃ thread, (state.phase thread).alarm = true

def Awake (state : Threads Thread α) : Prop := ∀ thread, (state.phase thread).isWaiting = false

theorem awake_wakeAll : Awake { state with phase := fun other => (state.phase other).woken } := by
  intro other
  change (state.phase other).woken.isWaiting = false
  cases state.phase other <;> rfl

/-- Some thread sees to all sleepers, or none sleeps, or every item in the queue is seen to. -/
def Served [Fintype Thread] (state : Threads Thread α) : Prop :=
  Alarmed state ∨ Awake state ∨
    (state.queue.queue.length ≤ ∑ thread, (state.phase thread).ticket ∧ state.queue.closed = false)

theorem served_start [Fintype Thread] : Served ({} : Threads Thread α) := .inr (.inl fun _ => rfl)

/-- The steps of a call alone that has come to the phase, where `all` bounds those of waking every sleeper. -/
def Phase.cost (all : ℕ) : Phase α → ℕ
  | .idle | .waiting => 0
  | .returning _ => 1
  | .unlocking .nobody _ | .notifying .nobody _ => 2
  | .popping | .testing .isClosed | .testing .empty | .testing .size => 3
  | .testing .pop | .locking .isClosed | .locking .empty | .locking .size => 4
  | .locking .pop | .waking => 5
  | .notifying .one _ => 7
  | .unlocking .one _ => 8
  | .pushing _ => 9
  | .testing (.push _) => 10
  | .locking (.push _) => 11
  | .notifying .all _ => all + 2
  | .unlocking .all _ => all + 3
  | .testing .close => all + 4
  | .batching items => all + 4 + items.length
  | .locking .close => all + 5
  | .testing (.pushBatch items) => all + 5 + items.length
  | .locking (.pushBatch items) => all + 6 + items.length

/-- The items of a batch that the thread has still to push. -/
def Phase.batch : Phase α → List α
  | .locking (.pushBatch items) | .testing (.pushBatch items) | .batching items => items
  | _ => []

theorem Phase.cost_le {all : ℕ} (enough : 5 ≤ all) (phase : Phase α) :
    phase.cost all ≤ all + 6 + phase.batch.length := by
  cases phase with
  | locking call | testing call => cases call <;> simp only [cost, batch, List.length_nil] <;> omega
  | unlocking notice | notifying notice => cases notice <;> simp only [cost, batch, List.length_nil] <;> omega
  | _ => simp only [cost, batch, List.length_nil]; omega

/-- Being woken costs a sleeper five steps: to lock, to test, to pop, to unlock and to return. -/
theorem Phase.cost_woken {all : ℕ} (phase : Phase α) : phase.woken.cost all ≤ phase.cost all + 5 := by
  cases phase <;> simp [woken, cost]

def cost [Fintype Thread] (state : Threads Thread α) : ℕ :=
  ∑ thread, (state.phase thread).cost (5 * Fintype.card Thread)

theorem cost_wakeAll [Fintype Thread] :
    cost { state with phase := fun other => (state.phase other).woken } ≤ cost state + 5 * Fintype.card Thread :=
  calc ∑ other, (state.phase other).woken.cost (5 * Fintype.card Thread)
    _ ≤ ∑ other, ((state.phase other).cost (5 * Fintype.card Thread) + 5) := Finset.sum_le_sum fun other _ =>
      Phase.cost_woken _
    _ = cost state + 5 * Fintype.card Thread := by
      rw [Finset.sum_add_distrib, Finset.sum_const, Finset.card_univ, smul_eq_mul, Nat.mul_comm (Fintype.card Thread) 5]
      rfl

theorem cost_le [Fintype Thread] : cost state ≤
    Fintype.card Thread * (5 * Fintype.card Thread + 6) + ∑ thread, (state.phase thread).batch.length :=
  calc cost state
    _ ≤ ∑ thread, (5 * Fintype.card Thread + 6 + (state.phase thread).batch.length) := by
      refine Finset.sum_le_sum fun thread _ => Phase.cost_le ?_ _
      have some : 0 < Fintype.card Thread := Fintype.card_pos_iff.mpr ⟨thread⟩
      omega
    _ = _ := by rw [Finset.sum_add_distrib, Finset.sum_const, Finset.card_univ, smul_eq_mul]

variable [DecidableEq Thread]

theorem alarmed_goTo (gives : phase.alarm = true) : Alarmed (goTo state thread phase) :=
  ⟨thread, by rw [goTo_phase, Function.update_self]; exact gives⟩

theorem Alarmed.goTo (alarmed : Alarmed state) (own : (state.phase thread).alarm = true → phase.alarm = true) :
    Alarmed (goTo state thread phase) := by
  obtain ⟨other, alarm⟩ := alarmed
  rcases eq_or_ne other thread with rfl | apart
  · exact alarmed_goTo (own alarm)
  · exact ⟨other, by rwa [goTo_phase, Function.update_of_ne apart]⟩

theorem Awake.goTo (awake : Awake state) (own : phase.isWaiting = false) : Awake (goTo state thread phase) := by
  intro other
  rcases eq_or_ne other thread with rfl | apart
  · rwa [goTo_phase, Function.update_self]
  · rw [goTo_phase, Function.update_of_ne apart]
    exact awake other

variable [Fintype Thread]

theorem sum_goTo (f : Phase α → ℕ) : ∑ other, f ((goTo state thread phase).phase other) + f (state.phase thread) =
    ∑ other, f (state.phase other) + f phase := by
  have sum := @Fintype.sum_add_of_differ _ _ _ (fun other =>
    f ((goTo state thread phase).phase other)) (fun other => f (state.phase other))
    thread fun other apart => by rw [goTo_phase, Function.update_of_ne apart]
  rwa [goTo_phase, Function.update_self] at sum

theorem cost_goTo : cost (goTo state thread phase) + (state.phase thread).cost (5 * Fintype.card Thread) =
    cost state + phase.cost (5 * Fintype.card Thread) :=
  sum_goTo (Phase.cost _)

theorem Served.alarm (gives : phase.alarm = true) :
    Served { goTo state thread phase with queue := queue, mutex := mutex } :=
  .inl (alarmed_goTo gives)

/-- A step after which the thread waits for nothing, and that accounts for the items it adds. -/
theorem Served.turn (served : Served state) (noAlarm : (state.phase thread).alarm = false)
    (awake : phase.isWaiting = false) (flag : queue.closed = state.queue.closed)
    (accounts : queue.queue.length + (state.phase thread).ticket ≤ state.queue.queue.length + phase.ticket ∨
      queue.queue = []) :
    Served { goTo state thread phase with queue := queue, mutex := mutex } := by
  rcases served with alarmed | allAwake | ⟨counted, opened⟩
  · exact .inl (alarmed.goTo fun alarm => absurd (noAlarm.symm.trans alarm) Bool.false_ne_true)
  · exact .inr (.inl (allAwake.goTo awake))
  · refine .inr (.inr ⟨?_, flag.trans opened⟩)
    rcases accounts with accounts | isEmpty
    · have sum := @sum_goTo α Thread state thread phase _ _ Phase.ticket
      change queue.queue.length ≤ ∑ other, ((goTo state thread phase).phase other).ticket
      omega
    · change queue.queue.length ≤ _
      rw [isEmpty]
      exact Nat.zero_le _

theorem Served.wait (isEmpty : queue.queue = []) (opened : queue.closed = false) :
    Served { goTo state thread phase with queue := queue, mutex := mutex } := by
  refine .inr (.inr ⟨?_, opened⟩)
  change queue.queue.length ≤ _
  rw [isEmpty]
  exact Nat.zero_le _

theorem served_test (served : Served state) {call : Call α} (isTesting : state.phase thread = .testing call) :
    Served (test state thread call) := by
  have noAlarm : (state.phase thread).alarm = false := by rw [isTesting]; rfl
  -- what the thread does next sees to as many items as before
  have same {phase : Phase α} (awake : phase.isWaiting = false)
      (accounts : (Phase.testing call).ticket ≤ phase.ticket ∨ state.queue.queue = []) :
      Served (goTo state thread phase) := by
    refine served.turn noAlarm awake rfl ?_
    rw [isTesting]
    exact accounts.imp (Nat.add_le_add_left · _) id
  cases call with
  | push value =>
    simp only [test]
    split
    · exact same rfl (.inl (le_refl _))
    · exact same rfl (.inl (le_refl _))
  | pushBatch items =>
    simp only [test]
    split
    · exact same rfl (.inl (le_refl _))
    · exact .alarm rfl
  | pop =>
    simp only [test]
    split
    · next nothing =>
      obtain ⟨isEmpty, opened⟩ := nothing
      exact .wait (List.isEmpty_iff.mp isEmpty) (by simpa using opened)
    · split
      · next isEmpty => exact same rfl (.inr (List.isEmpty_iff.mp isEmpty))
      · exact same rfl (.inl (le_refl _))
  | close => exact .alarm rfl
  | isClosed | empty | size => exact same rfl (.inl (le_refl _))

theorem served_run (served : Served state) (step : run state thread = some after) : Served after := by
  unfold run at step
  cases isPhase : state.phase thread with
  | idle | waiting =>
    rw [isPhase] at step
    contradiction
  | locking call =>
    simp only [isPhase] at step
    split at step
    · obtain rfl := Option.some.inj step
      refine served.turn (by rw [isPhase]; rfl) rfl rfl (.inl ?_)
      rw [isPhase, Phase.ticket_testing]
      exact le_of_eq rfl
    · contradiction
  | waking =>
    simp only [isPhase] at step
    split at step
    · obtain rfl := Option.some.inj step
      refine served.turn (by rw [isPhase]; rfl) rfl rfl (.inl ?_)
      rw [isPhase]
      exact le_of_eq rfl
    · contradiction
  | testing call =>
    simp only [isPhase, Option.some_inj] at step
    subst step
    exact served_test served isPhase
  | pushing value =>
    simp only [isPhase, Option.some_inj] at step
    subst step
    refine served.turn (by rw [isPhase]; rfl) rfl rfl (.inl ?_)
    rw [isPhase, List.length_append]
    exact le_of_eq rfl
  | batching items =>
    cases items with
    | nil | cons =>
      simp only [isPhase, Option.some_inj] at step
      subst step
      exact .alarm rfl
  | popping =>
    cases isQueue : state.queue.queue with
    | nil =>
      simp only [isPhase, isQueue] at step
      contradiction
    | cons item rest =>
      simp only [isPhase, isQueue, Option.some_inj] at step
      subst step
      refine served.turn (by rw [isPhase]; rfl) rfl rfl (.inl ?_)
      rw [isPhase, isQueue]
      exact le_of_eq rfl
  | unlocking notice result =>
    cases notice with
    | all =>
      simp only [isPhase, Option.some_inj] at step
      subst step
      exact .alarm rfl
    | nobody | one =>
      simp only [isPhase, Option.some_inj] at step
      subst step
      refine served.turn (by rw [isPhase]; rfl) rfl rfl (.inl ?_)
      rw [isPhase]
      exact le_of_eq rfl
  | notifying notice result =>
    cases notice with
    | nobody =>
      simp only [isPhase, Option.some_inj] at step
      subst step
      refine served.turn (by rw [isPhase]; rfl) rfl rfl (.inl ?_)
      rw [isPhase]
      exact le_of_eq rfl
    | one =>
      simp only [isPhase] at step
      contradiction
    | all =>
      simp only [isPhase, Option.some_inj] at step
      subst step
      exact .inr (.inl (awake_wakeAll.goTo rfl))
  | returning result =>
    simp only [isPhase, Option.some_inj] at step
    subst step
    refine served.turn (by rw [isPhase]; rfl) rfl rfl (.inl ?_)
    rw [isPhase]
    exact le_of_eq rfl

theorem served_notifyOne (served : Served state) {woken : Option Thread}
    (step : notifyOne state thread woken = some after) :
    Served after := by
  unfold notifyOne at step
  split at step
  · next result isPhase =>
    have noAlarm : (state.phase thread).alarm = false := by rw [isPhase]; rfl
    cases woken with
    | none =>
      simp only at step
      split at step
      · next awake =>
        obtain rfl := Option.some.inj step
        have awake : Awake state := awake
        exact .inr (.inl (awake.goTo rfl))
      · contradiction
    | some sleeper =>
      simp only at step
      split at step
      · next sleeps =>
        obtain rfl := Option.some.inj step
        have isWaiting := Phase.eq_waiting sleeps
        have apart : thread ≠ sleeper := by
          rintro rfl
          rw [isPhase] at isWaiting
          contradiction
        have still : (goTo state sleeper .waking).phase thread = .notifying .one result := by
          rw [goTo_phase, Function.update_of_ne apart, isPhase]
        rcases served with alarmed | awake | ⟨counted, opened⟩
        · refine .inl (.goTo (.goTo alarmed ?_) ?_)
          · rw [isWaiting]
            exact nofun
          · rw [still]
            exact nofun
        · rw [awake sleeper] at sleeps
          contradiction
        · -- the sleeper sees to the item from now on
          have first := @sum_goTo α Thread state sleeper .waking _ _ Phase.ticket
          have second := @sum_goTo α Thread (goTo state sleeper .waking) thread (.returning result) _ _ Phase.ticket
          rw [isWaiting] at first
          rw [still] at second
          change _ + 0 = _ + 1 at first
          change _ + 1 = _ + 0 at second
          exact .inr (.inr ⟨by simp only [goTo_queue]; omega, opened⟩)
      · contradiction
  · contradiction

theorem served_move (served : Served state) {choice : Move Thread α} (step : move state choice = some after) :
    Served after := by
  cases choice with
  | enter thread call =>
    cases isPhase : state.phase thread <;> simp only [move, isPhase, reduceCtorEq, Option.some_inj] at step
    subst step
    refine served.turn (by rw [isPhase]; rfl) rfl rfl (.inl ?_)
    rw [isPhase]
    exact Nat.le_add_right _ _
  | run thread => exact served_run served step
  | notifyOne thread woken => exact served_notifyOne served step
  | wake thread =>
    cases isPhase : state.phase thread <;> simp only [move, isPhase, reduceCtorEq, Option.some_inj] at step
    subst step
    refine served.turn (by rw [isPhase]; rfl) rfl rfl (.inl ?_)
    rw [isPhase]
    exact Nat.le_add_right _ _

/-- A step of a call lowers the cost. -/
theorem cost_goTo_lt
    (lower : phase.cost (5 * Fintype.card Thread) < (state.phase thread).cost (5 * Fintype.card Thread)) :
    cost (goTo state thread phase) < cost state := by
  have sum := @cost_goTo α Thread state thread phase _ _
  omega

theorem cost_test {call : Call α} (isTesting : state.phase thread = .testing call) :
    cost (test state thread call) < cost state := by
  have lower {phase : Phase α}
      (isLess : phase.cost (5 * Fintype.card Thread) < (Phase.testing call).cost (5 * Fintype.card Thread)) :
      cost (goTo state thread phase) < cost state :=
    cost_goTo_lt (by rwa [isTesting])
  cases call with
  | push value =>
    simp only [test]
    split <;> exact lower (by simp only [Phase.cost]; omega)
  | pushBatch items =>
    simp only [test]
    split <;> exact lower (by simp only [Phase.cost]; omega)
  | pop =>
    simp only [test]
    split
    · exact @lower .waiting (by simp only [Phase.cost]; omega)
    · split <;> exact lower (by simp only [Phase.cost]; omega)
  | close => exact @lower (.unlocking .all .returned) (by simp only [Phase.cost]; omega)
  | isClosed | empty | size => exact lower (by simp only [Phase.cost]; omega)

theorem cost_run (step : run state thread = some after) : cost after < cost state := by
  unfold run at step
  cases isPhase : state.phase thread with
  | idle | waiting =>
    rw [isPhase] at step
    contradiction
  | locking call =>
    simp only [isPhase] at step
    split at step
    · obtain rfl := Option.some.inj step
      exact @cost_goTo_lt α Thread state thread
        (.testing call) _ _ (by rw [isPhase]; cases call <;> simp only [Phase.cost] <;> omega)
    · contradiction
  | waking =>
    simp only [isPhase] at step
    split at step
    · obtain rfl := Option.some.inj step
      exact @cost_goTo_lt α Thread state thread (.testing .pop) _ _ (by rw [isPhase]; simp only [Phase.cost]; omega)
    · contradiction
  | testing call =>
    simp only [isPhase, Option.some_inj] at step
    subst step
    exact cost_test isPhase
  | pushing value =>
    simp only [isPhase, Option.some_inj] at step
    subst step
    exact @cost_goTo_lt α Thread state thread
      (.unlocking .one .returned) _ _ (by rw [isPhase]; simp only [Phase.cost]; omega)
  | batching items =>
    cases items with
    | nil =>
      simp only [isPhase, Option.some_inj] at step
      subst step
      exact cost_goTo_lt (by rw [isPhase]; simp only [Phase.cost]; omega)
    | cons item items =>
      simp only [isPhase, Option.some_inj] at step
      subst step
      exact @cost_goTo_lt α Thread state thread (.batching items) _ _
        (by rw [isPhase]; simp only [Phase.cost, List.length_cons]; omega)
  | popping =>
    cases isQueue : state.queue.queue with
    | nil =>
      simp only [isPhase, isQueue] at step
      contradiction
    | cons item rest =>
      simp only [isPhase, isQueue, Option.some_inj] at step
      subst step
      exact @cost_goTo_lt α Thread state thread
        (.unlocking .nobody (.popped item)) _ _ (by rw [isPhase]; simp only [Phase.cost]; omega)
  | unlocking notice result =>
    cases notice with
    | nobody =>
      simp only [isPhase, Option.some_inj] at step
      subst step
      exact @cost_goTo_lt α Thread state thread (.returning result) _ _ (by rw [isPhase]; simp only [Phase.cost]; omega)
    | one =>
      simp only [isPhase, Option.some_inj] at step
      subst step
      exact @cost_goTo_lt α Thread state thread
        (.notifying .one result) _ _ (by rw [isPhase]; simp only [Phase.cost]; omega)
    | all =>
      simp only [isPhase, Option.some_inj] at step
      subst step
      exact @cost_goTo_lt α Thread state thread
        (.notifying .all result) _ _ (by rw [isPhase]; simp only [Phase.cost]; omega)
  | notifying notice result =>
    cases notice with
    | nobody =>
      simp only [isPhase, Option.some_inj] at step
      subst step
      exact cost_goTo_lt (by rw [isPhase]; simp only [Phase.cost]; omega)
    | one =>
      simp only [isPhase] at step
      contradiction
    | all =>
      simp only [isPhase, Option.some_inj] at step
      subst step
      have woke := @cost_wakeAll α Thread state _
      have sum := @cost_goTo α Thread { state with phase := fun other =>
        (state.phase other).woken } thread (.returning result) _ _
      change _ + (state.phase thread).woken.cost _ = _ + 1 at sum
      rw [isPhase] at sum
      change _ + (5 * Fintype.card Thread + 2) = _ + 1 at sum
      omega
  | returning result =>
    simp only [isPhase, Option.some_inj] at step
    subst step
    exact cost_goTo_lt (by rw [isPhase]; simp only [Phase.cost]; omega)

theorem cost_notifyOne {woken : Option Thread} (step : notifyOne state thread woken = some after) :
    cost after < cost state := by
  unfold notifyOne at step
  split at step
  · next result isPhase =>
    cases woken with
    | none =>
      simp only at step
      split at step
      · obtain rfl := Option.some.inj step
        exact cost_goTo_lt (by rw [isPhase]; simp only [Phase.cost]; omega)
      · contradiction
    | some sleeper =>
      simp only at step
      split at step
      · next sleeps =>
        obtain rfl := Option.some.inj step
        have isWaiting := Phase.eq_waiting sleeps
        have apart : thread ≠ sleeper := by
          rintro rfl
          rw [isPhase] at isWaiting
          contradiction
        have still : (goTo state sleeper .waking).phase thread = .notifying .one result := by
          rw [goTo_phase, Function.update_of_ne apart, isPhase]
        have first := @cost_goTo α Thread state sleeper .waking _ _
        have second := @cost_goTo α Thread (goTo state sleeper .waking) thread (.returning result) _ _
        rw [isWaiting] at first
        rw [still] at second
        change _ + 0 = _ + 5 at first
        change _ + 7 = _ + 1 at second
        omega
      · contradiction
  · contradiction

/-- The steps that a call under way takes of itself. -/
def Move.isOwn : Move Thread α → Bool
  | .run _ | .notifyOne _ _ => true
  | .enter _ _ | .wake _ => false

theorem cost_move {choice : Move Thread α} (own : choice.isOwn = true) (step : move state choice = some after) :
    cost after < cost state := by
  cases choice with
  | run thread => exact cost_run step
  | notifyOne thread woken => exact cost_notifyOne step
  | enter | wake => contradiction

/-- Every call has returned, but for pops that sleep while there is no item and the queue is open. -/
def Settled (state : Threads Thread α) : Prop :=
  ∀ thread, state.phase thread = .idle ∨
    (state.phase thread = .waiting ∧ state.queue.queue = [] ∧ state.queue.closed = false)

/-- A thread that cannot go on while the mutex is free is in no call, or sleeps. -/
theorem idle_or_waiting (exclusive : Exclusive state) (free : state.mutex = none) (halts : run state thread = none)
    (notifies : ∀ woken, notifyOne state thread woken = none) :
    state.phase thread = .idle ∨ state.phase thread = .waiting := by
  have outside : (state.phase thread).holds = false := by
    by_contra held
    have owns := (exclusive.owner thread).mp (Bool.not_eq_false _ ▸ held)
    rw [free] at owns
    contradiction
  unfold run at halts
  cases isPhase : state.phase thread with
  | idle => exact .inl rfl
  | waiting => exact .inr rfl
  | testing | pushing | batching | popping | unlocking =>
    rw [isPhase] at outside
    contradiction
  | locking | waking =>
    simp only [isPhase, if_pos free] at halts
    contradiction
  | returning =>
    simp only [isPhase] at halts
    contradiction
  | notifying notice result =>
    cases notice with
    | nobody | all =>
      simp only [isPhase] at halts
      contradiction
    | one =>
      by_cases awake : ∀ other, (state.phase other).isWaiting = false
      · have notified := notifies none
        simp only [notifyOne, isPhase, if_pos awake] at notified
        contradiction
      · push Not at awake
        obtain ⟨sleeper, sleeps⟩ := awake
        have notified := notifies (some sleeper)
        have sleeps := Bool.eq_true_of_not_eq_false sleeps
        simp only [notifyOne, isPhase, if_pos sleeps] at notified
        contradiction

theorem settled_of_stuck (exclusive : Exclusive state) (served : Served state)
    (stuck : ∀ choice, choice.isOwn = true → move state choice = none) : Settled state := by
  have free : state.mutex = none := free_of_stuck exclusive fun thread => stuck (.run thread) rfl
  have quiet : ∀ thread, state.phase thread = .idle ∨ state.phase thread = .waiting := fun thread =>
    idle_or_waiting exclusive free (stuck (.run thread) rfl) fun woken => stuck (.notifyOne thread woken) rfl
  intro thread
  rcases quiet thread with isIdle | isWaiting
  · exact .inl isIdle
  · refine .inr ⟨isWaiting, ?_⟩
    rcases served with ⟨other, alarm⟩ | awake | ⟨counted, opened⟩
    · rcases quiet other with isPhase | isPhase <;> rw [isPhase] at alarm <;> contradiction
    · have sleepless := awake thread
      rw [isWaiting] at sleepless
      contradiction
    · have none : ∑ thread, (state.phase thread).ticket = 0 := by
        refine Finset.sum_eq_zero fun other _ => ?_
        rcases quiet other with isPhase | isPhase <;> rw [isPhase] <;> rfl
      exact ⟨List.length_eq_zero_iff.mp (Nat.le_zero.mp (none ▸ counted)), opened⟩

end BackTester.BlockingQueue
