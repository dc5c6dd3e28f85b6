import BackTester.Model.Common.BlockingQueueThreads

/-! # What the mutex of the blocking queue protects

One thread at most is between its lock and its unlock, and it finds the members as it left them. A
call is taken under the mutex: a push at the check of the closed flag, a pop when it removes the
item. What a batch has still to push is then ahead of the members.
-/

namespace BackTester.BlockingQueue

open AtomicObject

variable {α Thread : Type*} {state after : Threads Thread α} {thread other : Thread}
  {phase : Phase α} {queue : BlockingQueue α}

/-- The thread has locked the mutex and not unlocked it. -/
def Phase.holds : Phase α → Bool
  | .testing _ | .pushing _ | .batching _ | .popping | .unlocking _ _ => true
  | _ => false

/-- The items of a call that has been taken that are not in the queue yet. -/
def Phase.upcoming : Phase α → List α
  | .pushing value => [value]
  | .batching items => items
  | _ => []

/-- What has become of the call. -/
def Phase.status : Phase α → Status (Call α) (Result α)
  | .idle => .idle
  | .locking call | .testing call => .called call
  | .pushing _ | .batching _ => .done .returned
  | .popping | .waiting | .waking => .called .pop
  | .unlocking _ result | .notifying _ result | .returning result => .done result

@[simp] theorem Phase.holds_woken (phase : Phase α) : phase.woken.holds = phase.holds := by
  cases phase <;> rfl

@[simp] theorem Phase.status_woken (phase : Phase α) : phase.woken.status = phase.status := by
  cases phase <;> rfl

/-- The items that the owner of the mutex has still to push. -/
def upcoming (state : Threads Thread α) : List α :=
  match state.mutex with
  | some owner => (state.phase owner).upcoming
  | none => []

/-- The queue with these threads, when the calls that were taken have had their effect at once. -/
def taken (state : Threads Thread α) : Shared Thread (Call α) (Result α) (BlockingQueue α) where
  obj := { state.queue with queue := state.queue.queue ++ upcoming state }
  status thread := (state.phase thread).status

/-- The mutex is owned by the thread that is between its lock and its unlock. -/
structure Exclusive (state : Threads Thread α) : Prop where
  owner : ∀ thread, (state.phase thread).holds = true ↔ state.mutex = some thread
  /-- The item whose presence the thread has seen is still there. -/
  popping : ∀ thread, state.phase thread = .popping → state.queue.queue ≠ []

theorem exclusive_start : Exclusive ({} : Threads Thread α) where
  owner _ := ⟨fun holds => by contradiction, fun owns => by contradiction⟩
  popping _ isPopping := by contradiction

namespace Exclusive

variable (exclusive : Exclusive state)
include exclusive

theorem apart (holds : (state.phase thread).holds = true) (isOther : other ≠ thread) :
    (state.phase other).holds = false := by
  have owns := (exclusive.owner thread).mp holds
  by_contra held
  have alsoOwns := (exclusive.owner other).mp (Bool.not_eq_false _ ▸ held)
  rw [owns] at alsoOwns
  exact isOther (Option.some.inj alsoOwns).symm

theorem obj_inside (inside : (state.phase thread).holds = true) :
    (taken state).obj = { state.queue with queue := state.queue.queue ++ (state.phase thread).upcoming } := by
  unfold taken upcoming
  rw [(exclusive.owner thread).mp inside]

theorem ne_owner (releases : (state.phase thread).holds = false) : state.mutex ≠ some thread := by
  intro owns
  rw [(exclusive.owner thread).mpr owns] at releases
  contradiction

theorem wakeAll : Exclusive { state with phase := fun other => (state.phase other).woken } where
  owner other := by simpa using exclusive.owner other
  popping other isPopping := by
    apply exclusive.popping other
    cases isPhase : state.phase other <;> simp [isPhase, Phase.woken] at isPopping ⊢

end Exclusive

theorem taken_wakeAll : taken { state with phase := fun other => (state.phase other).woken } = taken state := by
  have same : upcoming { state with phase := fun other => (state.phase other).woken } = upcoming state := by
    unfold upcoming
    cases state.mutex with
    | none => rfl
    | some owner => cases isPhase : state.phase owner <;> simp [isPhase, Phase.woken, Phase.upcoming]
  unfold taken
  rw [same]
  simp only [Phase.status_woken]

variable [DecidableEq Thread]

@[simp] theorem goTo_phase : (goTo state thread phase).phase = Function.update state.phase thread phase := rfl

@[simp] theorem goTo_queue : (goTo state thread phase).queue = state.queue := rfl

@[simp] theorem goTo_mutex : (goTo state thread phase).mutex = state.mutex := rfl

theorem status_goTo : (fun other => ((goTo state thread phase).phase other).status) =
    Function.update (taken state).status thread phase.status := by
  funext other
  rcases eq_or_ne other thread with rfl | apart
  · simp
  · simp [Function.update_of_ne apart, taken]

namespace Exclusive

variable (exclusive : Exclusive state)
include exclusive

/-- The thread goes on without a lock or an unlock. The queue is its own if it holds the mutex. -/
theorem stay (same : phase.holds = (state.phase thread).holds)
    (own : queue ≠ state.queue → (state.phase thread).holds = true)
    (some : phase = .popping → queue.queue ≠ []) : Exclusive { goTo state thread phase with queue := queue } where
  owner other := by
    rcases eq_or_ne other thread with rfl | apart
    · simpa [same] using exclusive.owner other
    · simpa [Function.update_of_ne apart] using exclusive.owner other
  popping other isPopping := by
    rcases eq_or_ne other thread with rfl | apart
    · exact some (by simpa using isPopping)
    · have isPopping : state.phase other = .popping := by simpa [Function.update_of_ne apart] using isPopping
      have kept : queue = state.queue := by
        by_contra changed
        have idle := exclusive.apart (own changed) apart
        rw [isPopping] at idle
        contradiction
      exact kept ▸ exclusive.popping other isPopping

theorem turn (same : phase.holds = (state.phase thread).holds)
    (notPopping : phase = .popping → state.queue.queue ≠ []) :
    Exclusive (goTo state thread phase) :=
  exclusive.stay same (fun changed => absurd rfl changed) notPopping

theorem acquire (free : state.mutex = none) (call : Call α) :
    Exclusive { goTo state thread (.testing call) with mutex := some thread } where
  owner other := by
    have idle := exclusive.owner other
    rw [free] at idle
    rcases eq_or_ne other thread with rfl | apart
    · simp [Phase.holds]
    · simpa [Function.update_of_ne apart, apart.symm] using idle
  popping other isPopping := by
    rcases eq_or_ne other thread with rfl | apart
    · simp at isPopping
    · exact exclusive.popping other (by simpa [Function.update_of_ne apart] using isPopping)

theorem release (held : (state.phase thread).holds = true) (releases : phase.holds = false) :
    Exclusive { goTo state thread phase with mutex := none } where
  owner other := by
    rcases eq_or_ne other thread with rfl | apart
    · simp [releases]
    · simpa [Function.update_of_ne apart] using exclusive.apart held apart
  popping other isPopping := by
    rcases eq_or_ne other thread with rfl | apart
    · rw [show phase = .popping by simpa using isPopping] at releases
      contradiction
    · exact exclusive.popping other (by simpa [Function.update_of_ne apart] using isPopping)

/-- Where the thread does not hold the mutex, only its own call is another. -/
theorem taken_outside (outside : (state.phase thread).holds = false) :
    taken (goTo state thread phase) =
      { taken state with status := Function.update (taken state).status thread phase.status } := by
  have notOwner := exclusive.ne_owner outside
  have same : upcoming (goTo state thread phase) = upcoming state := by
    unfold upcoming
    rw [goTo_mutex]
    cases owner : state.mutex with
    | none => rfl
    | some owner' =>
      have apart : owner' ≠ thread := fun same => notOwner (same ▸ owner)
      simp [Function.update_of_ne apart]
  unfold taken
  rw [same, goTo_queue]
  exact congrArg (Shared.mk _) status_goTo

/-- Where it does, the queue is what it makes of it. -/
theorem taken_inside (inside : (state.phase thread).holds = true) :
    taken { goTo state thread phase with queue := queue } =
      ⟨{ queue with queue := queue.queue ++ phase.upcoming },
        Function.update (taken state).status thread phase.status⟩ := by
  have owns : ({ goTo state thread phase with queue := queue } : Threads Thread α).mutex = some thread :=
    (exclusive.owner thread).mp inside
  unfold taken upcoming
  rw [owns]
  refine congrArg₂ Shared.mk ?_ status_goTo
  simp

end Exclusive

theorem taken_release :
    taken { goTo state thread phase with mutex := none } =
      ⟨state.queue, Function.update (taken state).status thread phase.status⟩ := by
  unfold taken upcoming
  refine congrArg₂ Shared.mk ?_ status_goTo
  simp

theorem taken_acquire (free : state.mutex = none) (call : Call α) :
    taken { goTo state thread (.testing call) with mutex := some thread } =
      { taken state with status := Function.update (taken state).status thread (.called call) } := by
  unfold taken upcoming
  rw [free]
  refine congrArg₂ Shared.mk ?_ status_goTo
  simp [Phase.upcoming]

variable {call : Call α} {op : Call α} {result : Result α} {obj : BlockingQueue α}

/-- Nothing is taken. -/
theorem answers_none (same : taken after = taken state) :
    ((object α).shared Thread).Answers (taken state) [] (taken after) := by
  rw [same]
  exact .none

theorem update_status (same : phase.status = (state.phase thread).status) :
    Function.update (taken state).status thread phase.status = (taken state).status := by
  rw [same]
  exact Function.update_eq_self thread (taken state).status

/-- A step with the mutex: the call is taken now. -/
theorem step_take (exclusive : Exclusive state) (inside : (state.phase thread).holds = true)
    (nothing : (state.phase thread).upcoming = [])
    (isCalled : (state.phase thread).status = .called op) (stays : phase.holds = true)
    (done : phase.status = .done result)
    (applies : (object α).apply state.queue op = some (result, { queue with queue := queue.queue ++ phase.upcoming })) :
    Exclusive { goTo state thread phase with queue := queue } ∧
      ((object α).shared Thread).Answers (taken state) [] (taken { goTo state thread phase with queue := queue }) := by
  have obj : (taken state).obj = state.queue := by
    rw [exclusive.obj_inside inside, nothing, List.append_nil]
  refine ⟨exclusive.stay (stays.trans inside.symm) (fun _ => inside) (fun isPopping => ?_), ?_⟩
  · rw [isPopping] at done
    contradiction
  · rw [exclusive.taken_inside inside, done]
    exact answers_take isCalled (obj ▸ applies)

/-- A step with the mutex in a call that is taken at another. -/
theorem step_inside (exclusive : Exclusive state) (inside : (state.phase thread).holds = true)
    (stays : phase.holds = true)
    (same : phase.status = (state.phase thread).status) (some : phase = .popping → queue.queue ≠ [])
    (flag : queue.closed = state.queue.closed)
    (items : queue.queue ++ phase.upcoming = state.queue.queue ++ (state.phase thread).upcoming) :
    Exclusive { goTo state thread phase with queue := queue } ∧
      ((object α).shared Thread).Answers (taken state) [] (taken { goTo state thread phase with queue := queue }) := by
  refine ⟨exclusive.stay (stays.trans inside.symm) (fun _ => inside) some, answers_none ?_⟩
  rw [exclusive.taken_inside inside, update_status same, items, flag, ← exclusive.obj_inside inside]

/-- A step without the mutex. -/
theorem taken_turn (exclusive : Exclusive state) (outside : (state.phase thread).holds = false)
    (same : phase.status = (state.phase thread).status) : taken (goTo state thread phase) = taken state := by
  rw [exclusive.taken_outside outside, update_status same]

theorem exclusive_turn (exclusive : Exclusive state) (outside : (state.phase thread).holds = false)
    (stays : phase.holds = false) :
    Exclusive (goTo state thread phase) := by
  refine exclusive.turn (stays.trans outside.symm) fun isPopping => ?_
  rw [isPopping] at stays
  contradiction

theorem step_acquire (exclusive : Exclusive state) (free : state.mutex = none)
    (isCalled : (state.phase thread).status = .called call) :
    Exclusive { goTo state thread (.testing call) with mutex := some thread } ∧
      ((object α).shared Thread).Answers (taken state) []
        (taken { goTo state thread (.testing call) with mutex := some thread }) := by
  have status := @update_status α Thread state thread (.testing call) _ isCalled.symm
  exact ⟨exclusive.acquire free call, answers_none ((taken_acquire free call).trans (congrArg (Shared.mk _) status))⟩

theorem step_release (exclusive : Exclusive state) (inside : (state.phase thread).holds = true)
    (nothing : (state.phase thread).upcoming = []) (releases : phase.holds = false)
    (same : phase.status = (state.phase thread).status) :
    Exclusive { goTo state thread phase with mutex := none } ∧
      ((object α).shared Thread).Answers (taken state) [] (taken { goTo state thread phase with mutex := none }) := by
  have obj : state.queue = (taken state).obj := by
    rw [exclusive.obj_inside inside, nothing, List.append_nil]
  refine ⟨exclusive.release inside releases, answers_none ?_⟩
  rw [taken_release, update_status same]
  exact congrArg (Shared.mk · _) obj

/-- If no thread can go on, none holds the mutex. -/
theorem free_of_stuck (exclusive : Exclusive state) (stuck : ∀ thread, run state thread = none) :
    state.mutex = none := by
  cases isOwner : state.mutex with
  | none => rfl
  | some owner =>
    have holds := (exclusive.owner owner).mpr isOwner
    have halts := stuck owner
    unfold run at halts
    cases isPhase : state.phase owner with
    | testing | pushing =>
      simp only [isPhase] at halts
      contradiction
    | batching items =>
      cases items <;> simp only [isPhase] at halts <;> contradiction
    | popping =>
      obtain ⟨item, rest, isQueue⟩ := List.exists_cons_of_ne_nil (exclusive.popping owner isPhase)
      simp only [isPhase, isQueue] at halts
      contradiction
    | unlocking notice =>
      cases notice <;> simp only [isPhase] at halts <;> contradiction
    | _ =>
      rw [isPhase] at holds
      contradiction

end BackTester.BlockingQueue
