import BackTester.Model.Common.QueueObserver
import BackTester.Soundness.LockFreeQueue

/-! # What `size` returns

The masked difference of the two indices is that of the counts behind them, one read after the
other. So it is the size of the queue at some moment of the call where between the two loads no slot
is freed after an item was published. Otherwise it is less than the queue ever held since the first
load, or the tail has overtaken the head that was loaded and the difference wraps.
-/

namespace BackTester.LockFreeQueue

open CounterPair

variable {α : Type*} {capacity : RingCapacity} {state after : State α} {observed next : Observed α}
  {result : UInt64} {span : Span} {last pair : CounterPair}

theorem produce_counts (step : produce capacity state = some after) :
    after.taken = state.taken ∧ state.pushed <+: after.pushed := by
  obtain ⟨queue, producer, consumer, pushed, taken, popped, results, entry, entered⟩ := state
  cases producer with
  | idle => contradiction
  | pushStore | batchStore =>
    obtain rfl := Option.some.inj step
    exact ⟨rfl, List.prefix_append _ _⟩
  | _ =>
    obtain rfl := Option.some.inj step
    exact ⟨rfl, List.prefix_refl _⟩

theorem consume_counts (step : consume capacity state = some after) :
    after.pushed = state.pushed ∧ (after.taken = state.taken ∨ ∃ item, after.taken = state.taken ++ [item]) := by
  obtain ⟨queue, producer, consumer, pushed, taken, popped, results, entry, entered⟩ := state
  cases consumer with
  | idle => contradiction
  | store t item =>
    obtain rfl := Option.some.inj step
    exact ⟨rfl, .inr ⟨item, rfl⟩⟩
  | recheckHead t =>
    by_cases empty : t = queue.head
    · obtain rfl := Option.some.inj ((if_pos empty).symm.trans step)
      exact ⟨rfl, .inl rfl⟩
    · obtain rfl := Option.some.inj ((if_neg empty).symm.trans step)
      exact ⟨rfl, .inl rfl⟩
  | _ =>
    obtain rfl := Option.some.inj step
    exact ⟨rfl, .inl rfl⟩

/-- A step publishes items or frees one slot, if it does either. -/
theorem step_moment {choice : Move α} (step : move capacity state choice = some after) :
    Step (moment state) (moment after) := by
  cases choice with
  | enter call =>
    cases idle : state.producer <;> simp only [move, idle, reduceCtorEq, Option.some_inj] at step
    subst step
    exact .inl ⟨rfl, le_refl _⟩
  | produce =>
    obtain ⟨same, more⟩ := produce_counts step
    exact .inl ⟨congrArg List.length same, more.length_le⟩
  | pop =>
    cases idle : state.consumer <;> simp only [move, idle, reduceCtorEq, Option.some_inj] at step
    subst step
    exact .inl ⟨rfl, le_refl _⟩
  | consume =>
    obtain ⟨same, none | ⟨item, one⟩⟩ := consume_counts step
    · exact .inl ⟨congrArg List.length none, (congrArg List.length same).ge⟩
    · refine .inr ⟨congrArg List.length same, ?_⟩
      rw [moment, one, List.length_append]
      rfl

/-- The moments since the load of `head_` follow one another up to `last`, and the queue never held more than it can. -/
structure Seen (capacity : RingCapacity) (span : Span) (last : CounterPair) : Prop where
  steps : (span.loaded :: span.late).IsChain Step
  isLast : (span.loaded :: span.late).getLast? = some last
  bounded : ∀ pair ∈ span.loaded :: span.late, pair.left ≤ pair.came ∧ pair.came < pair.left + capacity.size

theorem moment_bounded (reached : (system capacity α).Reachable state) :
    (moment state).left ≤ (moment state).came ∧ (moment state).came < (moment state).left + capacity.size := by
  obtain ⟨freed, seen, holds⟩ := agrees_reachable reached
  have few := (safe_reachable reached).outstanding
  have some := capacity.size_pos
  refine ⟨holds.taken_le.trans holds.seen_le, ?_⟩
  change state.pushed.length < state.taken.length + capacity.size
  omega

theorem seen_load (reached : (system capacity α).Reachable state) (early : List CounterPair) :
    Seen capacity ⟨early, moment state, []⟩ (moment state) where
  steps := List.isChain_singleton _
  isLast := rfl
  bounded other isIn := by
    obtain rfl := List.mem_singleton.mp isIn
    exact moment_bounded reached

theorem Seen.pass (seen : Seen capacity span (moment state)) (step : Step (moment state) (moment after))
    (reached : (system capacity α).Reachable after) :
    Seen capacity { span with late := span.late ++ [moment after] } (moment after) where
  steps := by
    rw [← List.cons_append]
    apply seen.steps.append (List.isChain_singleton _)
    intro x isLast y isNext
    rw [seen.isLast] at isLast
    obtain rfl := Option.some.inj isLast
    obtain rfl := Option.some.inj isNext
    exact step
  isLast := by
    rw [← List.cons_append]
    exact List.getLast?_concat
  bounded other isIn := by
    rw [← List.cons_append] at isIn
    rcases List.mem_append.mp isIn with before | isEnd
    · exact seen.bounded other before
    · obtain rfl := List.mem_singleton.mp isEnd
      exact moment_bounded reached

/-- What the observer knows in the middle of a call, and what its calls have returned. -/
structure Observes (capacity : RingCapacity) (observed : Observed α) : Prop where
  reached : (system capacity α).Reachable observed.state
  since : ∀ h, observed.observer = .loadTail h → h = capacity.slot observed.span.loaded.came ∧
    Seen capacity observed.span (moment observed.state)
  returned : ∀ result span, (result, span) ∈ observed.returned → ∃ last, Seen capacity span last ∧
    result = masked capacity (capacity.slot span.loaded.came) (capacity.slot last.left)

theorem observes_start : Observes capacity ({} : Observed α) where
  reached := .of_initial rfl
  since h phase := by contradiction
  returned result span isCall := by contradiction

namespace Observes

variable (holds : Observes capacity observed)
include holds

theorem pass {choice : Move α} (step : move capacity observed.state choice = some after) :
    Observes capacity (LockFreeQueue.pass observed after) where
  reached := holds.reached.step ⟨choice, step⟩
  since h phase := by
    have phase : observed.observer = .loadTail h := phase
    obtain ⟨isHead, seen⟩ := holds.since h phase
    unfold LockFreeQueue.pass
    rw [phase]
    exact ⟨isHead, seen.pass (step_moment step) (holds.reached.step ⟨choice, step⟩)⟩
  returned := holds.returned

theorem sizeImpl (step : LockFreeQueue.sizeImpl capacity observed = some next) : Observes capacity next := by
  obtain ⟨freed, seen, agrees⟩ := agrees_reachable holds.reached
  unfold LockFreeQueue.sizeImpl at step
  split at step
  · contradiction
  · obtain rfl := Option.some.inj step
    refine ⟨holds.reached, ?_, holds.returned⟩
    rintro h phase
    obtain rfl := Observer.loadTail.inj phase
    exact ⟨agrees.head, seen_load holds.reached _⟩
  · next h phase =>
    obtain rfl := Option.some.inj step
    obtain ⟨isHead, seen⟩ := holds.since h phase
    refine ⟨holds.reached, fun h phase => by contradiction, ?_⟩
    intro result span isCall
    rcases List.mem_append.mp isCall with before | isNew
    · exact holds.returned result span before
    · obtain ⟨rfl, rfl⟩ := Prod.mk.inj (List.mem_singleton.mp isNew)
      exact ⟨_, seen, by rw [isHead, agrees.tail]; rfl⟩

theorem move {choice : ObservedMove α} (step : observedMove capacity observed choice = some next) :
    Observes capacity next := by
  cases choice with
  | queue choice =>
    obtain ⟨after, isStep, rfl⟩ := Option.map_eq_some_iff.mp step
    exact holds.pass isStep
  | size =>
    cases idle : observed.observer <;> simp only [observedMove, idle, reduceCtorEq, Option.some_inj] at step
    subst step
    exact ⟨holds.reached, fun h phase => by contradiction, holds.returned⟩
  | observe => exact holds.sizeImpl step

end Observes

theorem observes_reachable (reached : (observedSystem capacity α).Reachable observed) : Observes capacity observed := by
  apply reached.invariant
  · rintro _ rfl
    exact observes_start
  · rintro before next holds ⟨choice, step⟩
    exact holds.move step

/-- The masked difference is the difference of the counts, where no more slots were freed than items
had been published. -/
theorem toNat_masked_slots {came left : ℕ} (le : left ≤ came) (near : came < left + capacity.size) :
    (masked capacity (capacity.slot came) (capacity.slot left)).toNat = came - left := by
  have isSlot : masked capacity (capacity.slot came) (capacity.slot left) = capacity.slot (came - left) := by
    apply capacity.masked_eq_slot
    rw [capacity.residue_sub, capacity.residue_slot, capacity.residue_slot, Nat.cast_sub le]
  rw [isSlot]
  exact capacity.toNat_slot_of_lt (by omega)

/-- All moments of the call. -/
def Span.moments (span : Span) : List CounterPair := span.early ++ span.loaded :: span.late

/-- The result is the number of items that were published and not read at some moment of the call. -/
def Exact (result : UInt64) (span : Span) : Prop := ∃ pair ∈ span.moments, result.toNat = pair.present

/-- Between the two loads no slot is freed after an item was published. -/
def Span.Calm (span : Span) : Prop := LeavesFirst span.loaded.came (span.loaded :: span.late)

/-- An item was taken before the load of `tail_` that had not been published at the load of `head_`. -/
def Span.Overtaken (span : Span) : Prop := ∃ pair ∈ span.late, span.loaded.came < pair.left

theorem Seen.near (seen : Seen capacity span last) (le : last.left ≤ span.loaded.came) :
    (masked capacity (capacity.slot span.loaded.came) (capacity.slot last.left)).toNat =
      span.loaded.came - last.left := by
  have first := seen.bounded span.loaded List.mem_cons_self
  have since := later_of_first seen.steps (List.mem_of_getLast? seen.isLast)
  exact toNat_masked_slots le (first.2.trans_le (Nat.add_le_add_right since.2 _))

theorem Seen.le_of_not_overtaken (seen : Seen capacity span last) (behind : ¬span.Overtaken) :
    last.left ≤ span.loaded.came := by
  rcases List.mem_cons.mp (List.mem_of_getLast? seen.isLast) with rfl | isLate
  · exact (seen.bounded _ List.mem_cons_self).1
  · exact not_lt.mp fun less => behind ⟨last, isLate, less⟩

/-- In every run, a call is exact between whose loads no slot is freed after an item was published.
Any other returns less than the queue held at every moment since the first load, unless the tail has
overtaken the head that it loaded. -/
theorem size_reachable (reached : (observedSystem capacity α).Reachable observed)
    (isCall : (result, span) ∈ observed.returned) :
    (span.Calm → Exact result span) ∧
      (¬span.Calm → ¬span.Overtaken → ∀ pair ∈ span.loaded :: span.late, result.toNat < pair.present) := by
  obtain ⟨last, seen, rfl⟩ := (observes_reachable reached).returned result span isCall
  constructor
  · intro calm
    obtain ⟨pair, isIn, isCame, isLeft⟩ := exists_of_leavesFirst seen.steps seen.isLast calm
    have le : last.left ≤ span.loaded.came := by
      rw [← isCame, ← isLeft]
      exact (seen.bounded pair isIn).1
    refine ⟨pair, List.mem_append_right _ isIn, ?_⟩
    rw [seen.near le, present, isCame, isLeft]
  · intro mixed behind pair isIn
    have le := seen.le_of_not_overtaken behind
    rw [seen.near le]
    exact lt_present seen.steps seen.isLast mixed le isIn

/-- A pop between the two loads. -/
def poppedMeanwhile : List (ObservedMove ℕ) :=
  [.queue (.enter (.push 5)), .queue .produce, .queue .produce, .queue .produce, .queue .produce, .size, .observe,
    .queue .pop, .queue .consume, .queue .consume, .queue .consume, .queue .consume, .observe]

theorem size_reachable_poppedMeanwhile : ∃ observed result span,
    poppedMeanwhile.foldlM (observedMove twoSlots) {} = some observed ∧ (result, span) ∈ observed.returned ∧ span.Calm ∧
      ((span.Calm → Exact result span) ∧
        (¬span.Calm → ¬span.Overtaken → ∀ pair ∈ span.loaded :: span.late, result.toNat < pair.present)) := by
  have run : (poppedMeanwhile.foldlM (observedMove twoSlots) {}).map (·.returned) =
      some [(0, ⟨[⟨1, 0⟩], ⟨1, 0⟩, [⟨1, 0⟩, ⟨1, 0⟩, ⟨1, 0⟩, ⟨1, 0⟩, ⟨1, 1⟩]⟩)] := rfl
  obtain ⟨observed, reaches, returned⟩ := Option.map_eq_some_iff.mp run
  have isCall : (0, _) ∈ observed.returned := returned ▸ List.mem_singleton_self _
  refine ⟨observed, 0, _, reaches, isCall, ?_,
    size_reachable (TransitionSystem.reachable_ofMoves poppedMeanwhile reaches) isCall⟩
  unfold Span.Calm
  decide

def fourSlots : RingCapacity := ⟨2, Nat.le_succ 1, by decide⟩

/-- An item is pushed and popped between the two loads. -/
def pushedAndPopped : List (ObservedMove ℕ) :=
  [.size, .observe, .queue (.enter (.push 5)), .queue .produce, .queue .produce, .queue .produce, .queue .produce,
    .queue .pop, .queue .consume, .queue .consume, .queue .consume, .queue .consume, .observe]

/-- The queue held no item or one, and its size is three. -/
theorem not_exact : ¬∀ (capacity : RingCapacity) (observed : Observed ℕ),
    (observedSystem capacity ℕ).Reachable observed →
    ∀ result span, (result, span) ∈ observed.returned → Exact result span := by
  intro always
  have run : (pushedAndPopped.foldlM (observedMove fourSlots) {}).map (·.returned) =
      some [(3, ⟨[⟨0, 0⟩], ⟨0, 0⟩,
        [⟨0, 0⟩, ⟨0, 0⟩, ⟨0, 0⟩, ⟨0, 0⟩, ⟨1, 0⟩, ⟨1, 0⟩, ⟨1, 0⟩, ⟨1, 0⟩, ⟨1, 0⟩, ⟨1, 1⟩]⟩)] := rfl
  obtain ⟨observed, reaches, returned⟩ := Option.map_eq_some_iff.mp run
  have isCall : (3, _) ∈ observed.returned := returned ▸ List.mem_singleton_self _
  have exact := always fourSlots observed (TransitionSystem.reachable_ofMoves pushedAndPopped reaches) 3 _ isCall
  unfold Exact Span.moments at exact
  revert exact
  decide

end BackTester.LockFreeQueue
