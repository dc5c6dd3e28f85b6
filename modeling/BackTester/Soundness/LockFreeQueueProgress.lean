import BackTester.Soundness.LockFreeQueue
import BackTester.ToMathlib.RunCost

/-! # Every call of the lock-free queue ends

A thread waits only while its call cannot be served. A push that there is room for, and a pop that
there is an item for or that finds the queue closed, ends after a bounded number of its own steps,
whatever the other thread does between them. The two threads never wait for each other.
-/

namespace BackTester.LockFreeQueue

variable {α : Type*} {capacity : RingCapacity} {state after : State α} {freed seen : ℕ}

/-- The items the call is to push. -/
def Producer.asks : Producer α → ℕ
  | .idle | .close | .threw _ => 0
  | .pushClosed _ | .pushHead _ | .pushSpinClosed _ _ | .pushSpinTail _ _ | .pushWrite _ _ | .pushStore _ _ => 1
  | .batchClosed items | .batchHead items | .batchSpinClosed items _ | .batchSpinTail items _ | .batchWrite items _ _
  | .batchStore items _ => items.length

/-- The steps that are left of a call that has room. -/
def Producer.cost : Producer α → ℕ
  | .idle => 0
  | .close | .threw _ | .pushStore _ _ | .batchStore _ _ => 1
  | .pushWrite _ _ => 2
  | .pushSpinTail _ _ => 3
  | .pushSpinClosed _ _ => 4
  | .pushHead _ => 5
  | .pushClosed _ => 6
  | .batchWrite items _ i => 1 + (items.length - i)
  | .batchSpinTail items _ => 2 + items.length
  | .batchSpinClosed items _ => 3 + items.length
  | .batchHead items => 4 + items.length
  | .batchClosed items => 5 + items.length

theorem Producer.cost_le (producer : Producer α) : producer.cost ≤ 5 + producer.asks := by
  cases producer <;> simp only [cost, asks] <;> omega

/-- The call's items fit behind those that have not been taken, or it is a batch that never fits. -/
def HasRoom (capacity : RingCapacity) (state : State α) : Prop :=
  state.producer.asks < capacity.size → state.pushed.length + state.producer.asks < state.taken.length + capacity.size

theorem cost_pushGuard (value : α) (h tailCached : UInt64) : (pushGuard capacity value h tailCached).cost ≤ 4 := by
  unfold pushGuard
  split <;> simp [Producer.cost]

/-- A push that sees the real tail sees its room. -/
theorem pushGuard_of_room (holds : Agrees capacity state freed seen) {value : α} {h : UInt64}
    (isHead : h = capacity.slot state.pushed.length)
    (room : state.pushed.length + 1 < state.taken.length + capacity.size) :
    pushGuard capacity value h state.queue.tail = .pushWrite value h := by
  have le := holds.taken_le.trans holds.seen_le
  refine if_neg ?_
  rw [isHead, capacity.next_slot, holds.tail]
  intro same
  have := (capacity.slot_eq_iff (by omega) (by omega)).mp same.symm
  omega

theorem cost_batchGuard (items : List α) (h tailCached : UInt64) :
    (batchGuard capacity items h tailCached).cost ≤ 3 + items.length := by
  unfold batchGuard
  split <;> simp only [Producer.cost] <;> omega

theorem batchGuard_of_room (holds : Agrees capacity state freed seen) {items : List α} {h : UInt64}
    (isHead : h = capacity.slot state.pushed.length) (short : items.length < capacity.size)
    (room : state.pushed.length + items.length < state.taken.length + capacity.size) :
    batchGuard capacity items h state.queue.tail = .batchWrite items h 0 := by
  have le := holds.taken_le.trans holds.seen_le
  have counted : (UInt64.ofNat items.length).toNat = items.length :=
    UInt64.toNat_ofNat_of_lt' (short.trans capacity.size_lt)
  refine if_neg ?_
  rw [isHead, holds.tail, free, capacity.slot_room (by omega), UInt64.lt_iff_toNat_lt,
    counted, capacity.toNat_slot_of_lt (by omega)]
  omega

theorem asks_pushGuard (value : α) (h tailCached : UInt64) : (pushGuard capacity value h tailCached).asks = 1 := by
  unfold pushGuard
  split <;> rfl

theorem asks_batchGuard (items : List α) (h tailCached : UInt64) :
    (batchGuard capacity items h tailCached).asks = items.length := by
  unfold batchGuard
  split <;> rfl

/-- The items asked for stay, until the call has pushed them or ends without. -/
theorem produce_asks (step : produce capacity state = some after) : after.taken = state.taken ∧
    (after.producer.asks = 0 ∨ (after.producer.asks = state.producer.asks ∧ after.pushed = state.pushed)) := by
  unfold produce at step
  cases isPhase : state.producer with
  | idle =>
    rw [isPhase] at step
    contradiction
  | pushClosed | pushSpinClosed | batchSpinClosed =>
    simp only [isPhase, Option.some_inj] at step
    subst step
    refine ⟨rfl, ?_⟩
    dsimp only
    split
    · exact .inl rfl
    · exact .inr ⟨rfl, rfl⟩
  | pushHead | pushSpinTail =>
    simp only [isPhase, Option.some_inj] at step
    subst step
    exact ⟨rfl, .inr ⟨asks_pushGuard _ _ _, rfl⟩⟩
  | batchHead | batchSpinTail =>
    simp only [isPhase, Option.some_inj] at step
    subst step
    exact ⟨rfl, .inr ⟨asks_batchGuard _ _ _, rfl⟩⟩
  | batchClosed items =>
    simp only [isPhase, Option.some_inj] at step
    subst step
    refine ⟨rfl, ?_⟩
    dsimp only
    split
    · exact .inl rfl
    · split
      · exact .inl rfl
      · split
        · exact .inl rfl
        · exact .inr ⟨rfl, rfl⟩
  | pushWrite =>
    simp only [isPhase, Option.some_inj] at step
    subst step
    exact ⟨rfl, .inr ⟨rfl, rfl⟩⟩
  | batchWrite items h i =>
    simp only [isPhase, Option.some_inj] at step
    subst step
    refine ⟨rfl, .inr ⟨?_, rfl⟩⟩
    dsimp only
    split <;> rfl
  | pushStore | batchStore | close | threw =>
    simp only [isPhase, Option.some_inj] at step
    subst step
    exact ⟨rfl, .inl rfl⟩

theorem Agrees.hasRoom (holds : Agrees capacity state freed seen) (none : state.producer.asks = 0) :
    HasRoom capacity state := by
  intro _
  have := holds.room
  have := holds.freed_le
  omega

theorem HasRoom.produce (holds : Agrees capacity state freed seen) (room : HasRoom capacity state)
    (step : produce capacity state = some after) : HasRoom capacity after := by
  obtain ⟨sameTaken, none | ⟨sameAsks, samePushed⟩⟩ := produce_asks step
  · obtain ⟨freed', holds'⟩ := holds.produce step
    exact holds'.hasRoom none
  · unfold HasRoom
    rw [sameTaken, sameAsks, samePushed]
    exact room

/-- With room every step of the call brings it nearer to its end. -/
theorem cost_produce (holds : Agrees capacity state freed seen) (room : HasRoom capacity state)
    (step : produce capacity state = some after) : after.producer.cost < state.producer.cost := by
  have two := capacity.two_le_size
  have locals := holds.producer
  unfold produce at step
  unfold HasRoom at room
  cases isPhase : state.producer with
  | idle =>
    rw [isPhase] at step
    contradiction
  | pushClosed | pushSpinClosed | batchSpinClosed =>
    simp only [isPhase, Option.some_inj] at step
    subst step
    dsimp only
    split <;> simp only [Producer.cost] <;> omega
  | pushHead =>
    simp only [isPhase, Option.some_inj] at step
    subst step
    exact Nat.lt_of_le_of_lt (cost_pushGuard _ _ _) (by simp [Producer.cost])
  | pushSpinTail value h =>
    rw [isPhase] at locals room
    simp only [isPhase, Option.some_inj] at step
    subst step
    rw [pushGuard_of_room holds locals (room (by simp only [Producer.asks]; omega))]
    simp [Producer.cost]
  | batchHead =>
    simp only [isPhase, Option.some_inj] at step
    subst step
    exact Nat.lt_of_le_of_lt (cost_batchGuard _ _ _) (by simp only [Producer.cost]; omega)
  | batchSpinTail items h =>
    rw [isPhase] at locals room
    simp only [isPhase, Option.some_inj] at step
    subst step
    rw [batchGuard_of_room holds locals.1 locals.2.2 (room locals.2.2)]
    simp only [Producer.cost]
    omega
  | batchClosed items =>
    simp only [isPhase, Option.some_inj] at step
    subst step
    dsimp only
    split
    · simp only [Producer.cost]; omega
    · split
      · simp only [Producer.cost]; omega
      · split <;> simp only [Producer.cost] <;> omega
  | batchWrite items h i =>
    rw [isPhase] at locals
    simp only [isPhase, Option.some_inj] at step
    subst step
    have within := locals.2.1
    dsimp only
    split <;> simp only [Producer.cost] <;> omega
  | pushWrite | pushStore | batchStore | close | threw =>
    simp only [isPhase, Option.some_inj] at step
    subst step
    simp [Producer.cost]

/-- The steps that are left of a pop that is served, where another look at `head_` is known to be
`spin` from the end. -/
def Consumer.cost (spin : ℕ) : Consumer α → ℕ
  | .idle => 0
  | .call _ => 1
  | .store _ _ => 2
  | .read _ => 3
  | .recheckHead _ => 4
  | .spinClosed _ => 5
  | .spinHead _ => spin
  | .loadHead _ => 7
  | .loadTail => 8

/-- The pop has not yet found an item. -/
def Consumer.awaits : Consumer α → Bool
  | .loadTail | .loadHead _ | .spinClosed _ | .recheckHead _ | .spinHead _ => true
  | .idle | .read _ | .store _ _ | .call _ => false

/-- Why the pop is served: there is an item for it, or it will see that the queue is closed. -/
def Ready (spin : ℕ) (state : State α) : Prop :=
  (spin = 4 ∧ (state.consumer.awaits = true → state.taken.length < state.pushed.length)) ∨
    (spin = 6 ∧ state.queue.closed = true)

theorem Consumer.cost_le {spin : ℕ} (small : spin ≤ 8) (consumer : Consumer α) : consumer.cost spin ≤ 8 := by
  cases consumer <;> simp only [cost] <;> omega

/-- A head that is apart from the tail is seen to be. -/
theorem tail_ne_head (holds : Agrees capacity state freed seen) {t : UInt64}
    (isTail : t = capacity.slot state.taken.length)
    (some : state.taken.length < state.pushed.length) : t ≠ state.queue.head := by
  have room := holds.room
  have := holds.freed_le
  rw [isTail, holds.head]
  intro same
  have := (capacity.slot_eq_iff (by omega) (by omega)).mp same
  omega

theorem consume_frame (step : consume capacity state = some after) :
    after.producer = state.producer ∧ after.pushed = state.pushed ∧ after.queue.closed = state.queue.closed ∧
      state.taken.length ≤ after.taken.length ∧
      (after.consumer.awaits = true → state.consumer.awaits = true ∧ after.taken = state.taken) := by
  unfold consume at step
  cases isPhase : state.consumer with
  | idle =>
    rw [isPhase] at step
    contradiction
  | recheckHead t =>
    simp only [isPhase] at step
    split at step
    · obtain rfl := Option.some.inj step
      exact ⟨rfl, rfl, rfl, le_refl _, fun awaits => ⟨rfl, rfl⟩⟩
    · obtain rfl := Option.some.inj step
      exact ⟨rfl, rfl, rfl, le_refl _, fun awaits => ⟨rfl, rfl⟩⟩
  | store t item =>
    simp only [isPhase, Option.some_inj] at step
    subst step
    exact ⟨rfl, rfl, rfl, by simp, fun awaits => by contradiction⟩
  | loadTail | loadHead | spinClosed | spinHead =>
    simp only [isPhase, Option.some_inj] at step
    subst step
    exact ⟨rfl, rfl, rfl, le_refl _, fun awaits => ⟨rfl, rfl⟩⟩
  | read | call =>
    simp only [isPhase, Option.some_inj] at step
    subst step
    exact ⟨rfl, rfl, rfl, le_refl _, fun awaits => by contradiction⟩

theorem produce_frame (step : produce capacity state = some after) :
    after.consumer = state.consumer ∧ (state.queue.closed = true → after.queue.closed = true) ∧
      state.pushed.length ≤ after.pushed.length ∧ after.taken = state.taken := by
  unfold produce at step
  cases isPhase : state.producer with
  | idle =>
    rw [isPhase] at step
    contradiction
  | pushStore | batchStore =>
    simp only [isPhase, Option.some_inj] at step
    subst step
    exact ⟨rfl, id, by simp, rfl⟩
  | close =>
    simp only [isPhase, Option.some_inj] at step
    subst step
    exact ⟨rfl, fun _ => rfl, le_refl _, rfl⟩
  | _ =>
    simp only [isPhase, Option.some_inj] at step
    subst step
    exact ⟨rfl, id, le_refl _, rfl⟩

/-- A pop that is served comes nearer to its end with every step. -/
theorem cost_consume {spin : ℕ} (holds : Agrees capacity state freed seen) (ready : Ready spin state)
    (step : consume capacity state = some after) : after.consumer.cost spin < state.consumer.cost spin := by
  have locals := holds.consumer
  have isApart := @tail_ne_head α capacity state freed seen holds
  unfold consume at step
  unfold Ready at ready
  cases isPhase : state.consumer with
  | idle =>
    rw [isPhase] at step
    contradiction
  | loadTail | loadHead =>
    simp only [isPhase, Option.some_inj] at step
    subst step
    dsimp only
    split <;> simp only [Consumer.cost] <;> omega
  | spinClosed t =>
    simp only [isPhase, Option.some_inj] at step
    subst step
    dsimp only
    split
    · simp [Consumer.cost]
    · next opened =>
      rcases ready with ⟨rfl, _⟩ | ⟨_, closed⟩
      · simp [Consumer.cost]
      · exact absurd closed opened
  | recheckHead t =>
    simp only [isPhase] at step
    split at step <;> obtain rfl := Option.some.inj step <;> simp [Consumer.cost]
  | spinHead t =>
    rw [isPhase] at locals ready
    simp only [isPhase, Option.some_inj] at step
    subst step
    dsimp only
    rcases ready with ⟨rfl, supplied⟩ | ⟨rfl, _⟩
    · rw [if_neg (isApart locals (supplied rfl))]
      simp [Consumer.cost]
    · split <;> simp [Consumer.cost]
  | read | store | call =>
    simp only [isPhase, Option.some_inj] at step
    subst step
    simp [Consumer.cost]

def Move.isProduce : Move α → Bool
  | .produce => true
  | _ => false

def Move.isConsume : Move α → Bool
  | .consume => true
  | _ => false

theorem Ready.step {spin : ℕ} (ready : Ready spin state) {choice : Move α} (noNew : choice ≠ .pop)
    (step : move capacity state choice = some after) : Ready spin after := by
  cases choice with
  | pop => exact absurd rfl noNew
  | enter call =>
    cases idle : state.producer <;> simp only [move, idle, reduceCtorEq, Option.some_inj] at step
    subst step
    exact ready
  | produce =>
    obtain ⟨sameConsumer, stays, more, sameTaken⟩ := produce_frame step
    rcases ready with ⟨isSpin, supplied⟩ | ⟨isSpin, closed⟩
    · refine .inl ⟨isSpin, fun awaits => ?_⟩
      rw [sameConsumer] at awaits
      rw [sameTaken]
      exact (supplied awaits).trans_le more
    · exact .inr ⟨isSpin, stays closed⟩
  | consume =>
    obtain ⟨_, samePushed, sameClosed, _, same⟩ := consume_frame step
    rcases ready with ⟨isSpin, supplied⟩ | ⟨isSpin, closed⟩
    · refine .inl ⟨isSpin, fun awaits => ?_⟩
      obtain ⟨awaited, sameTaken⟩ := same awaits
      rw [sameTaken, samePushed]
      exact supplied awaited
    · exact .inr ⟨isSpin, sameClosed.trans closed⟩

/-- What both threads see to, however their steps are interleaved. -/
structure Responsive (capacity : RingCapacity) (state : State α) : Prop where
  /-- A call of the producer that has room ends after so many of its steps. -/
  push : HasRoom capacity state →
    ∀ (moves : List (Move α)) (after : State α), (∀ choice ∈ moves, ∀ call, choice ≠ .enter call) →
    moves.foldlM (move capacity) state = some after → moves.countP Move.isProduce ≤ 5 + state.producer.asks
  /-- A pop ends after so many of its steps if there is an item or the queue is closed. -/
  pop : state.taken.length < state.pushed.length ∨ state.queue.closed = true →
    ∀ (moves : List (Move α)) (after : State α),
    (∀ choice ∈ moves, choice ≠ .pop) → moves.foldlM (move capacity) state = some after →
    moves.countP Move.isConsume ≤ 8
  /-- Where a call of the producer has to wait, there is an item for the consumer. -/
  apart : HasRoom capacity state ∨ state.taken.length < state.pushed.length

theorem lowers_producer (holds : Agrees capacity state freed seen) (room : HasRoom capacity state) {choice : Move α}
    (noNew : ∀ call, choice ≠ .enter call) (step : move capacity state choice = some after) : HasRoom capacity after ∧
      (if choice.isProduce then after.producer.cost < state.producer.cost
        else after.producer.cost ≤ state.producer.cost) := by
  cases choice with
  | enter call => exact absurd rfl (noNew call)
  | produce => exact ⟨room.produce holds step, cost_produce holds room step⟩
  | pop =>
    cases idle : state.consumer <;> simp only [move, idle, reduceCtorEq, Option.some_inj] at step
    subst step
    exact ⟨room, le_refl _⟩
  | consume =>
    obtain ⟨same, samePushed, _, more, _⟩ := consume_frame step
    refine ⟨fun short => ?_, (congrArg Producer.cost same).le⟩
    rw [same] at short ⊢
    have := room short
    rw [samePushed]
    omega

theorem lowers_consumer {spin : ℕ} (holds : Agrees capacity state freed seen) (ready : Ready spin state)
    {choice : Move α} (noNew : choice ≠ .pop) (step : move capacity state choice = some after) : Ready spin after ∧
      (if choice.isConsume then after.consumer.cost spin < state.consumer.cost spin
        else after.consumer.cost spin ≤ state.consumer.cost spin) := by
  refine ⟨ready.step noNew step, ?_⟩
  cases choice with
  | pop => exact absurd rfl noNew
  | consume => exact cost_consume holds ready step
  | produce => exact (congrArg (Consumer.cost spin) (produce_frame step).1).le
  | enter call =>
    cases idle : state.producer <;> simp only [move, idle, reduceCtorEq, Option.some_inj] at step
    subst step
    exact le_refl _

theorem responsive_reachable (reached : (system capacity α).Reachable state) : Responsive capacity state := by
  obtain ⟨freed, seen, holds⟩ := agrees_reachable reached
  refine ⟨fun room moves after noNew run => ?_, fun supplied moves after noNew run => ?_, ?_⟩
  · have keeps : ∀ before choice after, ((∃ freed seen, Agrees capacity before freed seen) ∧ HasRoom capacity before) →
        (∀ call : Call α, choice ≠ .enter call) → move capacity before choice = some after →
        ((∃ freed seen, Agrees capacity after freed seen) ∧ HasRoom capacity after) ∧
          (if choice.isProduce then after.producer.cost < before.producer.cost
            else after.producer.cost ≤ before.producer.cost) := by
      rintro before choice after ⟨⟨freed, seen, holds⟩, room⟩ noNew step
      obtain ⟨room', lower⟩ := lowers_producer holds room noNew step
      exact ⟨⟨holds.move step, room'⟩, lower⟩
    have few := TransitionSystem.countP_le_of_cost keeps ⟨⟨freed, seen, holds⟩, room⟩ moves noNew run
    have := state.producer.cost_le
    omega
  · obtain ⟨spin, small, ready⟩ : ∃ spin ≤ 8, Ready spin state := by
      rcases supplied with some | closed
      · exact ⟨4, by decide, .inl ⟨rfl, fun _ => some⟩⟩
      · exact ⟨6, by decide, .inr ⟨rfl, closed⟩⟩
    have keeps :
        ∀ (before : State α) choice after, ((∃ freed seen, Agrees capacity before freed seen) ∧ Ready spin before) →
        choice ≠ .pop → move capacity before choice = some after →
        ((∃ freed seen, Agrees capacity after freed seen) ∧ Ready spin after) ∧
          (if choice.isConsume then after.consumer.cost spin < before.consumer.cost spin
            else after.consumer.cost spin ≤ before.consumer.cost spin) := by
      rintro before choice after ⟨⟨freed, seen, holds⟩, ready⟩ noNew step
      obtain ⟨ready', lower⟩ := lowers_consumer holds ready noNew step
      exact ⟨⟨holds.move step, ready'⟩, lower⟩
    have few := TransitionSystem.countP_le_of_cost keeps ⟨⟨freed, seen, holds⟩, ready⟩ moves noNew run
    have := state.consumer.cost_le small
    omega
  · rcases Nat.lt_or_ge state.taken.length state.pushed.length with some | all
    · exact .inr some
    · refine .inl fun short => ?_
      have := holds.taken_le.trans holds.seen_le
      omega

/-- The ring is full and the producer waits, and the consumer has begun a pop. -/
def fullRing : List (Move ℕ) :=
  [.enter (.push 5), .produce, .produce, .produce, .produce, .enter (.push 6), .produce,
    .produce, .produce, .produce, .pop]

theorem responsive_reachable_fullRing : ∃ state, fullRing.foldlM (move ⟨1, le_refl 1, by decide⟩) {} = some state ∧
    state.producer = .pushSpinClosed 6 1 ∧ state.consumer = .loadTail ∧ Responsive ⟨1, le_refl 1, by decide⟩ state :=
  ⟨_, rfl, rfl, rfl, responsive_reachable (TransitionSystem.reachable_ofMoves fullRing rfl)⟩

end BackTester.LockFreeQueue
