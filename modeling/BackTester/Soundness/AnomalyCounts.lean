import BackTester.Soundness.LimitOrderBook

/-! # Soundness of the anomaly log

A book logs an event at most once, and only for what the event itself asks of the orders that rest:
the cancels and adds that a book makes for its own purposes find what they look for and stay silent.
-/

namespace BackTester.LimitOrderBook

/-- The event is not skipped, and is an anomaly of this kind for a book with these orders. -/
def Anomalous (resting : ReferenceBook) (e : MarketDataEvent) (kind : BookAnomaly) : Prop :=
  shouldSkipEvent e.flags = false ∧
    match kind with
    | .unknownCancel => e.action = .cancel ∧ resting.find? e.orderId = none
    | .duplicateAddReplaced => e.action = .add ∧ (e.side ≠ .none ∧ e.isPriceDefined) ∧ resting.find? e.orderId ≠ none
    | .unknownModifyAsAdd => e.action = .modify ∧ resting.find? e.orderId = none ∧ e.side ≠ .none ∧ e.isPriceDefined
    | .unknownModifyIgnored =>
      e.action = .modify ∧ resting.find? e.orderId = none ∧ ¬(e.side ≠ .none ∧ e.isPriceDefined)

instance (resting : ReferenceBook) (e : MarketDataEvent) (kind : BookAnomaly) :
    Decidable (Anomalous resting e kind) := by
  unfold Anomalous
  cases kind <;> infer_instance

/-- How many events of the sequence are an anomaly of this kind for the orders that rest when they come. -/
def anomalyCount (events : List MarketDataEvent) (kind : BookAnomaly) : ℕ :=
  (List.range events.length).countP fun n => events[n]?.any fun e =>
    Anomalous (ReferenceBook.run (events.take n)) e kind

variable {resting : PriorityBook} {reference : ReferenceBook}

theorem anomaly?_eq_some (same : PriorityBook.Matches resting reference) (e : MarketDataEvent) (kind : BookAnomaly) :
    resting.anomaly? e = some kind ↔ Anomalous reference e kind := by
  have complete : (RestingOrder.ofEvent? e).isSome ↔ e.side ≠ .none ∧ e.isPriceDefined = true := by
    rw [ofEvent?_isSome, not_or]
    simp
  unfold PriorityBook.anomaly? Anomalous shouldSkipEvent
  rw [same]
  by_cases skipped : (e.flags.hasFlag .badTsRecv || e.flags.hasFlag .maybeBadBook) = true
  · simp [skipped]
  · rw [if_neg skipped]
    simp only [skipped, true_and]
    cases found : resting.find? e.orderId <;> cases action : e.action <;> cases described : RestingOrder.ofEvent? e <;>
      cases kind <;> simp [← complete, described]

theorem bookCount_note (log : BookAnomalyLog) (e : MarketDataEvent) (anomaly : Option BookAnomaly)
    (kind : BookAnomaly) :
    (log.note e anomaly).bookCount kind = log.bookCount kind + if anomaly = some kind then 1 else 0 := by
  cases anomaly with
  | none => simp [BookAnomalyLog.note]
  | some logged => simp [BookAnomalyLog.note, BookAnomalyLog.logBook, BookAnomalyLog.bookCount, List.countP_append]

theorem anomalyCount_append_singleton (events : List MarketDataEvent) (e : MarketDataEvent) (kind : BookAnomaly) :
    anomalyCount (events ++ [e]) kind =
      anomalyCount events kind + if Anomalous (ReferenceBook.run events) e kind then 1 else 0 := by
  have earlier (n : ℕ) (isIn : n ∈ List.range events.length) : (events ++ [e])[n]? = events[n]? ∧
      (events ++ [e]).take n = events.take n := by
    have before := List.mem_range.mp isIn
    exact ⟨List.getElem?_append_left before, List.take_append_of_le_length before.le⟩
  unfold anomalyCount
  rw [List.length_append, List.length_singleton, List.range_succ, List.countP_append]
  congr 1
  · apply List.countP_congr
    intro n isIn
    rw [(earlier n isIn).1, (earlier n isIn).2]
  · simp

theorem applyAll_append_singleton (events : List MarketDataEvent) (e : MarketDataEvent) {book before : LimitOrderBook}
    (run : (applyAll events).run before = some ((), book)) :
    (applyAll (events ++ [e])).run before = (applyImpl e).run book := by
  change (forM events applyImpl).run before = _ at run
  change (forM (events ++ [e]) applyImpl).run before = _
  rw [List.forM_append, StateT.run_bind, run]
  simp

/-- What an event adds to the log: nothing, or one line about the event itself. -/
def LogsAtMost (before after : BookAnomalyLog) (e : MarketDataEvent) : Prop :=
  after = before ∨ ∃ kind, after = before.logBook kind e ∧
    after.bookCount kind = before.bookCount kind + 1 ∧ ∀ other ≠ kind, after.bookCount other = before.bookCount other

theorem logsAtMost_note (log : BookAnomalyLog) (e : MarketDataEvent) (anomaly : Option BookAnomaly) :
    LogsAtMost log (log.note e anomaly) e := by
  cases anomaly with
  | none => exact .inl rfl
  | some kind =>
    right
    refine ⟨kind, rfl, ?_, fun other another => ?_⟩
    · rw [bookCount_note, if_pos rfl]
    · rw [bookCount_note, if_neg fun same => another (Option.some.inj same).symm, Nat.add_zero]

/-- Every sequence of events leaves the counters at the numbers of its anomalies, and one more event
is logged at most once. -/
theorem bookCount_applyAll (events : List MarketDataEvent) : ∃ book, (applyAll events).run {} = some ((), book) ∧
    (∀ kind, book.anomalies.bookCount kind = anomalyCount events kind) ∧
    ∀ e, ∃ book', (applyAll (events ++ [e])).run {} = some ((), book') ∧
    LogsAtMost book.anomalies book'.anomalies e := by
  have counted : ∃ book, (applyAll events).run {} = some ((), book) ∧ Holds book (PriorityBook.run events) ∧
      ∀ kind, book.anomalies.bookCount kind = anomalyCount events kind := by
    induction events using List.reverseRecOn with
    | nil => exact ⟨{}, rfl, holds_empty, fun _ => rfl⟩
    | append_singleton events e ih =>
      obtain ⟨book, run, holds, counts⟩ := ih
      obtain ⟨book', runOne, holds', log⟩ := run_applyImpl holds e
      refine ⟨book', by rw [applyAll_append_singleton events e run, runOne], ?_, fun kind => ?_⟩
      · rw [PriorityBook.run, List.foldl_append]
        exact holds'
      · rw [log, bookCount_note, counts kind, anomalyCount_append_singleton]
        simp only [anomaly?_eq_some (PriorityBook.matches_run events)]
  obtain ⟨book, run, holds, counts⟩ := counted
  refine ⟨book, run, counts, fun e => ?_⟩
  obtain ⟨book', runOne, -, log⟩ := run_applyImpl holds e
  exact ⟨book', by rw [applyAll_append_singleton events e run, runOne], log ▸ logsAtMost_note book.anomalies e _⟩

end BackTester.LimitOrderBook
