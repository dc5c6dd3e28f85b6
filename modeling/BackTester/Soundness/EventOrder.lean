import BackTester.Soundness.LimitOrderBook

/-! # Soundness of the order of events

What rests under an id depends on the events of that id and on the clears, in their order. Events of different ids can
therefore trade places: no answer of the book tells which of them came first.
-/

namespace BackTester

/-- The event can change what rests under the id. -/
def MarketDataEvent.concerns (e : MarketDataEvent) (id : UInt64) : Bool := e.action = .clear ∨ e.orderId = id

namespace ReferenceBook

variable {book book' : ReferenceBook} {id : UInt64} {e : MarketDataEvent}

/-- An order leaves its id, or another takes its place. -/
theorem find?_remove_or_assign (leaves : Prop) [Decidable leaves] (key : UInt64) (order : Resting) :
    UnorderedMap.find? (if leaves then book.remove key else book.assign key order) id =
      if id = key then if leaves then none else some order else book.find? id := by
  split
  · exact UnorderedMap.find?_remove book key id
  · exact UnorderedMap.find?_assign book key id order

theorem find?_add_of_ne (other : id ≠ e.orderId) : (book.add e).find? id = book.find? id := by
  unfold add
  split
  · rw [UnorderedMap.find?_assign, if_neg other]
  · rfl

theorem find?_cancel_of_ne (other : id ≠ e.orderId) : (book.cancel e).find? id = book.find? id := by
  unfold cancel
  split
  · rfl
  · rw [find?_remove_or_assign, if_neg other]

theorem find?_modify_of_ne (other : id ≠ e.orderId) : (book.modify e).find? id = book.find? id := by
  unfold modify
  split
  · exact find?_add_of_ne other
  · dsimp only
    rw [find?_remove_or_assign, if_neg other]

/-- An event leaves the other ids as they are. -/
theorem find?_step_of_not_concerns (other : e.concerns id = false) : (book.step e).find? id = book.find? id := by
  simp only [MarketDataEvent.concerns, decide_eq_false_iff_not, not_or] at other
  have notOther : id ≠ e.orderId := Ne.symm other.2
  unfold step
  split
  · rfl
  · cases action : e.action with
    | add => exact find?_add_of_ne notOther
    | cancel => exact find?_cancel_of_ne notOther
    | modify => exact find?_modify_of_ne notOther
    | clear => exact absurd action other.1
    | trade | fill | none | unnamed => rfl

theorem find?_add_congr (same : book.find? e.orderId = book'.find? e.orderId) :
    (book.add e).find? e.orderId = (book'.add e).find? e.orderId := by
  unfold add
  split
  · rw [UnorderedMap.find?_assign, UnorderedMap.find?_assign, if_pos rfl, if_pos rfl]
  · exact same

theorem find?_cancel_congr (same : book.find? e.orderId = book'.find? e.orderId) :
    (book.cancel e).find? e.orderId = (book'.cancel e).find? e.orderId := by
  unfold cancel
  rw [← same]
  cases book.find? e.orderId with
  | none => exact same
  | some order =>
    dsimp only
    rw [find?_remove_or_assign, find?_remove_or_assign, if_pos rfl, if_pos rfl]

theorem find?_modify_congr (same : book.find? e.orderId = book'.find? e.orderId) :
    (book.modify e).find? e.orderId = (book'.modify e).find? e.orderId := by
  unfold modify
  rw [← same]
  cases book.find? e.orderId with
  | none => exact find?_add_congr same
  | some order =>
    dsimp only
    rw [find?_remove_or_assign, find?_remove_or_assign, if_pos rfl, if_pos rfl]

/-- What rests under an id after an event is determined by what rested there before. -/
theorem find?_step_congr (same : book.find? id = book'.find? id) (e : MarketDataEvent) :
    (book.step e).find? id = (book'.step e).find? id := by
  by_cases concerned : e.concerns id = true
  · unfold step
    split
    · exact same
    · cases action : e.action with
      | clear => rfl
      | add | cancel | modify =>
        have isId : e.orderId = id := by simpa [MarketDataEvent.concerns, action] using concerned
        subst isId
        first | exact find?_add_congr same | exact find?_cancel_congr same | exact find?_modify_congr same
      | trade | fill | none | unnamed => exact same
  · rw [Bool.not_eq_true] at concerned
    rw [find?_step_of_not_concerns concerned, find?_step_of_not_concerns concerned, same]

/-- Events that do not concern an id can be left out of a sequence. -/
theorem find?_foldl_filter (same : book.find? id = book'.find? id) (events : List MarketDataEvent) :
    (events.foldl step book).find? id = ((events.filter fun e => e.concerns id).foldl step book').find? id := by
  induction events generalizing book book' with
  | nil => exact same
  | cons e events ih =>
    cases concerned : e.concerns id with
    | true =>
      rw [List.filter_cons, if_pos concerned]
      exact ih (find?_step_congr same e)
    | false =>
      rw [List.filter_cons, if_neg (by simp [concerned])]
      exact ih ((find?_step_of_not_concerns concerned).trans same)

/-- Sequences that tell every id the same story leave the same orders. -/
theorem find?_run_congr {events events' : List MarketDataEvent}
    (same : ∀ id, events.filter (fun e => e.concerns id) = events'.filter fun e => e.concerns id) (id : UInt64) :
    (run events).find? id = (run events').find? id := by
  rw [run, run, find?_foldl_filter rfl events, find?_foldl_filter rfl events', same id]

variable (same : ∀ id, book.find? id = book'.find? id) (side : Side)
include same

theorem onSide_perm : (book.onSide side).Perm (book'.onSide side) := (UnorderedMap.values_perm same).filter _

theorem prices_congr : book.prices side = book'.prices side := by
  apply prices_eq (nodup_prices book' side) (pairwise_prices book' side)
  intro price
  rw [mem_prices]
  simp only [(onSide_perm same side).mem_iff]

theorem volumeAt_congr (price : ScaledPrice) : book.volumeAt side price = book'.volumeAt side price :=
  (((onSide_perm same side).filter _).map _).sum_eq

theorem sideLevels_congr : book.sideLevels side = book'.sideLevels side := by
  unfold sideLevels
  rw [prices_congr same]
  simp only [volumeAt_congr same]

theorem bestPrice_congr : book.bestPrice side = book'.bestPrice side := by
  cases side with
  | none => rfl
  | buy | sell => rw [bestPrice_eq_head? (by simp), bestPrice_eq_head? (by simp), prices_congr same]

theorem empty_congr : book.empty side = book'.empty side := by
  cases side with
  | none => exact (UnorderedMap.values_perm same).isEmpty_eq
  | buy | sell => exact (onSide_perm same _).isEmpty_eq

end ReferenceBook

namespace LimitOrderBook

/-- Both books answer every query about either side alike. -/
def AnswersAlike (book book' : LimitOrderBook) : Prop := ∀ side ≠ .none, book.bestPrice side = book'.bestPrice side ∧
  (∀ price, book.volumeAt side price = book'.volumeAt side price) ∧ book.empty side = book'.empty side ∧
  book.sideLevels side = book'.sideLevels side

/-- Sequences that tell every id the same story leave books that answer alike. -/
theorem applyAll_congr {events events' : List MarketDataEvent}
    (same : ∀ id, events.filter (fun e => e.concerns id) = events'.filter fun e => e.concerns id) :
    ∃ book book', (applyAll events).run {} = some ((), book) ∧ (applyAll events').run {} = some ((), book') ∧
      AnswersAlike book book' := by
  obtain ⟨book, run, answers⟩ := answers_applyAll events
  obtain ⟨book', run', answers'⟩ := answers_applyAll events'
  have orders := ReferenceBook.find?_run_congr same
  refine ⟨book, book', run, run', fun side sided => ?_⟩
  obtain ⟨best, volume, empty, levels⟩ := answers side sided
  obtain ⟨best', volume', empty', levels'⟩ := answers' side sided
  refine ⟨?_, fun price => ?_, ?_, ?_⟩
  · rw [best, best', ReferenceBook.bestPrice_congr orders]
  · rw [volume, volume', ReferenceBook.volumeAt_congr orders]
  · rw [empty, empty', ReferenceBook.empty_congr orders]
  · rw [levels, levels', ReferenceBook.sideLevels_congr orders]

variable {e₁ e₂ : MarketDataEvent}

/-- Neighbouring events of different orders can trade places, whatever comes before and after. -/
theorem applyAll_swap (different : e₁.orderId ≠ e₂.orderId) (notClear₁ : e₁.action ≠ .clear)
    (notClear₂ : e₂.action ≠ .clear) (prior later : List MarketDataEvent) :
    ∃ book book', (applyAll (prior ++ e₁ :: e₂ :: later)).run {} = some ((), book) ∧
      (applyAll (prior ++ e₂ :: e₁ :: later)).run {} = some ((), book') ∧ AnswersAlike book book' := by
  apply applyAll_congr
  intro id
  have atMostOne : e₁.concerns id = false ∨ e₂.concerns id = false := by
    simp only [MarketDataEvent.concerns, notClear₁, notClear₂, false_or, decide_eq_false_iff_not]
    by_contra both
    rw [not_or, not_not, not_not] at both
    exact different (both.1.trans both.2.symm)
  rw [List.filter_append, List.filter_append, List.filter_cons, List.filter_cons, List.filter_cons, List.filter_cons]
  rcases atMostOne with none₁ | none₂
  · simp [none₁]
  · simp [none₂]

theorem applyAll_swap_sharedLevel :
    ∃ book book', (applyAll [{ orderId := 1, side := .buy, price := 100, size := 10, action := .add },
        { orderId := 2, side := .buy, price := 100, size := 5, action := .add }]).run {} = some ((), book) ∧
      (applyAll [{ orderId := 2, side := .buy, price := 100, size := 5, action := .add },
        { orderId := 1, side := .buy, price := 100, size := 10, action := .add }]).run {} = some ((), book') ∧
      AnswersAlike book book' := by
  have different : (1 : UInt64) ≠ 2 := by decide
  exact applyAll_swap different (by decide) (by decide) [] []

end LimitOrderBook

end BackTester
