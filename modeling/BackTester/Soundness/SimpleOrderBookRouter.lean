import BackTester.Abstract.Routing
import BackTester.Model.OrderBook.MapOrderBook
import BackTester.Model.OrderBook.SimpleOrderBookRouter

/-! # Soundness of the simple router

Each book is a fresh book fed the events that the router sends to its instrument. These are the
events that belong there, except that an event without an order id is sent to instrument 0.
-/

namespace BackTester.SimpleOrderBookRouter

open Routing

variable {BookType : Type} [OrderBook BookType] {router : SimpleOrderBookRouter BookType} {e : MarketDataEvent}
  {prior events : List MarketDataEvent} {X : UInt32}

/-- The book of an instrument, fresh where there is none yet. -/
def bookFor (router : SimpleOrderBookRouter BookType) (X : UInt32) : BookType :=
  (router.orderBooks.find? X).getD OrderBook.fresh

/-- The instrument that the router looks up for an event: none for an event without an order id. -/
def resolved (prior : List MarketDataEvent) (e : MarketDataEvent) : UInt32 :=
  if e.orderId = 0 then 0 else instrumentOf prior e

/-- No instrument is known for the order id. -/
def unresolved (prior : List MarketDataEvent) (e : MarketDataEvent) : Bool := resolved prior e = 0 ∧ e.orderId ≠ 0

/-- The event is sent to the book of an instrument. -/
def sent (X : UInt32) (prior : List MarketDataEvent) (e : MarketDataEvent) : Bool :=
  resolved prior e = X ∧ ¬unresolved prior e

/-- The events of a sequence that are sent to the book of an instrument. -/
def delivered (X : UInt32) (events : List MarketDataEvent) : List MarketDataEvent := events.filterAlong (sent X)

theorem delivered_append_singleton (X : UInt32) (events : List MarketDataEvent) (e : MarketDataEvent) :
    delivered X (events ++ [e]) = delivered X events ++ if sent X events e then [e] else [] :=
  List.filterAlong_append_singleton _ _ _

/-- What a router has become of a sequence of events. -/
structure Follows (router : SimpleOrderBookRouter BookType) (events : List MarketDataEvent) : Prop where
  seen : ∀ id, (router.orderToInstrument.find? id).getD 0 = if id = 0 then 0 else lastSeen events id
  books : ∀ X, router.orderBooks.find? X =
    if delivered X events = [] then none else some (OrderBook.fed BookType (delivered X events))
  log : router.anomalies =
    { router := (events.filterAlong unresolved).map fun e => (.unresolvedInstrument, e) }

theorem follows_empty : Follows ({} : SimpleOrderBookRouter BookType) [] where
  seen id := by simp
  books X := by simp [delivered]
  log := rfl

theorem Follows.bookFor (follows : Follows router events) (X : UInt32) :
    router.bookFor X = OrderBook.fed BookType (delivered X events) := by
  rw [SimpleOrderBookRouter.bookFor, follows.books]
  split
  · next none => rw [none]; rfl
  · rfl

/-- One more event. -/
theorem Follows.applyImpl (follows : Follows router events) (e : MarketDataEvent) :
    Follows (router.applyImpl e) (events ++ [e]) := by
  let seen :=
    if e.instrumentId ≠ 0 ∧ e.orderId ≠ 0 then router.orderToInstrument.assign e.orderId e.instrumentId
    else router.orderToInstrument
  have seenHere : (seen.find? e.orderId).getD 0 = resolved events e := by
    dsimp only [seen]
    by_cases noId : e.orderId = 0
    · rw [if_neg fun both => both.2 noId, follows.seen, if_pos noId, resolved, if_pos noId]
    · rw [resolved, if_neg noId, instrumentOf]
      by_cases given : e.instrumentId ≠ 0
      · rw [if_pos ⟨given, noId⟩, UnorderedMap.find?_assign, if_pos rfl, if_pos given]
        rfl
      · rw [if_neg fun both => given both.1, follows.seen, if_neg noId, if_neg given]
  have seen' (id : UInt64) : ((seen.assign e.orderId (resolved events e)).find? id).getD 0 =
      if id = 0 then 0 else lastSeen (events ++ [e]) id := by
    rw [UnorderedMap.find?_assign]
    by_cases here : id = e.orderId
    · subst here
      rw [if_pos rfl, Option.getD_some, resolved, lastSeen_append_self]
    · have unchanged : seen.find? id = router.orderToInstrument.find? id := by
        dsimp only [seen]
        split
        · rw [UnorderedMap.find?_assign, if_neg here]
        · rfl
      have other : ¬(e.orderId = id ∧ e.instrumentId ≠ 0) := fun same => here same.1.symm
      rw [if_neg here, unchanged, follows.seen, lastSeen_append_singleton, if_neg other]
  have unfolded : router.applyImpl e =
      if resolved events e = 0 ∧ e.orderId ≠ 0 then
        { router with
          orderToInstrument := seen.assign e.orderId (resolved events e)
          anomalies := router.anomalies.logRouter .unresolvedInstrument e }
      else
        { router with
          orderToInstrument := seen.assign e.orderId (resolved events e)
          orderBooks := router.orderBooks.assign (resolved events e)
            (OrderBook.apply (router.bookFor (resolved events e)) e) } := by
    rw [← seenHere]
    rfl
  rw [unfolded]
  split
  · next lost =>
    have isLost : unresolved events e = true := decide_eq_true lost
    refine ⟨seen', fun X => ?_, ?_⟩
    · have notSent : sent X events e = false := by simp [sent, isLost]
      rw [delivered_append_singleton, notSent]
      simpa using follows.books X
    · simp [follows.log, BookAnomalyLog.logRouter, isLost]
  · next found =>
    have isFound : unresolved events e = false := decide_eq_false found
    refine ⟨seen', fun X => ?_, ?_⟩
    · rw [delivered_append_singleton, UnorderedMap.find?_assign]
      by_cases here : X = resolved events e
      · have isSent : sent X events e = true := by simp [sent, here, isFound]
        rw [if_pos here, if_pos isSent, if_neg (by simp), follows.bookFor, ← here, OrderBook.fed_append_singleton]
      · have notSent : sent X events e = false := by simp [sent, Ne.symm here]
        rw [if_neg here, notSent]
        simpa using follows.books X
    · simp [follows.log, isFound]

theorem follows_run (events : List MarketDataEvent) : Follows (run events : SimpleOrderBookRouter BookType) events := by
  induction events using List.reverseRecOn with
  | nil => exact follows_empty
  | append_singleton events e ih =>
    rw [run_append_singleton]
    exact ih.applyImpl e

/-- What belongs to a book is sent there unless it names the instrument and no order. -/
theorem sent_iff (given : X ≠ 0) : sent X prior e ↔ belongs X prior e ∧ ¬(e.instrumentId = X ∧ e.orderId = 0) := by
  have sentHere : sent X prior e ↔ resolved prior e = X ∧ ¬(resolved prior e = 0 ∧ e.orderId ≠ 0) := by
    rw [sent, unresolved, decide_eq_true_iff, decide_eq_true_iff]
  have belongsHere : belongs X prior e ↔
      e.instrumentId = X ∨ e.instrumentId = 0 ∧ e.orderId ≠ 0 ∧ lastSeen prior e.orderId = X := decide_eq_true_iff
  rw [sentHere, belongsHere, resolved]
  by_cases noId : e.orderId = 0
  · rw [if_pos noId]
    constructor
    · rintro ⟨zero, _⟩
      exact absurd zero.symm given
    · rintro ⟨here | ⟨_, numbered, _⟩, named⟩
      · exact absurd ⟨here, noId⟩ named
      · exact absurd noId numbered
  · rw [if_neg noId, instrumentOf]
    by_cases instrument : e.instrumentId = 0
    · rw [if_neg (not_not.mpr instrument)]
      constructor
      · rintro ⟨here, _⟩
        exact ⟨.inr ⟨instrument, noId, here⟩, fun lost => noId lost.2⟩
      · rintro ⟨here | ⟨_, _, here⟩, _⟩
        · exact absurd (here.symm.trans instrument) given
        · exact ⟨here, fun lost => given (here.symm.trans lost.1)⟩
    · rw [if_pos instrument]
      constructor
      · rintro ⟨here, _⟩
        exact ⟨.inl here, fun lost => noId lost.2⟩
      · rintro ⟨here | ⟨absent, _⟩, _⟩
        · exact ⟨here, fun lost => instrument lost.1⟩
        · exact absurd absent instrument

/-- The book that remembers every event. -/
structure History where
  events : List MarketDataEvent
deriving DecidableEq

instance : OrderBook History where
  fresh := ⟨[]⟩
  apply history e := ⟨history.events ++ [e]⟩

theorem fed_history (events : List MarketDataEvent) : OrderBook.fed History events = ⟨events⟩ := by
  induction events using List.reverseRecOn with
  | nil => rfl
  | append_singleton events e ih =>
    rw [OrderBook.fed_append_singleton, ih]
    rfl

/-- The books of every type take exactly the events that belong to them just where no event of the instrument lacks an
order id. -/
theorem bookFor_run_iff (given : X ≠ 0) (events : List MarketDataEvent) :
    (∀ (BookType : Type) [OrderBook BookType],
      (run events : SimpleOrderBookRouter BookType).bookFor X = OrderBook.fed BookType (belonging X events)) ↔
      ∀ e ∈ events, e.instrumentId = X → e.orderId ≠ 0 := by
  have weaker (prior : List MarketDataEvent) (e : MarketDataEvent) (isSent : sent X prior e) : belongs X prior e :=
    ((sent_iff given).mp isSent).1
  have exactly : delivered X events = belonging X events ↔ ∀ e ∈ events, e.instrumentId = X → e.orderId ≠ 0 := by
    rw [delivered, belonging, List.filterAlong_eq_iff weaker]
    constructor
    · intro agree e member instrument noId
      obtain ⟨n, here⟩ := List.mem_iff_getElem?.mp member
      have isSent := agree n e here (by simp [belongs, instrument])
      exact ((sent_iff given).mp isSent).2 ⟨instrument, noId⟩
    · intro named n e here belongs
      exact (sent_iff given).mpr ⟨belongs, fun lost => named e (List.mem_of_getElem? here) lost.1 lost.2⟩
  rw [← exactly]
  constructor
  · intro always
    have remembered := always History
    rwa [(follows_run events).bookFor, fed_history, fed_history, History.mk.injEq] at remembered
  · intro same BookType _
    rw [(follows_run events).bookFor, same]

/-- A cancel without an instrument follows its order. -/
def addedAndCancelled : List MarketDataEvent :=
  [{ instrumentId := 7, orderId := 1, side := .buy, price := 100, size := 10, action := .add },
    { orderId := 1, action := .cancel }]

theorem bookFor_run_iff_seven : (run addedAndCancelled : SimpleOrderBookRouter AbseilOrderBook).bookFor 7 =
    OrderBook.fed AbseilOrderBook (belonging 7 addedAndCancelled) := by
  have numbered : ∀ e ∈ addedAndCancelled, e.instrumentId = 7 → e.orderId ≠ 0 := by decide
  exact (bookFor_run_iff (show (7 : UInt32) ≠ 0 by decide) addedAndCancelled).mpr numbered AbseilOrderBook

/-- A clear of instrument 7 goes to book 0, and the bid stays. -/
theorem not_bookFor_run : ¬∀ (events : List MarketDataEvent) (X : UInt32), X ≠ 0 →
    (run events : SimpleOrderBookRouter AbseilOrderBook).bookFor X =
      OrderBook.fed AbseilOrderBook (belonging X events) := by
  intro always
  have cleared := always
    [{ instrumentId := 7, orderId := 1, side := .buy, price := 100, size := 10, action := .add },
      { instrumentId := 7, action := .clear }] 7 (by decide)
  have bid := congrArg (fun book => book.bestPrice .buy) cleared
  revert bid
  decide

end BackTester.SimpleOrderBookRouter
