import BackTester.Abstract.PriorityBook
import BackTester.Model.Common.Containers

/-! # The reference book

A book with its time priorities forgotten: a finite map from ids to what rests under them, and the
answers to queries computed from scratch. Every implementation of an order book is measured by it.
-/

namespace BackTester

/-- What rests under an id. -/
structure Resting where
  side : Side
  price : ScaledPrice
  quantity : UInt32
deriving DecidableEq, Repr

abbrev ReferenceBook := UnorderedMap UInt64 Resting

namespace ReferenceBook

def add (book : ReferenceBook) (e : MarketDataEvent) : ReferenceBook :=
  if e.side ≠ .none ∧ e.isPriceDefined then book.assign e.orderId ⟨e.side, e.price, e.size⟩ else book

def cancel (book : ReferenceBook) (e : MarketDataEvent) : ReferenceBook :=
  match book.find? e.orderId with
  | none => book
  | some order =>
    if e.size = 0 then book.remove e.orderId else book.assign e.orderId { order with quantity := e.size }

def modify (book : ReferenceBook) (e : MarketDataEvent) : ReferenceBook :=
  match book.find? e.orderId with
  | none => book.add e
  | some order =>
    let price := if e.isPriceDefined then e.price else order.price
    let side := if e.side ≠ .none then e.side else order.side
    if e.size = 0 ∧ price = order.price ∧ side = order.side then book.remove e.orderId
    else book.assign e.orderId ⟨side, price, e.size⟩

/-- One event. -/
def step (book : ReferenceBook) (e : MarketDataEvent) : ReferenceBook :=
  if e.flags.hasFlag .badTsRecv || e.flags.hasFlag .maybeBadBook then book
  else
    match e.action with
    | .add => book.add e
    | .cancel => book.cancel e
    | .modify => book.modify e
    | .clear => ∅
    | _ => book

/-- A sequence of events from an empty book. -/
def run (events : List MarketDataEvent) : ReferenceBook := events.foldl step ∅

/-- What rests on a side. -/
def onSide (book : ReferenceBook) (side : Side) : List Resting := book.values.filter fun order => order.side = side

/-- The total quantity at a side and price. -/
def volumeAt (book : ReferenceBook) (side : Side) (price : ScaledPrice) : ℕ :=
  (((book.onSide side).filter fun order => order.price = price).map fun order => order.quantity.toNat).sum

/-- The highest bid or the lowest ask. -/
def bestPrice (book : ReferenceBook) (side : Side) : Option ScaledPrice :=
  match side with
  | .buy => ((book.onSide .buy).map Resting.price).max?
  | .sell => ((book.onSide .sell).map Resting.price).min?
  | .none => none

/-- No order rests on the side, or on either side where none is given. -/
def empty (book : ReferenceBook) : Side → Bool
  | .none => book.values.isEmpty
  | side => (book.onSide side).isEmpty

/-- Better prices come first. -/
def better (side : Side) (p q : ScaledPrice) : Bool := if side = .buy then q ≤ p else p ≤ q

/-- Every price with an order, the best first. -/
def prices (book : ReferenceBook) (side : Side) : List ScaledPrice :=
  ((book.onSide side).map Resting.price).dedup.mergeSort (better side)

/-- Every price with an order, the best first, with the total quantity there. -/
def sideLevels (book : ReferenceBook) (side : Side) : List (ScaledPrice × ℕ) :=
  (book.prices side).map fun price => (price, book.volumeAt side price)

variable {book : ReferenceBook} {side : Side} {price : ScaledPrice}

@[simp] theorem better_buy {p q : ScaledPrice} : better .buy p q ↔ q ≤ p := by simp [better]

theorem better_of_ne_buy (notBuy : side ≠ .buy) {p q : ScaledPrice} : better side p q ↔ p ≤ q := by
  simp [better, notBuy]

theorem better_trans {p q r : ScaledPrice} (pq : better side p q) (qr : better side q r) : better side p r := by
  by_cases buy : side = .buy
  · subst buy
    rw [better_buy] at *
    exact qr.trans pq
  · rw [better_of_ne_buy buy] at *
    exact pq.trans qr

theorem better_total (side : Side) (p q : ScaledPrice) : better side p q || better side q p := by
  rw [Bool.or_eq_true]
  by_cases buy : side = .buy
  · subst buy
    rw [better_buy, better_buy]
    exact le_total q p
  · rw [better_of_ne_buy buy, better_of_ne_buy buy]
    exact le_total p q

theorem better_antisymm {p q : ScaledPrice} (pq : better side p q) (qp : better side q p) : p = q := by
  by_cases buy : side = .buy
  · subst buy
    exact le_antisymm (better_buy.mp qp) (better_buy.mp pq)
  · exact le_antisymm ((better_of_ne_buy buy).mp pq) ((better_of_ne_buy buy).mp qp)

theorem pairwise_prices (book : ReferenceBook) (side : Side) :
    (book.prices side).Pairwise fun p q => better side p q := by
  apply List.pairwise_mergeSort
  · intro p q r
    exact better_trans
  · exact better_total side

theorem mem_prices : price ∈ book.prices side ↔ ∃ order ∈ book.onSide side, order.price = price := by
  rw [prices, List.mem_mergeSort, List.mem_dedup, List.mem_map]

theorem nodup_prices (book : ReferenceBook) (side : Side) : (book.prices side).Nodup :=
  (List.mergeSort_perm _ _).nodup_iff.mpr (List.nodup_dedup _)

/-- Any duplicate-free list of these prices, the best first, is the list. -/
theorem prices_eq {prices : List ScaledPrice} (nodup : prices.Nodup)
    (sorted : prices.Pairwise fun p q => better side p q)
    (same : ∀ price, price ∈ prices ↔ ∃ order ∈ book.onSide side, order.price = price) : book.prices side = prices := by
  refine List.Perm.eq_of_pairwise (fun p q _ _ => better_antisymm) (pairwise_prices book side) sorted ?_
  refine (List.perm_ext_iff_of_nodup (nodup_prices book side) nodup).mpr fun price => ?_
  rw [mem_prices, same]

/-- The best price is the first one. -/
theorem bestPrice_eq_head? (sided : side ≠ .none) : book.bestPrice side = (book.prices side).head? := by
  have sorted := pairwise_prices book side
  have same (price : ScaledPrice) : price ∈ (book.onSide side).map Resting.price ↔ price ∈ book.prices side := by
    rw [mem_prices, List.mem_map]
  cases listed : book.prices side with
  | nil =>
    have noPrice : (book.onSide side).map Resting.price = [] :=
      List.eq_nil_iff_forall_not_mem.mpr fun price member => by simp [same, listed] at member
    cases side with
    | none => contradiction
    | buy => rw [bestPrice, noPrice]; rfl
    | sell => rw [bestPrice, noPrice]; rfl
  | cons best rest =>
    rw [listed, List.pairwise_cons] at sorted
    have first : ∀ price ∈ (book.onSide side).map Resting.price, price = best ∨ better side best price :=
      fun price member => by
        rw [same, listed, List.mem_cons] at member
        exact member.imp_right (sorted.1 price)
    have inside : best ∈ (book.onSide side).map Resting.price := (same best).mpr (by simp [listed])
    cases side with
    | none => contradiction
    | buy =>
      rw [bestPrice, List.head?_cons, List.max?_eq_some_iff]
      refine ⟨inside, fun price member => ?_⟩
      rcases first price member with rfl | worse
      · exact le_refl _
      · exact better_buy.mp worse
    | sell =>
      rw [bestPrice, List.head?_cons, List.min?_eq_some_iff]
      refine ⟨inside, fun price member => ?_⟩
      rcases first price member with rfl | worse
      · exact le_refl _
      · exact (better_of_ne_buy (by simp)).mp worse

theorem isEmpty_prices (book : ReferenceBook) (side : Side) :
    (book.prices side).isEmpty = (book.onSide side).isEmpty := by
  rw [Bool.eq_iff_iff, List.isEmpty_iff, List.isEmpty_iff]
  constructor
  · intro noPrice
    apply List.eq_nil_iff_forall_not_mem.mpr
    intro order member
    have : order.price ∈ book.prices side := mem_prices.mpr ⟨order, member, rfl⟩
    simp [noPrice] at this
  · intro noOrder
    apply List.eq_nil_iff_forall_not_mem.mpr
    intro price member
    obtain ⟨order, inside, _⟩ := mem_prices.mp member
    simp [noOrder] at inside

theorem empty_of_sided (sided : side ≠ .none) : book.empty side = (book.onSide side).isEmpty := by
  cases side with
  | none => contradiction
  | buy | sell => rfl

end ReferenceBook

/-- An order without its id and its place. -/
def RestingOrder.resting (order : RestingOrder) : Resting := ⟨order.side, order.price, order.quantity⟩

namespace PriorityBook

/-- Both books hold the same orders under the same ids. -/
def Matches (book : PriorityBook) (reference : ReferenceBook) : Prop :=
  ∀ id, reference.find? id = (book.find? id).map RestingOrder.resting

variable {book : PriorityBook} {reference : ReferenceBook}

theorem matches_empty : Matches ∅ ∅ := fun id => by
  rw [UnorderedMap.find?_empty]
  rfl

theorem Matches.leave (same : Matches book reference) (id : UInt64) :
    Matches (book.leave id) (reference.remove id) := by
  intro other
  rw [UnorderedMap.find?_remove, find?_leave, same other]
  split <;> rfl

theorem Matches.enter (same : Matches book reference) (order : RestingOrder) :
    Matches (book.enter order) (reference.assign order.id order.resting) := by
  intro other
  rw [UnorderedMap.find?_assign, find?_enter, same other]
  split <;> rfl

theorem Matches.resize (same : Matches book reference) {order : RestingOrder} (found : book.find? order.id = some order)
    (quantity : UInt32) :
    Matches (book.resize order.id quantity)
      (reference.assign order.id { order.resting with quantity := quantity }) := by
  intro other
  rw [UnorderedMap.find?_assign, find?_resize, same other, found]
  split <;> rfl

theorem Matches.add (same : Matches book reference) (e : MarketDataEvent) : Matches (book.add e) (reference.add e) := by
  by_cases complete : e.side ≠ .none ∧ e.price ≠ undefPrice
  · have defined : e.side ≠ .none ∧ e.isPriceDefined := by simpa [MarketDataEvent.isPriceDefined] using complete
    rw [PriorityBook.add, RestingOrder.ofEvent?, dif_pos complete, ReferenceBook.add, if_pos defined]
    exact same.enter _
  · have undefined : ¬(e.side ≠ .none ∧ e.isPriceDefined) := by simpa [MarketDataEvent.isPriceDefined] using complete
    rw [PriorityBook.add, RestingOrder.ofEvent?, dif_neg complete, ReferenceBook.add, if_neg undefined]
    exact same

theorem Matches.cancel (same : Matches book reference) (e : MarketDataEvent) :
    Matches (book.cancel e) (reference.cancel e) := by
  rw [PriorityBook.cancel, ReferenceBook.cancel, same]
  cases found : book.find? e.orderId with
  | none =>
    split
    · rwa [leave_of_unknown found]
    · rwa [resize_of_unknown found]
  | some order =>
    obtain ⟨_, isId⟩ := find?_eq_some.mp found
    dsimp only [Option.map_some]
    rw [← isId] at found ⊢
    split
    · exact same.leave _
    · exact same.resize found _

theorem Matches.modify (same : Matches book reference) (e : MarketDataEvent) :
    Matches (book.modify e) (reference.modify e) := by
  rw [PriorityBook.modify, ReferenceBook.modify, same]
  cases found : book.find? e.orderId with
  | none => exact same.add e
  | some order =>
    obtain ⟨_, isId⟩ := find?_eq_some.mp found
    have amended : (if e.isPriceDefined then e.price else order.price) = (order.amend e).price := by
      simp [RestingOrder.amend, MarketDataEvent.isPriceDefined]
    have sideAmended : (if e.side ≠ .none then e.side else order.side) = (order.amend e).side := rfl
    simp only [Option.map_some, RestingOrder.resting, amended, sideAmended]
    by_cases stays : (order.amend e).price = order.price ∧ (order.amend e).side = order.side
    · rw [if_pos stays, PriorityBook.cancel]
      rw [← isId] at found ⊢
      by_cases zero : e.size = 0
      · rw [if_pos zero, if_pos ⟨zero, stays⟩]
        exact same.leave _
      · rw [if_neg zero, if_neg fun both => zero both.1, stays.1, stays.2]
        exact same.resize found _
    · rw [if_neg stays, if_neg fun both => stays both.2, ← isId]
      exact same.enter (order.amend e)

theorem Matches.step (same : Matches book reference) (e : MarketDataEvent) :
    Matches (book.step e) (reference.step e) := by
  rw [PriorityBook.step, ReferenceBook.step]
  split
  · exact same
  · cases e.action with
    | add => exact same.add e
    | cancel => exact same.cancel e
    | modify => exact same.modify e
    | clear => exact matches_empty
    | trade | fill | none | unnamed => exact same

/-- Both books hold the same orders after the same events. -/
theorem matches_run (events : List MarketDataEvent) : Matches (run events) (ReferenceBook.run events) := by
  have fromHere (events : List MarketDataEvent) {book : PriorityBook} {reference : ReferenceBook}
      (same : Matches book reference) :
      Matches (events.foldl PriorityBook.step book) (events.foldl ReferenceBook.step reference) := by
    induction events generalizing book reference with
    | nil => exact same
    | cons e events ih => exact ih (same.step e)
  exact fromHere events matches_empty

/-- The values of the map are the orders of the book. -/
theorem Matches.values_perm (same : Matches book reference) :
    reference.values.Perm (book.orders.map RestingOrder.resting) := by
  have entries : reference.entries.Perm (book.orders.map fun order => ⟨order.id, order.resting⟩) := by
    refine (List.perm_ext_iff_of_nodup reference.nodupKeys.nodup ?_).mpr fun ⟨id, value⟩ => ?_
    · have distinct := book.distinct
      rw [List.nodup_map_iff_inj_on book.distinct.of_map]
      intro order member other member' sameEntry
      exact List.inj_on_of_nodup_map distinct member member' (congrArg Sigma.fst sameEntry)
    · rw [UnorderedMap.mem_entries, same, Option.map_eq_some_iff, List.mem_map]
      constructor
      · rintro ⟨order, found, rfl⟩
        obtain ⟨member, rfl⟩ := find?_eq_some.mp found
        exact ⟨order, member, rfl⟩
      · rintro ⟨order, member, sameEntry⟩
        cases sameEntry
        exact ⟨order, find?_eq_some.mpr ⟨member, rfl⟩, rfl⟩
  have := entries.map Sigma.snd
  rwa [List.map_map] at this

end PriorityBook

end BackTester
