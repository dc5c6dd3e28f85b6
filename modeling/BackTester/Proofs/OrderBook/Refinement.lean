import BackTester.Proofs.OrderBook.ClearBook
import BackTester.Proofs.OrderBook.DestroyOrder
import BackTester.Proofs.OrderBook.Enqueue
import BackTester.Proofs.OrderBook.NewLevel
import BackTester.Proofs.OrderBook.Resize

/-! # The limit order book refines orders in time priority

Every operation of the book succeeds and does to the orders it holds what the priority book does.
By induction a run of any length does the same.
-/

namespace BackTester.LimitOrderBook

open Heap PriceLevel

variable {book : LimitOrderBook} {resting : PriorityBook} {live : List Slot} {trees : Side → BinaryTree ℕ} {id : UInt64}

/-- The book is in order and holds exactly these orders. -/
def Holds (book : LimitOrderBook) (resting : PriorityBook) : Prop :=
  ∃ live trees, Represents book live trees none ∧ live.map Prod.snd = resting.orders

theorem holds_empty : Holds {} ∅ := ⟨[], _, represents_empty (fun _ => rfl) (fun _ => rfl) {}, rfl⟩

/-- The log is no part of what a book holds. -/
theorem Represents.logged {spare : Ptr} (represents : Represents book live trees spare) (log : BookAnomalyLog) :
    Represents { book with anomalies := log } live trees spare where
  distinct := represents.distinct
  addresses := represents.addresses
  orders := represents.orders
  entries := represents.entries
  tree side sided := (represents.tree side sided).congr rfl fun _ _ => rfl
  queues side sided := (represents.queues side sided).congr (fun _ _ => rfl) (fun _ _ _ => rfl) fun _ => rfl
  apart := represents.apart
  levels := represents.levels

theorem Holds.logged (holds : Holds book resting) (log : BookAnomalyLog) :
    Holds { book with anomalies := log } resting := by
  obtain ⟨live, trees, represents, same⟩ := holds
  exact ⟨live, trees, represents.logged log, same⟩

/-- The id map knows the resting orders. -/
theorem Represents.find?_resting {spare : Ptr} (represents : Represents book live trees spare)
    (same : live.map Prod.snd = resting.orders) : book.orders.find? id = none ↔ resting.find? id = none := by
  rw [represents.find?_eq_none, PriorityBook.find?_eq_none, ← same, List.forall_mem_map]

theorem map_snd_leave (live : List Slot) (id : UInt64) :
    (leave live id).map Prod.snd = (live.map Prod.snd).filter fun order => order.id ≠ id := by
  rw [List.filter_map]
  rfl

theorem map_snd_resize (live : List Slot) (id : UInt64) (quantity : UInt32) :
    (resize live id quantity).map Prod.snd =
      (live.map Prod.snd).map fun order => if order.id = id then { order with quantity := quantity } else order := by
  simp [resize]

/-- A cancel of a live order leaves or resizes it. -/
theorem run_cancelOrder_live (represents : Represents book live trees none) {slot : Slot} (member : slot ∈ live)
    {e : MarketDataEvent} (isId : slot.2.id = e.orderId) :
    ∃ book' trees', (cancelOrder e).run book = some ((), book') ∧ book'.anomalies = book.anomalies ∧
      Represents book' (if e.size = 0 then leave live slot.2.id else resize live slot.2.id e.size) trees' none := by
  have found : book.orders.find? e.orderId = some slot.1 := (represents.orders _ _).mpr ⟨slot, member, rfl, isId⟩
  obtain ⟨a, level, entry, inTree, read, isPrice, holds, readEntry, stands⟩ := represents.locate member
  by_cases zero : e.size = 0
  · obtain ⟨book', trees', run, represents', anomalies⟩ := run_destroyOrder represents member
    refine ⟨book', trees', ?_, anomalies, by rwa [if_pos zero]⟩
    rw [isId] at run
    simp [cancelOrder, found, readEntry, zero, run]
  · have notZero : ¬e.size.toNat = 0 := fun isZero => zero (UInt32.toNat_inj.mp isZero)
    let levels' := book.priceLevels.modify a fun level =>
      { level with totalQuantity := level.totalQuantity - (entry.quantity - e.size.toNat) }
    have read' : levels'.read a = some { level with
        totalQuantity := level.totalQuantity + (e.size.toNat - slot.2.quantity.toNat) } := by
      rw [read_modify_self, read, Option.map_some, stands.quantity]
      congr 2
      ring
    have resized :=
      represents_resize represents member inTree read isPrice read'
        (fun n ne => read_modify_of_ne _ _ ne) e.tsEvent
    rw [if_neg zero]
    refine ⟨_, trees, ?_, ?_, resized⟩
    · simp [cancelOrder, found, readEntry, notZero, stands.level, read, levels']
    · rfl

/-- A cancel does what the priority book does; an unknown id is logged. -/
theorem run_cancelOrder (holds : Holds book resting) (e : MarketDataEvent) :
    ∃ book', (cancelOrder e).run book = some ((), book') ∧ Holds book' (resting.cancel e) ∧
      book'.anomalies = if (resting.find? e.orderId).isSome then book.anomalies
        else book.anomalies.logBook .unknownCancel e := by
  obtain ⟨live, trees, represents, same⟩ := holds
  cases found : resting.find? e.orderId with
  | none =>
    have unknown := (represents.find?_resting same).mpr found
    refine ⟨{ book with anomalies := book.anomalies.logBook .unknownCancel e },
      by simp [cancelOrder, unknown, logBook], ?_,
      rfl⟩
    have unchanged : resting.cancel e = resting := by
      rw [PriorityBook.cancel]
      split
      · exact PriorityBook.leave_of_unknown found
      · exact PriorityBook.resize_of_unknown found _
    rw [unchanged]
    exact ⟨live, trees, represents.logged _, same⟩
  | some order =>
    obtain ⟨inOrders, isId⟩ := PriorityBook.find?_eq_some.mp found
    rw [← same] at inOrders
    obtain ⟨slot, inLive, rfl⟩ := List.mem_map.mp inOrders
    obtain ⟨book', trees', run, anomalies, represents'⟩ := run_cancelOrder_live represents inLive isId
    refine ⟨book', run, ⟨_, trees', represents', ?_⟩, anomalies⟩
    rw [isId, PriorityBook.cancel]
    split
    · rw [map_snd_leave, same]
      rfl
    · rw [map_snd_resize, same]
      rfl

theorem isPriceDefined_iff {e : MarketDataEvent} : e.isPriceDefined = true ↔ e.price ≠ undefPrice := by
  simp [MarketDataEvent.isPriceDefined]

theorem ofEvent?_isSome {e : MarketDataEvent} :
    (RestingOrder.ofEvent? e).isSome ↔ ¬(e.side = .none ∨ !e.isPriceDefined) := by
  simp [RestingOrder.ofEvent?, MarketDataEvent.isPriceDefined]

/-- A new id is placed at the back of its level, which is opened if need be. -/
theorem run_placeOrder (holds : Holds book resting) {e : MarketDataEvent} {order : RestingOrder}
    (described : RestingOrder.ofEvent? e = some order) (unknown : resting.find? order.id = none) :
    ∃ book', (placeOrder e).run book = some ((), book') ∧ Holds book' (resting.enter order) ∧
      book'.anomalies = book.anomalies := by
  obtain ⟨live, trees, represents, same⟩ := holds
  obtain ⟨_, isSide, isPrice, _⟩ := RestingOrder.ofEvent?_fields described
  have unknown' := (represents.find?_resting same).mpr unknown
  have entered (oe : ℕ) : (live ++ [(oe, order)]).map Prod.snd = (resting.enter order).orders := by
    rw [PriorityBook.orders_enter, PriorityBook.leave_of_unknown unknown, List.map_append, same]
    rfl
  cases found : (book.levelsFor e.side).find? e.price with
  | some a =>
    have tree := represents.tree order.side order.sided
    obtain ⟨member, here⟩ := (tree.levels order.price a).mp (by rw [isSide, isPrice, found])
    obtain ⟨book', oe, run, represents', anomalies⟩ :=
      represents_enqueue (represents.weaken (some a)) described member here unknown'
    exact ⟨book', by simp [placeOrder, found, run], ⟨_, _, represents', entered oe⟩, anomalies⟩
  | none =>
    obtain ⟨book₁, tree', a, run₁, represents₁, member, here, orders₁, anomalies₁⟩ :=
      run_newLevel represents order.sided
        (by rw [isSide, isPrice, found] : (book.levelsFor order.side).find? order.price = none)
    obtain ⟨book₂, oe, run₂, represents₂, anomalies₂⟩ :=
      represents_enqueue represents₁ described (by rwa [Function.update_self]) here (by rw [orders₁, unknown'])
    rw [isSide, isPrice] at run₁
    exact ⟨book₂, by simp [placeOrder, found, run₁, run₂], ⟨_, _, represents₂, entered oe⟩, anomalies₂.trans anomalies₁⟩

/-- An add enters its order at the back, after a live order with the same id left. -/
theorem run_addOrder (holds : Holds book resting) (e : MarketDataEvent) :
    ∃ book', (addOrder e).run book = some ((), book') ∧ Holds book' (resting.add e) ∧
      book'.anomalies = if (RestingOrder.ofEvent? e).isSome ∧ (resting.find? e.orderId).isSome then
        book.anomalies.logBook .duplicateAddReplaced e else book.anomalies := by
  cases described : RestingOrder.ofEvent? e with
  | none =>
    have incomplete : e.side = .none ∨ !e.isPriceDefined := by
      by_contra complete
      simpa [described] using ofEvent?_isSome.mpr complete
    refine ⟨book, by rw [addOrder, if_pos incomplete]; rfl, ?_, by simp⟩
    rw [PriorityBook.add, described]
    exact holds
  | some order =>
    have complete : ¬(e.side = .none ∨ !e.isPriceDefined) := ofEvent?_isSome.mp (by rw [described]; rfl)
    have isId := (RestingOrder.ofEvent?_fields described).1
    rw [PriorityBook.add, described]
    cases found : resting.find? e.orderId with
    | none =>
      obtain ⟨live, trees, represents, same⟩ := holds
      have unknown := (represents.find?_resting same).mpr found
      obtain ⟨book', run, holds', anomalies⟩ :=
        run_placeOrder ⟨live, trees, represents, same⟩ described (by rw [isId, found])
      refine ⟨book', ?_, holds', by simpa using anomalies⟩
      rw [addOrder, if_neg complete]
      simp [unknown, run]
    | some old =>
      have known : (book.orders.find? e.orderId).isSome := by
        obtain ⟨live, trees, represents, same⟩ := holds
        rw [Option.isSome_iff_ne_none, Ne, represents.find?_resting same, found]
        simp
      obtain ⟨book₁, run₁, holds₁, anomalies₁⟩ := run_cancelOrder
        (holds.logged (book.anomalies.logBook .duplicateAddReplaced e)) { orderId := e.orderId, size := 0 }
      have left : resting.cancel { orderId := e.orderId, size := 0 } = resting.leave order.id := by
        rw [PriorityBook.cancel, if_pos rfl, isId]
      rw [left] at holds₁
      obtain ⟨book₂, run₂, holds₂, anomalies₂⟩ :=
        run_placeOrder holds₁ described (PriorityBook.find?_leave_self resting order.id)
      rw [PriorityBook.enter_leave] at holds₂
      refine ⟨book₂, ?_, holds₂, ?_⟩
      · rw [addOrder, if_neg complete]
        simp [known, logBook, run₁, run₂]
      · rw [anomalies₂, anomalies₁, found]
        rfl

/-- What a modify of a live order gives and keeps describes the amended order. -/
theorem ofEvent?_amend {order : RestingOrder} {e : MarketDataEvent} (isId : order.id = e.orderId) :
    RestingOrder.ofEvent? { e with
      action := .add
      side := if e.side ≠ .none then e.side else order.side
      price := if e.isPriceDefined then e.price else order.price } = some (order.amend e) := by
  have complete : (if e.side ≠ .none then e.side else order.side) ≠ .none ∧
      (if e.isPriceDefined then e.price else order.price) ≠ undefPrice := by
    simp only [isPriceDefined_iff]
    exact ⟨(order.amend e).sided, (order.amend e).priced⟩
  rw [RestingOrder.ofEvent?, dif_pos complete]
  simp only [isPriceDefined_iff, RestingOrder.amend, isId]

/-- A modify changes a live order in place, or takes it out and enters it anew. -/
theorem run_modifyLive (represents : Represents book live trees none) (same : live.map Prod.snd = resting.orders)
    {slot : Slot} (member : slot ∈ live) {e : MarketDataEvent} (isId : slot.2.id = e.orderId) :
    ∃ book', (modifyLive (some slot.1) e).run book = some ((), book') ∧ Holds book' (resting.modify e) ∧
      book'.anomalies = book.anomalies := by
  have found : resting.find? e.orderId = some slot.2 :=
    PriorityBook.find?_eq_some.mpr ⟨same ▸ List.mem_map_of_mem member, isId⟩
  obtain ⟨a, level, entry, inTree, read, isPrice, holds, readEntry, stands⟩ := represents.locate member
  have amended : (if e.isPriceDefined then e.price else slot.2.price) = (slot.2.amend e).price ∧
      (if e.side ≠ .none then e.side else slot.2.side) = (slot.2.amend e).side := by
    simp only [isPriceDefined_iff]
    exact ⟨rfl, rfl⟩
  rw [PriorityBook.modify, found]
  dsimp only
  have unfolded : (modifyLive (some slot.1) e).run book =
      (if (slot.2.amend e).price = slot.2.price ∧ (slot.2.amend e).side = slot.2.side then
        if (e.size.toNat : ℤ) = 0 then cancelOrder { e with size := 0 }
        else do
          onLevels (store (some a) fun level =>
            { level with totalQuantity := level.totalQuantity + (e.size.toNat - entry.quantity) })
          onEntries (store (some slot.1) fun entry => { entry with quantity := e.size.toNat, lastUpdate := e.tsEvent })
      else do
        cancelOrder { e with size := 0 }
        addOrder { e with
          action := .add
          side := (slot.2.amend e).side
          price := (slot.2.amend e).price } : BookM Unit).run book := by
    simp only [modifyLive, StateT.run_bind, run_onEntries, run_load, readEntry, Option.map_some, Option.bind_eq_bind,
      Option.bind_some, amended, stands.price, stands.side, stands.level]
  rw [unfolded]
  by_cases stays : (slot.2.amend e).price = slot.2.price ∧ (slot.2.amend e).side = slot.2.side
  · rw [if_pos stays, if_pos stays, PriorityBook.cancel]
    by_cases zero : e.size = 0
    · obtain ⟨book', trees', run, anomalies, represents'⟩ :=
        run_cancelOrder_live represents member
          (show slot.2.id = ({ e with size := 0 } : MarketDataEvent).orderId from isId)
      refine ⟨book', by rw [if_pos (by rw [zero]; rfl)]; exact run, ⟨_, trees', represents', ?_⟩, anomalies⟩
      rw [if_pos rfl, if_pos zero, map_snd_leave, same, isId]
      rfl
    · have notZero : ¬(e.size.toNat : ℤ) = 0 := fun isZero => zero (UInt32.toNat_inj.mp (Int.natCast_eq_zero.mp isZero))
      let levels' := book.priceLevels.modify a fun level =>
        { level with totalQuantity := level.totalQuantity + (e.size.toNat - entry.quantity) }
      have read' : levels'.read a = some { level with
          totalQuantity := level.totalQuantity + (e.size.toNat - slot.2.quantity.toNat) } := by
        rw [read_modify_self, read, Option.map_some, stands.quantity]
      have resized :=
        represents_resize represents member inTree read isPrice read'
          (fun n ne => read_modify_of_ne _ _ ne) e.tsEvent
      rw [if_neg notZero, if_neg zero]
      refine ⟨_, ?_, ⟨_, trees, resized, ?_⟩, ?_⟩
      · simp [read, readEntry, levels']
      · rw [map_snd_resize, same, isId]
        rfl
      · rfl
  · rw [if_neg stays, if_neg stays]
    obtain ⟨book₁, trees₁, run₁, anomalies₁, represents₁⟩ :=
      run_cancelOrder_live represents member
        (show slot.2.id = ({ e with size := 0 } : MarketDataEvent).orderId from isId)
    have holds₁ : Holds book₁ (resting.leave slot.2.id) := by
      rw [if_pos rfl] at represents₁
      refine ⟨_, trees₁, represents₁, ?_⟩
      rw [map_snd_leave, same]
      rfl
    have described := ofEvent?_amend isId
    simp only [amended] at described
    obtain ⟨book₂, run₂, holds₂, anomalies₂⟩ := run_addOrder holds₁ { e with
      action := .add
      side := (slot.2.amend e).side
      price := (slot.2.amend e).price }
    refine ⟨book₂, ?_, ?_, ?_⟩
    · simp only [StateT.run_bind, run₁, Option.bind_eq_bind, Option.bind_some, run₂]
    · rw [PriorityBook.add, described] at holds₂
      rwa [← PriorityBook.enter_leave]
    · rw [anomalies₂, if_neg, anomalies₁]
      rw [← isId, PriorityBook.find?_leave_self]
      simp

theorem run_modifyOrder_eq (book : LimitOrderBook) (e : MarketDataEvent) :
    (modifyOrder e).run book = (match book.orders.find? e.orderId with
      | none => if e.side ≠ .none ∧ e.isPriceDefined then do
          logBook .unknownModifyAsAdd e
          addOrder e
        else logBook .unknownModifyIgnored e
      | some oe => modifyLive (some oe) e : BookM Unit).run book := rfl

/-- A modify of an unknown id is an add, where it describes an order. -/
theorem run_modifyOrder (holds : Holds book resting) (e : MarketDataEvent) :
    ∃ book', (modifyOrder e).run book = some ((), book') ∧ Holds book' (resting.modify e) ∧
      book'.anomalies = if (resting.find? e.orderId).isSome then book.anomalies
        else book.anomalies.logBook
          (if (RestingOrder.ofEvent? e).isSome then .unknownModifyAsAdd else .unknownModifyIgnored) e := by
  cases found : resting.find? e.orderId with
  | none =>
    have unknown : book.orders.find? e.orderId = none := by
      obtain ⟨live, trees, represents, same⟩ := holds
      exact (represents.find?_resting same).mpr found
    rw [run_modifyOrder_eq, unknown, PriorityBook.modify, found]
    dsimp only
    by_cases complete : e.side ≠ .none ∧ e.isPriceDefined
    · have described : (RestingOrder.ofEvent? e).isSome := by
        rw [ofEvent?_isSome, not_or, complete.2]
        exact ⟨complete.1, by simp⟩
      obtain ⟨book', run, holds', anomalies⟩ :=
        run_addOrder (holds.logged (book.anomalies.logBook .unknownModifyAsAdd e)) e
      refine ⟨book', by rw [if_pos complete]; exact run, holds', ?_⟩
      rw [anomalies, found, described]
      rfl
    · have incomplete : RestingOrder.ofEvent? e = none := by
        rw [← Option.not_isSome_iff_eq_none, ofEvent?_isSome, not_not]
        rcases not_and_or.mp complete with noSide | noPrice
        · exact .inl (not_not.mp noSide)
        · exact .inr (by simpa using noPrice)
      refine ⟨{ book with anomalies := book.anomalies.logBook .unknownModifyIgnored e },
        by rw [if_neg complete]; rfl, ?_,
        by rw [incomplete]; rfl⟩
      rw [PriorityBook.add, incomplete]
      exact holds.logged _
  | some order =>
    obtain ⟨live, trees, represents, same⟩ := holds
    obtain ⟨inOrders, isId⟩ := PriorityBook.find?_eq_some.mp found
    rw [← same] at inOrders
    obtain ⟨slot, inLive, rfl⟩ := List.mem_map.mp inOrders
    have known : book.orders.find? e.orderId = some slot.1 := (represents.orders _ _).mpr ⟨slot, inLive, rfl, isId⟩
    rw [run_modifyOrder_eq, known]
    exact run_modifyLive represents same inLive isId

theorem run_applyImpl_eq (book : LimitOrderBook) (e : MarketDataEvent) :
    (applyImpl e).run book = (if e.flags.hasFlag .badTsRecv || e.flags.hasFlag .maybeBadBook then pure ()
      else match e.action with
        | .add => addOrder e
        | .cancel => cancelOrder e
        | .modify => modifyOrder e
        | .clear => clearBook
        | _ => pure () : BookM Unit).run book := rfl

/-- One event. The log grows by at most one line. -/
theorem run_applyImpl (holds : Holds book resting) (e : MarketDataEvent) :
    ∃ book', (applyImpl e).run book = some ((), book') ∧ Holds book' (resting.step e) ∧
      book'.anomalies = book.anomalies.note e (resting.anomaly? e) := by
  rw [run_applyImpl_eq]
  by_cases skipped : e.flags.hasFlag .badTsRecv || e.flags.hasFlag .maybeBadBook
  · refine ⟨book, by rw [if_pos skipped]; rfl, ?_, ?_⟩
    · rw [PriorityBook.step, if_pos skipped]
      exact holds
    · rw [PriorityBook.anomaly?, if_pos skipped]
      rfl
  · rw [if_neg skipped, PriorityBook.step, if_neg skipped, PriorityBook.anomaly?, if_neg skipped]
    cases e.action with
    | add =>
      obtain ⟨book', run, holds', anomalies⟩ := run_addOrder holds e
      refine ⟨book', run, holds', ?_⟩
      rw [anomalies]
      cases resting.find? e.orderId <;> cases RestingOrder.ofEvent? e <;> rfl
    | cancel =>
      obtain ⟨book', run, holds', anomalies⟩ := run_cancelOrder holds e
      refine ⟨book', run, holds', ?_⟩
      rw [anomalies]
      cases resting.find? e.orderId <;> rfl
    | modify =>
      obtain ⟨book', run, holds', anomalies⟩ := run_modifyOrder holds e
      refine ⟨book', run, holds', ?_⟩
      rw [anomalies]
      cases resting.find? e.orderId <;> cases RestingOrder.ofEvent? e <;> rfl
    | clear =>
      obtain ⟨live, trees, represents, same⟩ := holds
      obtain ⟨book', run, represents', anomalies⟩ := run_clearBook represents
      refine ⟨book', run, ⟨[], _, represents', rfl⟩, ?_⟩
      rw [anomalies]
      cases resting.find? e.orderId <;> rfl
    | trade | fill | none | unnamed =>
      refine ⟨book, rfl, holds, ?_⟩
      cases resting.find? e.orderId <;> rfl

/-- Every run of events succeeds and keeps in step with the priority book. -/
theorem run_applyAll (holds : Holds book resting) (events : List MarketDataEvent) :
    ∃ book', (applyAll events).run book = some ((), book') ∧ Holds book' (events.foldl PriorityBook.step resting) := by
  induction events generalizing book resting with
  | nil => exact ⟨book, rfl, holds⟩
  | cons e events ih =>
    obtain ⟨book₁, run₁, holds₁, _⟩ := run_applyImpl holds e
    obtain ⟨book₂, run₂, holds₂⟩ := ih holds₁
    refine ⟨book₂, ?_, holds₂⟩
    change Option.bind ((applyImpl e).run book) _ = _
    rw [run₁]
    exact run₂

end BackTester.LimitOrderBook
