import BackTester.Model.OrderBook.LimitOrderBook
import BackTester.ToMathlib.HeapFrame

/-! # Locality of the order book

Every function of the book works on the levels and entries that it reaches, and on new ones. In a
store with those of other books it does the same.
-/

namespace BackTester

open Heap StateT

namespace PriceLevel

variable {frame : ℕ → Option PriceLevel}

theorem stable_heightOf (p : Ptr) : Stable (Framed frame) (heightOf p) := by
  cases p with
  | none => exact stable_pure _
  | some n => exact (stable_load _).bind fun level => stable_pure _

theorem stable_updateHeight (n : Ptr) : Stable (Framed frame) (updateHeight n) :=
  (stable_load _).bind fun _ => (stable_heightOf _).bind fun _ => (stable_load _).bind fun _ =>
    (stable_heightOf _).bind fun _ =>
    stable_store _ _

theorem stable_balanceFactor (n : Ptr) : Stable (Framed frame) (balanceFactor n) :=
  (stable_load _).bind fun _ => (stable_heightOf _).bind fun _ => (stable_load _).bind fun _ =>
    (stable_heightOf _).bind fun _ =>
    stable_pure _

theorem stable_setParent (p q : Ptr) : Stable (Framed frame) (setParent p q) := by
  cases p with
  | none => exact stable_pure _
  | some n => exact stable_store _ _

theorem stable_rotateRight (n : Ptr) : Stable (Framed frame) (rotateRight n) := by
  refine (stable_load _).bind fun _ => (stable_load _).bind fun _ => (stable_store _ _).bind fun _ => ?_
  refine (stable_setParent _ _).bind fun _ => (stable_store _ _).bind fun _ => (stable_load _).bind fun _ => ?_
  refine (stable_store _ _).bind fun _ => (stable_store _ _).bind fun _ => ?_
  exact (stable_updateHeight _).bind fun _ => (stable_updateHeight _).bind fun _ => stable_pure _

theorem stable_rotateLeft (n : Ptr) : Stable (Framed frame) (rotateLeft n) := by
  refine (stable_load _).bind fun _ => (stable_load _).bind fun _ => (stable_store _ _).bind fun _ => ?_
  refine (stable_setParent _ _).bind fun _ => (stable_store _ _).bind fun _ => (stable_load _).bind fun _ => ?_
  refine (stable_store _ _).bind fun _ => (stable_store _ _).bind fun _ => ?_
  exact (stable_updateHeight _).bind fun _ => (stable_updateHeight _).bind fun _ => stable_pure _

theorem stable_straightenLeft (n : Ptr) : Stable (Framed frame) (straightenLeft n) := by
  refine (stable_load _).bind fun _ => (stable_balanceFactor _).bind fun _ => .ite ?_ (stable_pure _)
  refine (stable_load _).bind fun _ => (stable_rotateLeft _).bind fun _ => (stable_store _ _).bind fun _ => ?_
  exact (stable_load _).bind fun _ => stable_store _ _

theorem stable_straightenRight (n : Ptr) : Stable (Framed frame) (straightenRight n) := by
  refine (stable_load _).bind fun _ => (stable_balanceFactor _).bind fun _ => .ite ?_ (stable_pure _)
  refine (stable_load _).bind fun _ => (stable_rotateRight _).bind fun _ => (stable_store _ _).bind fun _ => ?_
  exact (stable_load _).bind fun _ => stable_store _ _

theorem stable_fixOne (n : Ptr) : Stable (Framed frame) (fixOne n) := by
  refine (stable_updateHeight _).bind fun _ => (stable_balanceFactor _).bind fun _ => .ite ?_ (.ite ?_ (stable_pure _))
  · exact (stable_straightenLeft _).bind fun _ => stable_rotateRight _
  · exact (stable_straightenRight _).bind fun _ => stable_rotateLeft _

theorem stable_replaceChild (par cur next : Ptr) : Stable (Framed frame) (replaceChild par cur next) := by
  cases par with
  | none => exact stable_pure _
  | some n => exact (stable_load _).bind fun _ => .ite (stable_store _ _) (stable_store _ _)

theorem stable_reattach (par cur nr : Ptr) : Stable (Framed frame) (reattach par cur nr) :=
  .ite (stable_pure _) ((stable_replaceChild _ _ _).bind fun _ => stable_store _ _)

theorem stable_rebalanceUp (fuel : ℕ) (cur newRoot : Ptr) : Stable (Framed frame) (rebalanceUp fuel cur newRoot) := by
  induction fuel generalizing cur newRoot with
  | zero => cases cur with
    | none => exact stable_pure _
    | some n => exact stable_stuck
  | succ fuel ih => cases cur with
    | none => exact stable_pure _
    | some n =>
      exact (stable_load _).bind fun _ => (stable_fixOne _).bind fun _ => (stable_reattach _ _ _).bind fun _ => ih _ _

theorem stable_insertBelow (fuel : ℕ) (node cur : Ptr) : Stable (Framed frame) (insertBelow fuel node cur) := by
  induction fuel generalizing cur with
  | zero => exact stable_stuck
  | succ fuel ih =>
    refine (stable_load _).bind fun _ => (stable_load _).bind fun _ => .ite ?_ ?_
    · refine (stable_load _).bind fun level => ?_
      cases level.leftChild with
      | none => exact (stable_store _ _).bind fun _ => stable_store _ _
      | some next => exact ih _
    · refine (stable_load _).bind fun level => ?_
      cases level.rightChild with
      | none => exact (stable_store _ _).bind fun _ => stable_store _ _
      | some next => exact ih _

theorem stable_avlInsert (root node : Ptr) : Stable (Framed frame) (avlInsert root node) := by
  refine (stable_store _ _).bind fun _ => ?_
  cases root with
  | none => exact stable_pure _
  | some n =>
    refine stable_get (fun _ _ framed => by rw [framed.next]) fun _ => (stable_insertBelow _ _ _).bind fun _ => ?_
    exact stable_get (fun _ _ framed => by rw [framed.next]) fun _ => (stable_load _).bind fun _ =>
      stable_rebalanceUp _ _ _

theorem stable_leftmost (fuel : ℕ) (n : Ptr) : Stable (Framed frame) (leftmost fuel n) := by
  induction fuel generalizing n with
  | zero => exact stable_stuck
  | succ fuel ih =>
    refine (stable_load _).bind fun level => ?_
    cases level.leftChild with
    | none => exact stable_pure _
    | some next => exact ih _

theorem stable_ascend (node nodePar nodeLeft succ : Ptr) : Stable (Framed frame) (ascend node nodePar nodeLeft succ) :=
  (stable_store _ _).bind fun _ => (stable_store _ _).bind fun _ => stable_replaceChild _ _ _

theorem stable_descend (direct : Bool) (node nodeRight succ succPar : Ptr) :
    Stable (Framed frame) (descend direct node nodeRight succ succPar) := by
  refine .ite ?_ ?_
  · exact (stable_store _ _).bind fun _ => stable_store _ _
  · exact (stable_store _ _).bind fun _ => (stable_store _ _).bind fun _ => (stable_store _ _).bind fun _ =>
      stable_store _ _

theorem stable_settle (node succ succRight : Ptr) : Stable (Framed frame) (settle node succ succRight) := by
  refine (stable_store _ _).bind fun _ => (stable_setParent _ _).bind fun _ => (stable_load _).bind fun _ => ?_
  exact (stable_store _ _).bind fun _ => stable_updateHeight _

theorem stable_swapWithSuccessor (root node : Ptr) : Stable (Framed frame) (swapWithSuccessor root node) := by
  refine stable_get (fun _ _ framed => by rw [framed.next]) fun _ => (stable_load _).bind fun _ =>
    (stable_leftmost _ _).bind fun _ => ?_
  refine (stable_load _).bind fun _ => (stable_load _).bind fun _ => (stable_ascend _ _ _ _).bind fun _ => ?_
  exact (stable_descend _ _ _ _ _).bind fun _ => (stable_settle _ _ _).bind fun _ => stable_pure _

theorem stable_spliceOut (root node : Ptr) : Stable (Framed frame) (spliceOut root node) := by
  refine (stable_load _).bind fun _ => (stable_replaceChild _ _ _).bind fun _ => (stable_setParent _ _).bind fun _ => ?_
  exact (stable_store _ _).bind fun _ => stable_get (fun _ _ framed => by rw [framed.next]) fun _ =>
    stable_rebalanceUp _ _ _

theorem stable_avlRemove (root node : Ptr) : Stable (Framed frame) (avlRemove root node) :=
  (stable_load _).bind fun _ =>
    .ite ((stable_swapWithSuccessor _ _).bind fun _ => stable_spliceOut _ _) (stable_spliceOut _ _)

end PriceLevel

namespace LimitOrderBook

variable {levels : ℕ → Option PriceLevel} {entries : ℕ → Option OrderEntry} {part whole : LimitOrderBook} {α : Type}

/-- The same book in the whole of both stores. -/
structure FramedBook (levels : ℕ → Option PriceLevel) (entries : ℕ → Option OrderEntry)
    (part whole : LimitOrderBook) : Prop where
  priceLevels : Framed levels part.priceLevels whole.priceLevels
  orderEntries : Framed entries part.orderEntries whole.orderEntries
  bid : whole.bid = part.bid
  ask : whole.ask = part.ask
  orders : whole.orders = part.orders
  anomalies : whole.anomalies = part.anomalies

theorem FramedBook.sideFor (framed : FramedBook levels entries part whole) (side : Side) :
    whole.sideFor side = part.sideFor side := by
  unfold LimitOrderBook.sideFor
  rw [framed.bid, framed.ask]

theorem stable_onLevels {run : LevelM α} (stable : Stable (Framed levels) run) :
    Stable (FramedBook levels entries) (onLevels run) := by
  intro part whole framed value after ran
  obtain ⟨⟨result, heap⟩, inner, same⟩ := Option.map_eq_some_iff.mp ran
  obtain ⟨rfl, rfl⟩ := Prod.mk.inj same
  obtain ⟨heap', inner', framed'⟩ := stable _ _ framed.priceLevels result heap inner
  exact ⟨{ whole with priceLevels := heap' }, Option.map_eq_some_iff.mpr ⟨_, inner', rfl⟩,
    { framed with priceLevels := framed' }⟩

theorem stable_onEntries {run : EntryM α} (stable : Stable (Framed entries) run) :
    Stable (FramedBook levels entries) (onEntries run) := by
  intro part whole framed value after ran
  obtain ⟨⟨result, heap⟩, inner, same⟩ := Option.map_eq_some_iff.mp ran
  obtain ⟨rfl, rfl⟩ := Prod.mk.inj same
  obtain ⟨heap', inner', framed'⟩ := stable _ _ framed.orderEntries result heap inner
  exact ⟨{ whole with orderEntries := heap' }, Option.map_eq_some_iff.mpr ⟨_, inner', rfl⟩,
    { framed with orderEntries := framed' }⟩

theorem stable_setSide (side : Side) (update : BookSide → BookSide) :
    Stable (FramedBook levels entries) (modify (setSide side update) : BookM PUnit) := by
  refine stable_modify fun part whole framed => ?_
  unfold setSide
  split
  · exact { framed with bid := congrArg update framed.bid }
  · exact { framed with ask := congrArg update framed.ask }

theorem stable_setOrders (update : UnorderedMap UInt64 ℕ → UnorderedMap UInt64 ℕ) :
    Stable (FramedBook levels entries) (modify fun book => { book with orders := update book.orders } : BookM PUnit) :=
  stable_modify fun _ _ framed => { framed with orders := congrArg update framed.orders }

theorem stable_logBook (kind : BookAnomaly) (event : MarketDataEvent) :
    Stable (FramedBook levels entries) (logBook kind event) :=
  stable_modify fun _ _ framed => { framed with anomalies := congrArg (·.logBook kind event) framed.anomalies }

theorem stable_loadLevel (p : Ptr) : Stable (FramedBook levels entries) (onLevels (load p)) :=
  stable_onLevels (stable_load p)

theorem stable_storeLevel (p : Ptr) (update : PriceLevel → PriceLevel) :
    Stable (FramedBook levels entries) (onLevels (store p update)) := stable_onLevels (stable_store p update)

theorem stable_loadEntry (p : Ptr) : Stable (FramedBook levels entries) (onEntries (load p)) :=
  stable_onEntries (stable_load p)

theorem stable_storeEntry (p : Ptr) (update : OrderEntry → OrderEntry) :
    Stable (FramedBook levels entries) (onEntries (store p update)) := stable_onEntries (stable_store p update)

theorem stable_treeMax (fuel : ℕ) (p : Ptr) : Stable (Framed levels) (treeMax fuel p) := by
  induction fuel generalizing p with
  | zero => cases p with
    | none => exact stable_pure _
    | some n => exact stable_stuck
  | succ fuel ih => cases p with
    | none => exact stable_pure _
    | some n =>
      refine (stable_load _).bind fun level => ?_
      cases level.rightChild with
      | none => exact stable_pure _
      | some next => exact ih _

theorem stable_treeMin (fuel : ℕ) (p : Ptr) : Stable (Framed levels) (treeMin fuel p) := by
  induction fuel generalizing p with
  | zero => cases p with
    | none => exact stable_pure _
    | some n => exact stable_stuck
  | succ fuel ih => cases p with
    | none => exact stable_pure _
    | some n =>
      refine (stable_load _).bind fun level => ?_
      cases level.leftChild with
      | none => exact stable_pure _
      | some next => exact ih _

theorem stable_freeTree (fuel : ℕ) (p : Ptr) : Stable (Framed levels) (freeTree fuel p) := by
  induction fuel generalizing p with
  | zero => cases p with
    | none => exact stable_pure _
    | some n => exact stable_stuck
  | succ fuel ih => cases p with
    | none => exact stable_pure _
    | some n =>
      exact (stable_load _).bind fun _ => (ih _).bind fun _ => (stable_load _).bind fun _ =>
        (ih _).bind fun _ => stable_delete _

theorem stable_clearBook : Stable (FramedBook levels entries) clearBook := by
  refine stable_get (fun part whole framed => ?_) fun book => ?_
  · rw [framed.orders, framed.priceLevels.next, framed.bid, framed.ask]
  · refine (stable_onEntries (stable_forM (fun _ => stable_delete _) _)).bind fun _ => ?_
    refine (stable_modify fun _ _ framed => ?_).bind fun _ => (stable_onLevels (stable_freeTree _ _)).bind fun _ => ?_
    · exact { framed with orders := rfl, bid := by rw [framed.bid], ask := by rw [framed.ask] }
    · refine (stable_onLevels (stable_freeTree _ _)).bind fun _ => stable_modify fun _ _ framed => ?_
      exact { framed with bid := by rw [framed.bid], ask := by rw [framed.ask] }

theorem stable_extreme (side : Side) (tree : Ptr) : Stable (Framed levels) (extreme side tree) :=
  stable_get (fun _ _ framed => by rw [framed.next]) fun _ => .ite (stable_treeMax _ _) (stable_treeMin _ _)

theorem stable_refreshBest (side : Side) (lv tree : Ptr) :
    Stable (FramedBook levels entries) (refreshBest side lv tree) := by
  refine stable_get (fun part whole framed => by rw [bestFor, framed.sideFor]; rfl) fun book => .ite ?_ (stable_pure _)
  exact (stable_onLevels (stable_extreme _ _)).bind fun _ => stable_setSide _ _

theorem stable_removeLevel (lv : Ptr) (side : Side) : Stable (FramedBook levels entries) (removeLevel lv side) := by
  refine stable_get (fun part whole framed => by rw [treeFor, framed.sideFor]; rfl) fun book => ?_
  refine (stable_onLevels (PriceLevel.stable_avlRemove _ _)).bind fun _ => (stable_setSide _ _).bind fun _ => ?_
  refine (stable_refreshBest _ _ _).bind fun _ => (stable_loadLevel _).bind fun _ =>
    (stable_setSide _ _).bind fun _ => ?_
  exact stable_onLevels (stable_delete _)

theorem stable_unlinkOrder (oe : Ptr) : Stable (FramedBook levels entries) (unlinkOrder oe) := by
  refine (stable_loadEntry _).bind ?_
  rintro ⟨orderId, side, quantity, price, entryTime, lastUpdate, next, prev | prev, level⟩
  · refine (stable_storeLevel _ _).bind fun _ => (stable_loadEntry _).bind ?_
    rintro ⟨orderId, side, quantity, price, entryTime, lastUpdate, next | next, prev, _⟩
    · exact stable_storeLevel _ _
    · exact stable_storeEntry _ _
  · refine (stable_storeEntry _ _).bind fun _ => (stable_loadEntry _).bind ?_
    rintro ⟨orderId, side, quantity, price, entryTime, lastUpdate, next | next, prev, _⟩
    · exact stable_storeLevel _ _
    · exact stable_storeEntry _ _

theorem stable_destroyOrder (oe : Ptr) (id : UInt64) : Stable (FramedBook levels entries) (destroyOrder oe id) := by
  refine (stable_loadEntry _).bind fun _ => (stable_storeLevel _ _).bind fun _ =>
    (stable_unlinkOrder _).bind fun _ => ?_
  refine (stable_storeLevel _ _).bind fun _ => (stable_setOrders _).bind fun _ =>
    (stable_onEntries (stable_delete _)).bind fun _ => ?_
  exact (stable_loadLevel _).bind fun _ => .ite (stable_removeLevel _ _) (stable_pure _)

theorem stable_cancelOrder (ev : MarketDataEvent) : Stable (FramedBook levels entries) (cancelOrder ev) := by
  refine stable_get (fun part whole framed => by rw [framed.orders]) fun book => ?_
  cases book.orders.find? ev.orderId with
  | none => exact stable_logBook _ _
  | some oe =>
    refine (stable_loadEntry _).bind fun _ => .ite (stable_destroyOrder _ _) ?_
    exact (stable_storeLevel _ _).bind fun _ => stable_storeEntry _ _

theorem stable_improveBest (side : Side) (sp : ScaledPrice) (lv : ℕ) :
    Stable (FramedBook levels entries) (improveBest side sp lv) := by
  refine stable_get (fun part whole framed => by rw [bestFor, framed.sideFor]; rfl) fun book => ?_
  cases book.bestFor side with
  | none => exact stable_setSide _ _
  | some best => exact (stable_loadLevel _).bind fun _ => .ite (stable_setSide _ _) (stable_pure _)

theorem stable_newLevel (side : Side) (sp : ScaledPrice) : Stable (FramedBook levels entries) (newLevel side sp) := by
  refine (stable_onLevels (stable_new _)).bind fun _ => ?_
  refine stable_get (fun part whole framed => by rw [treeFor, framed.sideFor]; rfl) fun book => ?_
  refine (stable_onLevels (PriceLevel.stable_avlInsert _ _)).bind fun _ => (stable_setSide _ _).bind fun _ => ?_
  exact (stable_improveBest _ _ _).bind fun _ => (stable_setSide _ _).bind fun _ => stable_pure _

theorem stable_enqueue (ev : MarketDataEvent) (lv : ℕ) : Stable (FramedBook levels entries) (enqueue ev lv) := by
  have behind (oe : ℕ) : Stable (FramedBook levels entries) (do
      onLevels (store (some lv) fun level => { level with orderCount := level.orderCount + 1 })
      let quantity := (← onEntries (load (some oe))).quantity
      onLevels (store (some lv) fun level => { level with totalQuantity := level.totalQuantity + quantity })
      modify fun book => { book with orders := book.orders.assign ev.orderId oe }) := by
    refine (stable_storeLevel _ _).bind fun _ => (stable_loadEntry _).bind fun _ =>
      (stable_storeLevel _ _).bind fun _ => ?_
    exact stable_setOrders _
  refine (stable_onEntries (stable_new _)).bind fun oe => (stable_loadLevel _).bind fun level => ?_
  cases level.back with
  | none => exact (stable_storeLevel _ _).bind fun _ => behind oe
  | some back =>
    exact (stable_storeEntry _ _).bind fun _ => (stable_storeEntry _ _).bind fun _ =>
      (stable_storeLevel _ _).bind fun _ => behind oe

theorem stable_placeOrder (ev : MarketDataEvent) : Stable (FramedBook levels entries) (placeOrder ev) := by
  refine stable_get (fun part whole framed => by rw [levelsFor, framed.sideFor]; rfl) fun book => ?_
  cases (book.levelsFor ev.side).find? ev.price with
  | none => exact (stable_newLevel _ _).bind fun _ => stable_enqueue _ _
  | some lv => exact (stable_pure _).bind fun _ => stable_enqueue _ _

theorem stable_addOrder (ev : MarketDataEvent) : Stable (FramedBook levels entries) (addOrder ev) := by
  refine .ite (stable_pure _) (stable_get (fun part whole framed => by rw [framed.orders]) fun book => ?_)
  split
  · exact (stable_logBook _ _).bind fun _ => (stable_cancelOrder _).bind fun _ => stable_placeOrder _
  · exact stable_placeOrder _

theorem stable_modifyLive (oe : Ptr) (ev : MarketDataEvent) :
    Stable (FramedBook levels entries) (modifyLive oe ev) := by
  refine (stable_loadEntry _).bind fun _ => .ite (.ite (stable_cancelOrder _) ?_) ?_
  · exact (stable_storeLevel _ _).bind fun _ => stable_storeEntry _ _
  · exact (stable_cancelOrder _).bind fun _ => stable_addOrder _

theorem stable_modifyOrder (ev : MarketDataEvent) : Stable (FramedBook levels entries) (modifyOrder ev) := by
  refine stable_get (fun part whole framed => by rw [framed.orders]) fun book => ?_
  cases book.orders.find? ev.orderId with
  | none => exact .ite ((stable_logBook _ _).bind fun _ => stable_addOrder _) (stable_logBook _ _)
  | some oe => exact stable_modifyLive _ _

theorem stable_applyImpl (e : MarketDataEvent) : Stable (FramedBook levels entries) (applyImpl e) := by
  refine .ite (stable_pure _) ?_
  cases e.action with
  | add => exact stable_addOrder _
  | cancel => exact stable_cancelOrder _
  | modify => exact stable_modifyOrder _
  | clear => exact stable_clearBook
  | trade | fill | none | unnamed => exact stable_pure _

variable {side : Side}

theorem stable_leaveRight (fuel n : ℕ) : Stable (Framed levels) (leaveRight fuel n) := by
  induction fuel generalizing n with
  | zero => exact stable_stuck
  | succ fuel ih =>
    refine (stable_load _).bind fun level => ?_
    cases level.parent with
    | none => exact stable_pure _
    | some above => exact (stable_load _).bind fun _ => .ite (ih _) (stable_pure _)

theorem stable_leaveLeft (fuel n : ℕ) : Stable (Framed levels) (leaveLeft fuel n) := by
  induction fuel generalizing n with
  | zero => exact stable_stuck
  | succ fuel ih =>
    refine (stable_load _).bind fun level => ?_
    cases level.parent with
    | none => exact stable_pure _
    | some above => exact (stable_load _).bind fun _ => .ite (ih _) (stable_pure _)

theorem stable_inorderSuccessor (p : Ptr) : Stable (Framed levels) (inorderSuccessor p) := by
  cases p with
  | none => exact stable_pure _
  | some n =>
    refine stable_get (fun _ _ framed => by rw [framed.next]) fun _ => (stable_load _).bind fun level => ?_
    cases level.rightChild with
    | none => exact stable_leaveRight _ _
    | some below => exact stable_treeMin _ _

theorem stable_inorderPredecessor (p : Ptr) : Stable (Framed levels) (inorderPredecessor p) := by
  cases p with
  | none => exact stable_pure _
  | some n =>
    refine stable_get (fun _ _ framed => by rw [framed.next]) fun _ => (stable_load _).bind fun level => ?_
    cases level.leftChild with
    | none => exact stable_leaveLeft _ _
    | some below => exact stable_treeMax _ _

theorem stable_listLevels {step : Ptr → LevelM Ptr} (stable : ∀ p, Stable (Framed levels) (step p))
    (fuel : ℕ) (p : Ptr) :
    Stable (Framed levels) (listLevels step fuel p) := by
  induction fuel generalizing p with
  | zero => cases p with
    | none => exact stable_pure _
    | some n => exact stable_stuck
  | succ fuel ih => cases p with
    | none => exact stable_pure _
    | some n => exact (stable_load _).bind fun _ => (stable _).bind fun _ => (ih _).bind fun _ => stable_pure _

namespace FramedBook

variable (framed : FramedBook levels entries part whole)
include framed

theorem bestPrice {answer : Option ScaledPrice} (answered : part.bestPrice side = some answer) :
    whole.bestPrice side = some answer := by
  unfold LimitOrderBook.bestPrice at answered ⊢
  rw [framed.bid, framed.ask]
  split at answered
  · exact answered
  · next best isBest =>
    obtain ⟨level, read, isPrice⟩ := Option.map_eq_some_iff.mp answered
    exact Option.map_eq_some_iff.mpr ⟨level, (framed.priceLevels.read read).2, isPrice⟩

theorem volumeAt {price : ScaledPrice} {answer : UInt64} (answered : part.volumeAt side price = some answer) :
    whole.volumeAt side price = some answer := by
  unfold LimitOrderBook.volumeAt at answered ⊢
  rw [levelsFor, framed.sideFor]
  split
  · next noSide => rwa [if_pos noSide] at answered
  · next sided =>
    rw [if_neg sided] at answered
    rw [levelsFor] at answered
    split at answered
    · exact answered
    · next lv found =>
      obtain ⟨level, read, isTotal⟩ := Option.map_eq_some_iff.mp answered
      exact Option.map_eq_some_iff.mpr ⟨level, (framed.priceLevels.read read).2, isTotal⟩

theorem empty : whole.empty side = part.empty side := by
  unfold LimitOrderBook.empty
  rw [framed.bid, framed.ask]

theorem sideLevels {answer : List (ScaledPrice × ℤ)} (answered : part.sideLevels side = some answer) :
    whole.sideLevels side = some answer := by
  have listed {step : Ptr → LevelM Ptr} (stable : ∀ p, Stable (Framed levels) (step p)) (fuel : ℕ) (p : Ptr)
      (listed : (listLevels step fuel p).run' part.priceLevels = some answer) :
      (listLevels step fuel p).run' whole.priceLevels = some answer := by
    obtain ⟨⟨value, heap⟩, ran, rfl⟩ := Option.map_eq_some_iff.mp listed
    obtain ⟨heap', ran', -⟩ := stable_listLevels stable fuel p _ _ framed.priceLevels value heap ran
    exact Option.map_eq_some_iff.mpr ⟨_, ran', rfl⟩
  unfold LimitOrderBook.sideLevels at answered ⊢
  rw [framed.priceLevels.next, framed.bid, framed.ask]
  cases side with
  | none => exact answered
  | buy => exact listed stable_inorderPredecessor _ _ answered
  | sell => exact listed stable_inorderSuccessor _ _ answered

end FramedBook

end LimitOrderBook

end BackTester
