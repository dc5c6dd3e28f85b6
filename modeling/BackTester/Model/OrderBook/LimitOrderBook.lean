import BackTester.ToMathlib.IntrusiveList
import BackTester.Model.Common.Containers
import BackTester.Model.OrderBook.PriceLevel

/-! # The limit order book

A book owns its price levels and order entries on two free stores; every function runs on the
book and is stuck where the source would follow a null or dangling pointer or delete an object
twice. Counts and totals are `int64_t` in the source and integers here. The scratch vector behind
the spans of `side_levels` is left out: the levels are returned.
-/

namespace BackTester

structure OrderEntry where
  orderId : UInt64 := 0
  side : Side := .none
  quantity : ℤ := 0
  price : ScaledPrice := 0
  entryTime : NanoTime := 0
  lastUpdate : NanoTime := 0
  next : Ptr := none
  prev : Ptr := none
  level : Ptr := none
deriving DecidableEq, Repr, Inhabited

instance : DoublyLinked OrderEntry where
  next entry := entry.next
  prev entry := entry.prev
  setNext p entry := { entry with next := p }
  setPrev p entry := { entry with prev := p }
  next_setNext _ _ := rfl
  next_setPrev _ _ := rfl
  prev_setNext _ _ := rfl
  prev_setPrev _ _ := rfl

abbrev EntryM := StateT (Heap OrderEntry) Option

/-- `bid_tree_`, `best_bid_` and `bid_levels_`, or the same three of the ask side. -/
structure BookSide where
  tree : Ptr := none
  best : Ptr := none
  levels : UnorderedMap ScaledPrice ℕ := ∅

structure LimitOrderBook where
  priceLevels : Heap PriceLevel := ∅
  orderEntries : Heap OrderEntry := ∅
  bid : BookSide := {}
  ask : BookSide := {}
  orders : UnorderedMap UInt64 ℕ := ∅
  anomalies : BookAnomalyLog := {}

/-- A computation on a book that may get stuck. -/
abbrev BookM := StateT LimitOrderBook Option

namespace LimitOrderBook

open Heap

/-- Work on the price levels of the book. -/
def onLevels {α : Type} (run : LevelM α) : BookM α := fun book =>
  (run.run book.priceLevels).map fun (value, heap) => (value, { book with priceLevels := heap })

/-- Work on the order entries of the book. -/
def onEntries {α : Type} (run : EntryM α) : BookM α := fun book =>
  (run.run book.orderEntries).map fun (value, heap) => (value, { book with orderEntries := heap })

def logBook (kind : BookAnomaly) (event : MarketDataEvent) : BookM Unit :=
  modify fun book => { book with anomalies := book.anomalies.logBook kind event }

def shouldSkipEvent (flags : Flags) : Bool := flags.hasFlag .badTsRecv || flags.hasFlag .maybeBadBook

def sideFor (book : LimitOrderBook) (side : Side) : BookSide := if side = .buy then book.bid else book.ask

def treeFor (book : LimitOrderBook) (side : Side) : Ptr := (book.sideFor side).tree

def bestFor (book : LimitOrderBook) (side : Side) : Ptr := (book.sideFor side).best

def levelsFor (book : LimitOrderBook) (side : Side) : UnorderedMap ScaledPrice ℕ := (book.sideFor side).levels

/-- Assign to what `tree_for(side)`, `best_for(side)` or `levels_for(side)` refers to. -/
def setSide (side : Side) (update : BookSide → BookSide) (book : LimitOrderBook) : LimitOrderBook :=
  if side = .buy then { book with bid := update book.bid } else { book with ask := update book.ask }

/-- The right-most node at or below `n`. -/
def treeMax : ℕ → Ptr → LevelM Ptr
  | _, none => pure none
  | 0, some _ => fun _ => none
  | fuel + 1, some n => do
    match (← load (some n)).rightChild with
    | none => return some n
    | some next => treeMax fuel (some next)

/-- The left-most node at or below `n`. -/
def treeMin : ℕ → Ptr → LevelM Ptr
  | _, none => pure none
  | 0, some _ => fun _ => none
  | fuel + 1, some n => do
    match (← load (some n)).leftChild with
    | none => return some n
    | some next => treeMin fuel (some next)

/-- The first ancestor of which `n` is not in the right subtree. -/
def leaveRight : ℕ → ℕ → LevelM Ptr
  | 0, _ => fun _ => none
  | fuel + 1, n => do
    match (← load (some n)).parent with
    | none => return none
    | some above =>
      if (← load (some above)).rightChild = some n then leaveRight fuel above else return some above

/-- The first ancestor of which `n` is not in the left subtree. -/
def leaveLeft : ℕ → ℕ → LevelM Ptr
  | 0, _ => fun _ => none
  | fuel + 1, n => do
    match (← load (some n)).parent with
    | none => return none
    | some above =>
      if (← load (some above)).leftChild = some n then leaveLeft fuel above else return some above

def inorderSuccessor : Ptr → LevelM Ptr
  | none => pure none
  | some n => do
    let fuel := (← get).next + 1
    match (← load (some n)).rightChild with
    | some below => treeMin fuel (some below)
    | none => leaveRight fuel n

def inorderPredecessor : Ptr → LevelM Ptr
  | none => pure none
  | some n => do
    let fuel := (← get).next + 1
    match (← load (some n)).leftChild with
    | some below => treeMax fuel (some below)
    | none => leaveLeft fuel n

/-- Delete a tree, children first. -/
def freeTree : ℕ → Ptr → LevelM Unit
  | _, none => pure ()
  | 0, some _ => fun _ => none
  | fuel + 1, some n => do
    freeTree fuel (← load (some n)).leftChild
    freeTree fuel (← load (some n)).rightChild
    delete (some n)

def clearBook : BookM Unit := do
  let book ← get
  onEntries (book.orders.values.forM fun oe => delete (some oe))
  modify fun book =>
    { book with orders := ∅, bid := { book.bid with levels := ∅ }, ask := { book.ask with levels := ∅ } }
  onLevels (freeTree (book.priceLevels.next + 1) book.bid.tree)
  onLevels (freeTree (book.priceLevels.next + 1) book.ask.tree)
  modify fun book =>
    { book with
      bid := { book.bid with tree := none, best := none }
      ask := { book.ask with tree := none, best := none } }

/-- `tree ? (side == Side::Buy ? tree_max(tree) : tree_min(tree)) : nullptr`; both are null at null. -/
def extreme (side : Side) (tree : Ptr) : LevelM Ptr := do
  let fuel := (← get).next + 1
  if side = .buy then treeMax fuel tree else treeMin fuel tree

/-- Where `lv` was the best level, what is left of the tree has another. -/
def refreshBest (side : Side) (lv tree : Ptr) : BookM Unit := do
  if lv = (← get).bestFor side then do
    let best ← onLevels (extreme side tree)
    modify (setSide side fun fields => { fields with best := best })

def removeLevel (lv : Ptr) (side : Side) : BookM Unit := do
  let tree ← onLevels (PriceLevel.avlRemove ((← get).treeFor side) lv)
  modify (setSide side fun fields => { fields with tree := tree })
  refreshBest side lv tree
  let price := (← onLevels (load lv)).price
  modify (setSide side fun fields => { fields with levels := fields.levels.remove price })
  onLevels (delete lv)

def unlinkOrder (oe : Ptr) : BookM Unit := do
  let { prev := prev, next := next, level := lv, .. } ← onEntries (load oe)
  match prev with
  | some _ => onEntries (store prev fun entry => { entry with next := next })
  | none => onLevels (store lv fun level => { level with front := next })
  let { prev := prev, next := next, .. } ← onEntries (load oe)
  match next with
  | some _ => onEntries (store next fun entry => { entry with prev := prev })
  | none => onLevels (store lv fun level => { level with back := prev })

/-- Destroy the entry that the map holds under `id`. -/
def destroyOrder (oe : Ptr) (id : UInt64) : BookM Unit := do
  let { level := lv, side := side, quantity := quantity, .. } ← onEntries (load oe)
  onLevels (store lv fun level => { level with totalQuantity := level.totalQuantity - quantity })
  unlinkOrder oe
  onLevels (store lv fun level => { level with orderCount := level.orderCount - 1 })
  modify fun book => { book with orders := book.orders.remove id }
  onEntries (delete oe)
  if (← onLevels (load lv)).orderCount = 0 then removeLevel lv side

def cancelOrder (ev : MarketDataEvent) : BookM Unit := do
  match (← get).orders.find? ev.orderId with
  | none => logBook .unknownCancel ev
  | some oe => do
    let { level := lv, quantity := quantity, .. } ← onEntries (load (some oe))
    let remaining : ℤ := ev.size.toNat
    if remaining = 0 then destroyOrder (some oe) ev.orderId
    else do
      let delta := quantity - remaining
      onLevels (store lv fun level => { level with totalQuantity := level.totalQuantity - delta })
      onEntries (store (some oe) fun entry => { entry with quantity := remaining, lastUpdate := ev.tsEvent })

/-- `best = lv`, where there is no best level yet or the price improves on it. -/
def improveBest (side : Side) (sp : ScaledPrice) (lv : ℕ) : BookM Unit := do
  match (← get).bestFor side with
  | none => modify (setSide side fun fields => { fields with best := some lv })
  | some best => do
    let bestPrice := (← onLevels (load (some best))).price
    if (if side = .buy then bestPrice < sp else sp < bestPrice) then
      modify (setSide side fun fields => { fields with best := some lv })

/-- A new level with its place in the tree, the best pointer and the level map. -/
def newLevel (side : Side) (sp : ScaledPrice) : BookM ℕ := do
  let lv ← onLevels (new { price := sp })
  let tree ← onLevels (PriceLevel.avlInsert ((← get).treeFor side) (some lv))
  modify (setSide side fun fields => { fields with tree := tree })
  improveBest side sp lv
  modify (setSide side fun fields => { fields with levels := fields.levels.assign sp lv })
  return lv

/-- A new entry at the back of the queue of its level. -/
def enqueue (ev : MarketDataEvent) (lv : ℕ) : BookM Unit := do
  let oe ← onEntries (new
    { orderId := ev.orderId, side := ev.side, quantity := ev.size.toNat, price := ev.price, entryTime := ev.tsEvent,
      lastUpdate := ev.tsEvent, level := some lv })
  match (← onLevels (load (some lv))).back with
  | none => onLevels (store (some lv) fun level => { level with front := some oe, back := some oe })
  | some back => do
    onEntries (store (some oe) fun entry => { entry with prev := some back })
    onEntries (store (some back) fun entry => { entry with next := some oe })
    onLevels (store (some lv) fun level => { level with back := some oe })
  onLevels (store (some lv) fun level => { level with orderCount := level.orderCount + 1 })
  let quantity := (← onEntries (load (some oe))).quantity
  onLevels (store (some lv) fun level => { level with totalQuantity := level.totalQuantity + quantity })
  modify fun book => { book with orders := book.orders.assign ev.orderId oe }

/-- The part of `add_order` behind the duplicate check. -/
def placeOrder (ev : MarketDataEvent) : BookM Unit := do
  let lv ← match ((← get).levelsFor ev.side).find? ev.price with
    | some lv => pure lv
    | none => newLevel ev.side ev.price
  enqueue ev lv

def addOrder (ev : MarketDataEvent) : BookM Unit :=
  if ev.side = .none ∨ !ev.isPriceDefined then pure ()
  else do
    if ((← get).orders.find? ev.orderId).isSome then do
      logBook .duplicateAddReplaced ev
      cancelOrder { orderId := ev.orderId, size := 0 }
    placeOrder ev

/-- `modify_order` of a live order. -/
def modifyLive (oe : Ptr) (ev : MarketDataEvent) : BookM Unit := do
  let entry ← onEntries (load oe)
  let newPrice := if ev.isPriceDefined then ev.price else entry.price
  let newSide := if ev.side ≠ .none then ev.side else entry.side
  if newPrice = entry.price ∧ newSide = entry.side then do
    let newQty : ℤ := ev.size.toNat
    if newQty = 0 then cancelOrder { ev with size := 0 }
    else do
      onLevels (store entry.level fun level =>
        { level with totalQuantity := level.totalQuantity + (newQty - entry.quantity) })
      onEntries (store oe fun entry => { entry with quantity := newQty, lastUpdate := ev.tsEvent })
  else do
    cancelOrder { ev with size := 0 }
    addOrder { ev with action := .add, side := newSide, price := newPrice }

def modifyOrder (ev : MarketDataEvent) : BookM Unit := do
  match (← get).orders.find? ev.orderId with
  | none =>
    if ev.side ≠ .none ∧ ev.isPriceDefined then do
      logBook .unknownModifyAsAdd ev
      addOrder ev
    else logBook .unknownModifyIgnored ev
  | some oe => modifyLive (some oe) ev

def applyImpl (e : MarketDataEvent) : BookM Unit :=
  if shouldSkipEvent e.flags then pure ()
  else
    match e.action with
    | .add => addOrder e
    | .cancel => cancelOrder e
    | .modify => modifyOrder e
    | .clear => clearBook
    | _ => pure ()

/-- One event after the other. -/
def applyAll (events : List MarketDataEvent) : BookM Unit := events.forM applyImpl

def bestPrice (book : LimitOrderBook) (side : Side) : Option (Option ScaledPrice) :=
  match (match side with | .buy => book.bid.best | .sell => book.ask.best | .none => none) with
  | none => some none
  | some best => (book.priceLevels.read best).map fun level => some level.price

def volumeAt (book : LimitOrderBook) (side : Side) (price : ScaledPrice) : Option UInt64 :=
  if side ≠ .buy ∧ side ≠ .sell then some 0
  else
    match (book.levelsFor side).find? price with
    | none => some 0
    | some lv => (book.priceLevels.read lv).map fun level => UInt64.ofInt level.totalQuantity

def empty (book : LimitOrderBook) : Side → Bool
  | .buy => book.bid.tree = none
  | .sell => book.ask.tree = none
  | .none => book.bid.tree = none ∧ book.ask.tree = none

/-- The levels met from `p` on, each with its price and total. -/
def listLevels (step : Ptr → LevelM Ptr) : ℕ → Ptr → LevelM (List (ScaledPrice × ℤ))
  | _, none => pure []
  | 0, some _ => fun _ => none
  | fuel + 1, some lv => do
    let level ← load (some lv)
    let rest ← listLevels step fuel (← step (some lv))
    return (level.price, level.totalQuantity) :: rest

def sideLevels (book : LimitOrderBook) (side : Side) : Option (List (ScaledPrice × ℤ)) :=
  let fuel := book.priceLevels.next + 1
  match side with
  | .buy => (listLevels inorderPredecessor fuel book.bid.best).run' book.priceLevels
  | .sell => (listLevels inorderSuccessor fuel book.ask.best).run' book.priceLevels
  | .none => some []

end LimitOrderBook

end BackTester
