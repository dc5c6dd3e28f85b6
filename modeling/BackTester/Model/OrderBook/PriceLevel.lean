import BackTester.ToMathlib.Heap
import BackTester.Model.Common.MarketDataEvent

/-! # Price levels and their AVL tree

`PriceLevel` objects carry the tree links and the ends of their order queue. The functions follow
the source statement by statement on the free store. A loop takes the number of iterations it may
make and is stuck beyond it; every caller passes more than the number of objects ever created, so
a stuck loop is one that does not end.
-/

namespace BackTester

structure PriceLevel where
  price : ScaledPrice := 0
  orderCount : ℤ := 0
  totalQuantity : ℤ := 0
  parent : Ptr := none
  leftChild : Ptr := none
  rightChild : Ptr := none
  height : ℤ := 1
  front : Ptr := none
  back : Ptr := none
deriving DecidableEq, Repr, Inhabited

abbrev LevelM := StateT (Heap PriceLevel) Option

namespace PriceLevel

open Heap

/-- `height(const PriceLevel*)`: null has height zero. -/
def heightOf : Ptr → LevelM ℤ
  | none => pure 0
  | some n => do return (← load (some n)).height

def updateHeight (n : Ptr) : LevelM Unit := do
  let left ← heightOf (← load n).leftChild
  let right ← heightOf (← load n).rightChild
  store n fun level => { level with height := 1 + max left right }

def balanceFactor (n : Ptr) : LevelM ℤ := do
  let left ← heightOf (← load n).leftChild
  let right ← heightOf (← load n).rightChild
  return left - right

/-- `if (p) p->parent = q;` -/
def setParent (p q : Ptr) : LevelM Unit :=
  match p with
  | none => pure ()
  | some _ => store p fun level => { level with parent := q }

/-- Rotate `n` to the right; the caller fixes the parent's child pointer. -/
def rotateRight (n : Ptr) : LevelM Ptr := do
  let l := (← load n).leftChild
  let inner := (← load l).rightChild
  store n fun level => { level with leftChild := inner }
  setParent inner n
  store l fun level => { level with rightChild := n }
  let above := (← load n).parent
  store l fun level => { level with parent := above }
  store n fun level => { level with parent := l }
  updateHeight n
  updateHeight l
  return l

def rotateLeft (n : Ptr) : LevelM Ptr := do
  let r := (← load n).rightChild
  let inner := (← load r).leftChild
  store n fun level => { level with rightChild := inner }
  setParent inner n
  store r fun level => { level with leftChild := n }
  let above := (← load n).parent
  store r fun level => { level with parent := above }
  store n fun level => { level with parent := r }
  updateHeight n
  updateHeight r
  return r

/-- The LR case: bring the left child's right child up first. -/
def straightenLeft (n : Ptr) : LevelM Unit := do
  if (← balanceFactor (← load n).leftChild) < 0 then
    let pivot ← rotateLeft (← load n).leftChild
    store n fun level => { level with leftChild := pivot }
    store (← load n).leftChild fun level => { level with parent := n }

/-- The RL case. -/
def straightenRight (n : Ptr) : LevelM Unit := do
  if (← balanceFactor (← load n).rightChild) > 0 then
    let pivot ← rotateRight (← load n).rightChild
    store n fun level => { level with rightChild := pivot }
    store (← load n).rightChild fun level => { level with parent := n }

/-- Restore the balance at `n`; returns the node now at this position. -/
def fixOne (n : Ptr) : LevelM Ptr := do
  updateHeight n
  let bf ← balanceFactor n
  if bf > 1 then do
    straightenLeft n
    rotateRight n
  else if bf < -1 then do
    straightenRight n
    rotateLeft n
  else return n

/-- Point the child link of `par` that led to `cur` at `next`; nothing to do above the root. -/
def replaceChild (par cur next : Ptr) : LevelM Unit :=
  match par with
  | none => pure ()
  | some _ => do
    if (← load par).leftChild = cur then store par fun level => { level with leftChild := next }
    else store par fun level => { level with rightChild := next }

/-- Reattach the node that took the place of `cur`. -/
def reattach (par cur nr : Ptr) : LevelM Unit :=
  if nr = cur then pure ()
  else do
    replaceChild par cur nr
    store nr fun level => { level with parent := par }

/-- Walk from `cur` up to the root, rebalancing each node; returns the possibly new root. -/
def rebalanceUp : ℕ → Ptr → Ptr → LevelM Ptr
  | _, none, newRoot => pure newRoot
  | 0, some _, _ => fun _ => none
  | fuel + 1, some cur, newRoot => do
    let par := (← load (some cur)).parent
    let nr ← fixOne (some cur)
    reattach par (some cur) nr
    rebalanceUp fuel par (if par = none then nr else newRoot)

/-- The descent of `avl_insert`: hang `node` where the search for its price ends. -/
def insertBelow : ℕ → Ptr → Ptr → LevelM Unit
  | 0, _, _ => fun _ => none
  | fuel + 1, node, cur => do
    if (← load node).price < (← load cur).price then
      match (← load cur).leftChild with
      | none => do
        store cur fun level => { level with leftChild := node }
        store node fun level => { level with parent := cur }
      | some next => insertBelow fuel node (some next)
    else
      match (← load cur).rightChild with
      | none => do
        store cur fun level => { level with rightChild := node }
        store node fun level => { level with parent := cur }
      | some next => insertBelow fuel node (some next)

def avlInsert (root node : Ptr) : LevelM Ptr := do
  store node fun level =>
    { level with leftChild := none, rightChild := none, parent := none, height := 1 }
  match root with
  | none => return node
  | some _ => do
    insertBelow ((← get).next + 1) node root
    rebalanceUp ((← get).next + 1) (← load node).parent root

/-- The left-most node below `n`. -/
def leftmost : ℕ → Ptr → LevelM Ptr
  | 0, _ => fun _ => none
  | fuel + 1, n => do
    match (← load n).leftChild with
    | none => return n
    | some next => leftmost fuel (some next)

/-- Place `succ` in the position of `node`. -/
def ascend (node nodePar nodeLeft succ : Ptr) : LevelM Unit := do
  store succ fun level => { level with parent := nodePar, leftChild := nodeLeft }
  store nodeLeft fun level => { level with parent := succ }
  replaceChild nodePar node succ

/-- The `if (direct)` block of `avl_remove`: `succ` takes over the right subtree of `node`, and
`node` the old position of `succ`, which is a left child unless `succ` was itself the right child. -/
def descend (direct : Bool) (node nodeRight succ succPar : Ptr) : LevelM Unit :=
  if direct then do
    store succ fun level => { level with rightChild := node }
    store node fun level => { level with parent := succ }
  else do
    store succ fun level => { level with rightChild := nodeRight }
    store nodeRight fun level => { level with parent := succ }
    store succPar fun level => { level with leftChild := node }
    store node fun level => { level with parent := succPar }

/-- `node` takes over the right subtree of `succ`, and `succ` the height of `node`. -/
def settle (node succ succRight : Ptr) : LevelM Unit := do
  store node fun level => { level with leftChild := none, rightChild := succRight }
  setParent succRight node
  let height := (← load node).height
  store succ fun level => { level with height := height }
  updateHeight node

/-- The two-child case of `avl_remove`: physically swap `node` with its in-order successor, so
that `node` ends up with at most one child. Returns the root. -/
def swapWithSuccessor (root node : Ptr) : LevelM Ptr := do
  let succ ← leftmost ((← get).next + 1) (← load node).rightChild
  let { parent := nodePar, leftChild := nodeLeft, rightChild := nodeRight, .. } ← load node
  let { parent := succPar, rightChild := succRight, .. } ← load succ
  ascend node nodePar nodeLeft succ
  descend (decide (succ = nodeRight)) node nodeRight succ succPar
  settle node succ succRight
  return if nodePar = none then succ else root

/-- The rest of `avl_remove`: `node` has at most one child. -/
def spliceOut (root node : Ptr) : LevelM Ptr := do
  let level ← load node
  let child := if level.rightChild ≠ none then level.rightChild else level.leftChild
  let rebalanceStart := level.parent
  replaceChild rebalanceStart node child
  setParent child rebalanceStart
  store node fun level =>
    { level with parent := none, leftChild := none, rightChild := none, height := 1 }
  rebalanceUp ((← get).next + 1) rebalanceStart (if rebalanceStart = none then child else root)

def avlRemove (root node : Ptr) : LevelM Ptr := do
  let level ← load node
  if level.leftChild ≠ none ∧ level.rightChild ≠ none then do
    let root ← swapWithSuccessor root node
    spliceOut root node
  else spliceOut root node

end PriceLevel

end BackTester
