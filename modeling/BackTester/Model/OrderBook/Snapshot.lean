import BackTester.Model.Common.MarketDataEvent

/-! # Snapshots by groups of levels

`print_snapshot(out, group_by_levels)` of every order book: the levels of a side, cut into groups,
and one line for each group. Indices are `size_t` and wrap; an index out of range and a division
by zero get stuck.
-/

namespace BackTester

/-- `level_list`, with quantities as `uint64_t`. -/
abbrev LevelList := List (ScaledPrice × UInt64)

/-- What is printed of a group, and the indices between which its levels stand. -/
structure LevelGroup where
  start : UInt64
  stop : UInt64
  minPrice : ScaledPrice
  maxPrice : ScaledPrice
  totalQty : UInt64
deriving DecidableEq, Repr

namespace LevelGroup

def line (group : LevelGroup) : String :=
  "  [" ++ toString group.minPrice ++ ", " ++ toString group.maxPrice ++ "] : " ++ toString group.totalQty.toNat ++ "\n"

end LevelGroup

namespace LevelList

def size (levelList : LevelList) : UInt64 := UInt64.ofNat levelList.length

/-- The quantities from an index up to another, added to what is there. -/
def totalQty (levelList : LevelList) (stop i sum : UInt64) : Option UInt64 :=
  if i < stop then do
    let level ← levelList[i.toNat]?
    totalQty levelList stop (i + 1) (sum + level.2)
  else some sum
termination_by stop.toNat - i.toNat
decreasing_by
  have := stop.toNat_lt
  simp only [UInt64.lt_iff_toNat_lt, UInt64.toNat_add, UInt64.toNat_one] at *
  omega

/-- The group with an index. -/
def group (levelList : LevelList) (levelsPerGroup g : UInt64) : Option LevelGroup := do
  let start := g * levelsPerGroup
  let stop := min ((g + 1) * levelsPerGroup) levelList.size
  let first ← levelList[start.toNat]?
  let last ← levelList[(stop - 1).toNat]?
  let totalQty ← levelList.totalQty stop start 0
  return { start, stop, minPrice := first.1, maxPrice := last.1, totalQty }

/-- The groups from an index on. -/
def groupsFrom (levelList : LevelList) (groupByLevels levelsPerGroup g : UInt64) : Option (List LevelGroup) :=
  if g < groupByLevels ∧ g * levelsPerGroup < levelList.size then do
    let group ← levelList.group levelsPerGroup g
    return group :: (← groupsFrom levelList groupByLevels levelsPerGroup (g + 1))
  else some []
termination_by groupByLevels.toNat - g.toNat
decreasing_by
  have := groupByLevels.toNat_lt
  simp only [UInt64.lt_iff_toNat_lt, UInt64.toNat_add, UInt64.toNat_one] at *
  omega

def groups (levelList : LevelList) (groupByLevels : UInt64) : Option (List LevelGroup) :=
  if groupByLevels = 0 then none
  else levelList.groupsFrom groupByLevels ((levelList.size + groupByLevels - 1) / groupByLevels) 0

/-- A copy of the levels of a side, which keep quantities as `int64_t`. -/
def ofSideLevels (levels : List (ScaledPrice × ℤ)) : LevelList :=
  levels.map fun (price, qty) => (price, UInt64.ofInt qty)

end LevelList

namespace Snapshot

def sideTitle (side : Side) : String := "// " ++ (if side = .buy then "BUY" else "SELL") ++ "\n"

/-- What is printed of a side. -/
def printSide (side : Side) (levels : List (ScaledPrice × ℤ)) (groupByLevels : UInt64) : Option String :=
  if levels.isEmpty then some (sideTitle side ++ "  (empty)\n")
  else do
    let groups ← (LevelList.ofSideLevels levels).groups groupByLevels
    return sideTitle side ++ String.join (groups.map LevelGroup.line)

/-- What is printed of a book with these levels on its sides. -/
def printSnapshot (sideLevels : Side → Option (List (ScaledPrice × ℤ))) (groupByLevels : UInt64) : Option String := do
  let bids ← printSide .buy (← sideLevels .buy) groupByLevels
  let asks ← printSide .sell (← sideLevels .sell) groupByLevels
  return bids ++ asks

end Snapshot

end BackTester
