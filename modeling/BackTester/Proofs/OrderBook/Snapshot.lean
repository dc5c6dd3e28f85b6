import BackTester.Model.OrderBook.Snapshot
import BackTester.ToMathlib.Slices
import Mathlib.Data.UInt

/-! # The groups of a snapshot

The loop over the groups reads inside the list of levels, and cuts it into slices.
-/

namespace BackTester

/-- The bounds of a group. -/
def LevelGroup.bounds (group : LevelGroup) : ℕ × ℕ := (group.start.toNat, group.stop.toNat)

namespace LevelList

variable {levelList : LevelList} {groupByLevels levelsPerGroup g stop i : UInt64}

/-- The levels of a group. -/
def slice (levelList : LevelList) (group : LevelGroup) : LevelList := levelList.extract group.bounds.1 group.bounds.2

/-- The group has the first price, the last price and the total of its levels. -/
structure Describes (levelList : LevelList) (group : LevelGroup) : Prop where
  minPrice : (levelList.slice group).head?.map Prod.fst = some group.minPrice
  maxPrice : (levelList.slice group).getLast?.map Prod.fst = some group.maxPrice
  totalQty : group.totalQty = ((levelList.slice group).map Prod.snd).sum

theorem toNat_size (few : levelList.length < 2 ^ 64) : levelList.size.toNat = levelList.length :=
  UInt64.toNat_ofNat_of_lt' few

theorem toNat_add_one_of_lt (below : i < stop) : (i + 1).toNat = i.toNat + 1 := by
  have := stop.toNat_lt
  rw [UInt64.lt_iff_toNat_lt] at below
  rw [UInt64.toNat_add, UInt64.toNat_one, Nat.mod_eq_of_lt (by omega)]

/-- The inner loop adds the quantities of a slice. -/
theorem totalQty_eq (inside : stop.toNat ≤ levelList.length) (sum : UInt64) :
    levelList.totalQty stop i sum = some (sum + ((levelList.extract i.toNat stop.toNat).map Prod.snd).sum) := by
  fun_induction LevelList.totalQty levelList stop i sum with
  | case1 i sum below ih =>
    have next := toNat_add_one_of_lt below
    rw [UInt64.lt_iff_toNat_lt] at below
    have here : i.toNat < levelList.length := by omega
    have split : levelList.extract i.toNat stop.toNat =
        levelList[i.toNat] :: levelList.extract (i + 1).toNat stop.toNat := by
      obtain ⟨width, isWidth⟩ : ∃ width, stop.toNat - i.toNat = width + 1 := ⟨stop.toNat - i.toNat - 1, by omega⟩
      rw [List.extract_eq_take_drop, List.extract_eq_take_drop, List.drop_eq_getElem_cons here, next, isWidth,
        List.take_succ_cons, show stop.toNat - (i.toNat + 1) = width by omega]
    rw [List.getElem?_eq_getElem here, Option.bind_eq_bind, Option.bind_some, ih, split, List.map_cons, List.sum_cons,
      UInt64.add_assoc]
  | case2 i sum past =>
    rw [UInt64.lt_iff_toNat_lt] at past
    rw [List.extract_eq_take_drop, show stop.toNat - i.toNat = 0 by omega]
    simp

/-- The first and the last level of a slice that is not empty. -/
theorem ends_of_slice {first last : ℕ} (nonempty : first < last) (inside : last ≤ levelList.length) :
    (levelList.extract first last).head? = levelList[first]? ∧
      (levelList.extract first last).getLast? = levelList[last - 1]? := by
  have length : (levelList.extract first last).length = last - first := by
    rw [List.extract_eq_take_drop, List.length_take, List.length_drop]
    omega
  constructor
  · rw [List.head?_eq_getElem?, List.extract_eq_take_drop, List.getElem?_take, if_pos (by omega), List.getElem?_drop,
      Nat.add_zero]
  · rw [List.getLast?_eq_getElem?, length, List.extract_eq_take_drop, List.getElem?_take, if_pos (by omega),
      List.getElem?_drop, show first + (last - first - 1) = last - 1 by omega]

theorem toNat_min (m n : UInt64) : (min m n).toNat = min m.toNat n.toNat := by
  change (if m ≤ n then m else n).toNat = _
  split
  · next le => rw [Nat.min_eq_left (UInt64.le_iff_toNat_le.mp le)]
  · next notLe =>
    rw [UInt64.le_iff_toNat_le] at notLe
    rw [Nat.min_eq_right (by omega)]

/-- A group that begins in the list is read without an index out of range. -/
theorem group_eq {index width : ℕ} (few : levelList.length < 2 ^ 64) (isIndex : g.toNat = index)
    (isWidth : levelsPerGroup.toNat = width) (positive : 0 < width) (begins : index * width < levelList.length)
    (fits : (index + 1) * width < 2 ^ 64) :
    ∃ group, levelList.group levelsPerGroup g = some group ∧ levelList.Describes group ∧
      group.bounds = (index * width, min ((index + 1) * width) levelList.length) := by
  let start := g * levelsPerGroup
  let stop := min ((g + 1) * levelsPerGroup) levelList.size
  have wider : (index + 1) * width = index * width + width := Nat.succ_mul _ _
  have oneMore : (g + 1).toNat = index + 1 := by
    have : index + 1 ≤ (index + 1) * width := Nat.le_mul_of_pos_right _ positive
    rw [UInt64.toNat_add, UInt64.toNat_one, isIndex, Nat.mod_eq_of_lt (by omega)]
  have isStart : start.toNat = index * width := by
    rw [UInt64.toNat_mul, isIndex, isWidth, Nat.mod_eq_of_lt (by omega)]
  have isStop : stop.toNat = min ((index + 1) * width) levelList.length := by
    rw [toNat_min, UInt64.toNat_mul, oneMore, isWidth, Nat.mod_eq_of_lt fits, toNat_size few]
  have isLast : (stop - 1).toNat = stop.toNat - 1 := by
    apply UInt64.toNat_sub_of_le
    rw [UInt64.le_iff_toNat_le, UInt64.toNat_one, isStop]
    omega
  have nonempty : start.toNat < stop.toNat := by omega
  have inside : stop.toNat ≤ levelList.length := by omega
  obtain ⟨isHead, isEnd⟩ := ends_of_slice nonempty inside
  obtain ⟨first, readFirst⟩ : ∃ first, levelList[start.toNat]? = some first := ⟨_, List.getElem?_eq_getElem (by omega)⟩
  obtain ⟨last, readLast⟩ : ∃ last, levelList[stop.toNat - 1]? = some last := ⟨_, List.getElem?_eq_getElem (by omega)⟩
  let total := ((levelList.extract start.toNat stop.toNat).map Prod.snd).sum
  refine ⟨⟨start, stop, first.1, last.1, total⟩, ?_, ⟨?_, ?_, rfl⟩, ?_⟩
  · unfold group
    dsimp only
    rw [readFirst, isLast, readLast, totalQty_eq inside, UInt64.zero_add]
    rfl
  · rw [slice, LevelGroup.bounds, isHead, readFirst]
    rfl
  · rw [slice, LevelGroup.bounds, isEnd, readLast]
    rfl
  · rw [LevelGroup.bounds, isStart, isStop]

/-- The outer loop cuts what is left of the list into slices, of one width but for the last. -/
theorem groupsFrom_slices {width : ℕ} (few : levelList.length < 2 ^ 64) (isWidth : levelsPerGroup.toNat = width)
    (positive : 0 < width) (enough : levelList.length ≤ groupByLevels.toNat * width)
    (fits : groupByLevels.toNat * width < 2 ^ 64) (inRange : g.toNat ≤ groupByLevels.toNat) :
    ∃ groups, levelList.groupsFrom groupByLevels levelsPerGroup g = some groups ∧
      groups.length ≤ groupByLevels.toNat - g.toNat ∧
      Slices levelList.length (min (g.toNat * width) levelList.length) (groups.map LevelGroup.bounds) ∧
      ∀ group ∈ groups, levelList.Describes group ∧ group.bounds.2 ≤ group.bounds.1 + width := by
  fun_induction LevelList.groupsFrom levelList groupByLevels levelsPerGroup g with
  | case1 g more ih =>
    obtain ⟨below, begins⟩ := more
    have next := toNat_add_one_of_lt below
    rw [UInt64.lt_iff_toNat_lt] at below begins
    have wider : (g.toNat + 1) * width = g.toNat * width + width := Nat.succ_mul _ _
    have upTo : (g.toNat + 1) * width ≤ groupByLevels.toNat * width := Nat.mul_le_mul_right _ below
    rw [toNat_size few, UInt64.toNat_mul, isWidth, Nat.mod_eq_of_lt (by omega)] at begins
    obtain ⟨group, read, describes, bounds⟩ := group_eq few rfl isWidth positive begins (by omega)
    obtain ⟨groups, readRest, short, slices, describesRest⟩ := ih (by omega)
    refine ⟨group :: groups, ?_, ?_, ?_, List.forall_mem_cons.mpr ⟨⟨describes, ?_⟩, describesRest⟩⟩
    · rw [read, readRest]
      rfl
    · rw [List.length_cons]
      omega
    · rw [next] at slices
      rw [List.map_cons, bounds]
      exact ⟨by omega, by omega, by omega, slices⟩
    · rw [bounds]
      omega
  | case2 g done =>
    refine ⟨[], rfl, by simp, ?_, by simp⟩
    change min (g.toNat * width) levelList.length = levelList.length
    rw [Nat.min_eq_right]
    rw [UInt64.lt_iff_toNat_lt, UInt64.lt_iff_toNat_lt, toNat_size few, UInt64.toNat_mul, isWidth] at done
    have upTo : g.toNat * width ≤ groupByLevels.toNat * width := Nat.mul_le_mul_right _ inRange
    rw [Nat.mod_eq_of_lt (by omega)] at done
    by_contra begins
    have atEnd : g.toNat = groupByLevels.toNat := by omega
    rw [atEnd] at begins
    omega

/-- How many levels a group has, rounded up. -/
def groupWidth (levelList : LevelList) (groupByLevels : UInt64) : ℕ :=
  (levelList.length + groupByLevels.toNat - 1) / groupByLevels.toNat

/-- The groups of a side with levels: so many slices as asked for, at most, each described by its group. -/
theorem groups_slices (nonempty : levelList ≠ []) (some' : 1 ≤ groupByLevels)
    (noWrap : levelList.length + groupByLevels.toNat - 1 < 2 ^ 64) :
    ∃ groups, levelList.groups groupByLevels = some groups ∧ groups.length ≤ groupByLevels.toNat ∧
      Slices levelList.length 0 (groups.map LevelGroup.bounds) ∧
      ∀ group ∈ groups, levelList.Describes group ∧
      group.bounds.2 ≤ group.bounds.1 + levelList.groupWidth groupByLevels := by
  rw [UInt64.le_iff_toNat_le, UInt64.toNat_one] at some'
  have length := List.length_pos_iff.mpr nonempty
  have few : levelList.length < 2 ^ 64 := by omega
  have notZero : groupByLevels ≠ 0 := by
    rintro rfl
    contradiction
  let rounded := levelList.length + groupByLevels.toNat - 1
  have isWidth : ((levelList.size + groupByLevels - 1) / groupByLevels).toNat = levelList.groupWidth groupByLevels := by
    have numerator : (levelList.size + groupByLevels - 1).toNat = rounded := by
      have := groupByLevels.toNat_lt
      rw [UInt64.toNat_sub, UInt64.toNat_add, UInt64.toNat_one, toNat_size few]
      omega
    rw [UInt64.toNat_div, numerator, groupWidth]
  have positive : 0 < levelList.groupWidth groupByLevels := Nat.div_pos (by omega) (by omega)
  have fits : groupByLevels.toNat * levelList.groupWidth groupByLevels ≤ rounded := Nat.mul_div_le _ _
  have enough : levelList.length ≤ groupByLevels.toNat * levelList.groupWidth groupByLevels := by
    have := Nat.lt_mul_div_succ rounded some'
    rw [Nat.mul_add, Nat.mul_one] at this
    change rounded < groupByLevels.toNat * levelList.groupWidth groupByLevels + groupByLevels.toNat at this
    omega
  obtain ⟨groups, read, short, slices, describes⟩ :=
    groupsFrom_slices few isWidth positive enough (by omega) (g := 0) (Nat.zero_le _)
  rw [UInt64.toNat_zero, Nat.zero_mul, Nat.zero_min] at slices
  refine ⟨groups, ?_, short, slices, describes⟩
  rw [LevelList.groups, if_neg notZero, read]

end LevelList

end BackTester
