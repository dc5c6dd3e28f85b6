import BackTester.Proofs.OrderBook.Snapshot
import BackTester.Soundness.LimitOrderBook
import BackTester.Model.OrderBook.MapOrderBook

/-! # Soundness of the snapshots

The groups of a snapshot cover the levels of a side. What is printed as the lower and the upper price of a group are its
first and its last price: bounds on the side that lists the lowest price first.
-/

namespace BackTester

namespace LevelList

variable {levelList : LevelList} {groupByLevels : UInt64} {groups : List LevelGroup}

theorem flatten_slices (slices : Slices levelList.length 0 (groups.map LevelGroup.bounds)) :
    (groups.map levelList.slice).flatten = levelList := by
  have covered := slices.flatten
  rwa [List.map_map] at covered

theorem sum_totalQty (slices : Slices levelList.length 0 (groups.map LevelGroup.bounds))
    (describes : ∀ group ∈ groups, levelList.Describes group) :
    (groups.map LevelGroup.totalQty).sum = (levelList.map Prod.snd).sum := by
  calc (groups.map LevelGroup.totalQty).sum =
    (groups.map fun group => ((levelList.slice group).map Prod.snd).sum).sum := by
        rw [List.map_congr_left fun group member => (describes group member).totalQty]
    _ = ((groups.map levelList.slice).flatten.map Prod.snd).sum := by
        rw [List.map_flatten, List.sum_flatten, List.map_map, List.map_map]
        rfl
    _ = (levelList.map Prod.snd).sum := by rw [flatten_slices slices]

theorem sum_ofSideLevels (levels : List (ScaledPrice × ℤ)) :
    ((ofSideLevels levels).map Prod.snd).sum = UInt64.ofInt (levels.map Prod.snd).sum := by
  induction levels with
  | nil => rfl
  | cons level levels ih =>
    rw [List.map_cons, List.sum_cons, UInt64.ofInt_add, ← ih]
    rfl

end LevelList

namespace Snapshot

open LevelList

variable {side : Side} {levels : List (ScaledPrice × ℤ)} {groupByLevels : UInt64}

/-- The groups of a side with levels cover it, each level once and in order, and their totals add up to its total. -/
theorem printSide_slices (nonempty : levels ≠ []) (some' : 1 ≤ groupByLevels)
    (noWrap : levels.length + groupByLevels.toNat - 1 < 2 ^ 64) (side : Side) :
    ∃ groups : List LevelGroup,
      printSide side levels groupByLevels = some (sideTitle side ++ String.join (groups.map LevelGroup.line)) ∧
      groups.length ≤ groupByLevels.toNat ∧ Slices levels.length 0 (groups.map LevelGroup.bounds) ∧
      (groups.map (ofSideLevels levels).slice).flatten = ofSideLevels levels ∧
      (∀ group ∈ groups, (ofSideLevels levels).Describes group) ∧
      (groups.map LevelGroup.totalQty).sum = UInt64.ofInt (levels.map Prod.snd).sum := by
  have length : (ofSideLevels levels).length = levels.length := List.length_map ..
  have filled : ofSideLevels levels ≠ [] := by simpa [ofSideLevels] using nonempty
  obtain ⟨groups, read, short, slices, describes⟩ := groups_slices filled some' (by rwa [length])
  have described (group : LevelGroup) (member : group ∈ groups) := (describes group member).1
  refine ⟨groups, ?_, short, length ▸ slices, flatten_slices slices, described, ?_⟩
  · rw [printSide, if_neg (by simpa using nonempty), read]
    rfl
  · rw [sum_totalQty slices described, sum_ofSideLevels]

theorem printSide_slices_twoLevels :
    ∃ groups : List LevelGroup, printSide .sell [(100, 10), (101, 5)] 1 =
        some (sideTitle .sell ++ String.join (groups.map LevelGroup.line)) ∧
      groups.length ≤ 1 ∧ Slices 2 0 (groups.map LevelGroup.bounds) ∧
      (groups.map (LevelList.slice [(100, 10), (101, 5)])).flatten = [(100, 10), (101, 5)] ∧
      (∀ group ∈ groups, LevelList.Describes [(100, 10), (101, 5)] group) ∧
      (groups.map LevelGroup.totalQty).sum = 15 := by
  have nonempty : [((100 : ScaledPrice), (10 : ℤ)), (101, 5)] ≠ [] := by decide
  exact printSide_slices nonempty (by decide) (by decide) .sell

/-- The levels that a book lists for a side after some sequence of events. -/
inductive Reachable (side : Side) : List (ScaledPrice × ℤ) → Prop
  | limit {events : List MarketDataEvent} {book : LimitOrderBook} {levels : List (ScaledPrice × ℤ)}
      (run : (LimitOrderBook.applyAll events).run {} = some ((), book)) (listed : book.sideLevels side = some levels) :
      Reachable side levels
  | map (events : List MarketDataEvent) : Reachable side ((MapOrderBook.run events).sideLevels side)
  | abseil (events : List MarketDataEvent) : Reachable side ((AbseilOrderBook.run events).sideLevels side)

/-- Every level of a group has a price between the two that are printed for it. -/
def Bounded (levelList : LevelList) (groupByLevels : UInt64) : Prop :=
  ∀ groups, levelList.groups groupByLevels = some groups → ∀ group ∈ groups, ∀ level ∈ levelList.slice group,
    group.minPrice ≤ level.1 ∧ level.1 ≤ group.maxPrice

/-- The best price comes first. -/
def BestFirst (side : Side) (levelList : LevelList) : Prop :=
  levelList.Pairwise fun level behind => side.order level.1 behind.1 = .lt

theorem bestFirst_ofSideLevels : BestFirst side (ofSideLevels levels) ↔
    levels.Pairwise fun level behind => side.order level.1 behind.1 = .lt := List.pairwise_map

theorem order_of_better {p q : ScaledPrice} (better : ReferenceBook.better side p q) (different : p ≠ q) :
    side.order p q = .lt := by
  by_cases buy : side = .buy
  · subst buy
    rw [ReferenceBook.better_buy] at better
    exact compare_lt_iff_lt.mpr (lt_of_le_of_ne better different.symm)
  · rw [ReferenceBook.better_of_ne_buy buy] at better
    have less := compare_lt_iff_lt.mpr (lt_of_le_of_ne better different)
    cases side with
    | buy => contradiction
    | sell | none => exact less

/-- Every book lists the levels of a side from the best price on. -/
theorem Reachable.bestFirst (reachable : Reachable side levels) (sided : side ≠ .none) :
    BestFirst side (ofSideLevels levels) := by
  rw [bestFirst_ofSideLevels]
  cases reachable with
  | limit run listed =>
    obtain ⟨other, runOther, answers⟩ := LimitOrderBook.answers_applyAll _
    rw [run, Option.some_inj, Prod.mk.injEq] at runOther
    obtain ⟨-, rfl⟩ := runOther
    rw [(answers side sided).2.2.2, Option.some_inj] at listed
    rw [← listed, ReferenceBook.sideLevels, List.map_map, List.pairwise_map]
    exact List.Pairwise.imp₂ (fun _ _ => order_of_better) (ReferenceBook.pairwise_prices _ side)
      (ReferenceBook.nodup_prices _ side)
  | map events =>
    cases side with
    | none => contradiction
    | buy | sell => exact Std.ExtTreeMap.ordered_keys_toList
  | abseil events =>
    cases side with
    | none => contradiction
    | buy | sell => exact Std.ExtTreeMap.ordered_keys_toList

variable {levelList : LevelList}

theorem BestFirst.slice (sorted : BestFirst side levelList) (group : LevelGroup) :
    BestFirst side (levelList.slice group) := by
  rw [LevelList.slice, List.extract_eq_take_drop]
  exact sorted.sublist ((List.take_sublist _ _).trans (List.drop_sublist _ _))

/-- Asks ascend, so that the first and the last price of a group are bounds. -/
theorem bounded_of_sell (sorted : BestFirst .sell levelList)
    (describes : ∀ groups, levelList.groups groupByLevels = some groups → ∀ group ∈ groups, levelList.Describes group) :
    Bounded levelList groupByLevels := by
  intro groups read group member level inside
  have ascending : (levelList.slice group).Pairwise fun level behind => level.1 < behind.1 :=
    (sorted.slice group).imp compare_lt_iff_lt.mp
  have described := describes groups read group member
  constructor
  · obtain ⟨first, isFirst, isMin⟩ := Option.map_eq_some_iff.mp described.minPrice
    obtain ⟨rest, isSlice⟩ := List.head?_eq_some_iff.mp isFirst
    rw [isSlice, List.mem_cons] at inside
    rw [isSlice, List.pairwise_cons] at ascending
    rw [← isMin]
    rcases inside with rfl | behind
    · exact le_refl _
    · exact (ascending.1 level behind).le
  · obtain ⟨last, isLast, isMax⟩ := Option.map_eq_some_iff.mp described.maxPrice
    obtain ⟨front, isSlice⟩ := List.getLast?_eq_some_iff.mp isLast
    rw [isSlice, List.mem_append, List.mem_singleton] at inside
    rw [isSlice, List.pairwise_append] at ascending
    rw [← isMax]
    rcases inside with before | rfl
    · exact (ascending.2.2 level before last (List.mem_singleton_self _)).le
    · exact le_refl _

/-- A level that is alone in its group is both bounds. -/
theorem bounded_of_alone (describes : ∀ groups, levelList.groups groupByLevels = some groups → ∀ group ∈ groups,
    levelList.Describes group ∧ group.bounds.2 ≤ group.bounds.1 + 1) : Bounded levelList groupByLevels := by
  intro groups read group member level inside
  obtain ⟨described, narrow⟩ := describes groups read group member
  have atMostOne : (levelList.slice group).length ≤ 1 := by
    rw [LevelList.slice, List.extract_eq_take_drop, List.length_take]
    omega
  have isMin := described.minPrice
  have isMax := described.maxPrice
  cases isSlice : levelList.slice group with
  | nil => simp [isSlice] at inside
  | cons first rest =>
    rw [isSlice, List.length_cons] at atMostOne
    obtain rfl : rest = [] := List.length_eq_zero_iff.mp (by omega)
    rw [isSlice, List.mem_singleton] at inside
    subst inside
    rw [isSlice, List.head?_cons, Option.map_some, Option.some_inj] at isMin
    rw [isSlice, List.getLast?_singleton, Option.map_some, Option.some_inj] at isMax
    exact ⟨isMin.ge, isMax.le⟩

/-- Bids descend, so that a group of several has its bounds the wrong way round. -/
theorem not_bounded_of_buy (sorted : BestFirst .buy levelList) {groups : List LevelGroup}
    (read : levelList.groups groupByLevels = some groups) {group : LevelGroup} (member : group ∈ groups)
    (described : levelList.Describes group) (inside : group.bounds.2 ≤ levelList.length)
    (wide : group.bounds.1 + 1 < group.bounds.2) : ¬Bounded levelList groupByLevels := by
  intro bounded
  have descending : (levelList.slice group).Pairwise fun level behind => behind.1 < level.1 :=
    (sorted.slice group).imp compare_lt_iff_lt.mp
  have several : 2 ≤ (levelList.slice group).length := by
    rw [LevelList.slice, List.extract_eq_take_drop, List.length_take, List.length_drop]
    omega
  obtain ⟨first, isFirst, isMin⟩ := Option.map_eq_some_iff.mp described.minPrice
  obtain ⟨last, isLast, isMax⟩ := Option.map_eq_some_iff.mp described.maxPrice
  obtain ⟨rest, isSlice⟩ := List.head?_eq_some_iff.mp isFirst
  have upper := (bounded groups read group member first (by simp [isSlice])).2
  rw [isSlice, List.length_cons] at several
  obtain ⟨other, others, rfl⟩ := List.exists_cons_of_length_pos (show 0 < rest.length by omega)
  rw [isSlice, List.getLast?_cons_cons] at isLast
  rw [isSlice, List.pairwise_cons] at descending
  have below := descending.1 last (List.mem_of_getLast? isLast)
  rw [← isMax] at upper
  exact absurd upper below.not_ge

/-- The printed prices are bounds just for asks, and where no group has more than one level. -/
theorem BestFirst.bounded_ofSideLevels (sorted : BestFirst side levelList) (sided : side ≠ .none)
    (some' : 1 ≤ groupByLevels) (noWrap : levelList.length + groupByLevels.toNat - 1 < 2 ^ 64) :
    Bounded levelList groupByLevels ↔ side = .sell ∨ levelList.length ≤ groupByLevels.toNat := by
  cases isList : levelList with
  | nil =>
    constructor
    · intro _
      exact .inr (Nat.zero_le _)
    · intro _ groups _ group _ level inside
      simp [LevelList.slice] at inside
  | cons best others =>
    rw [← isList]
    have nonempty : levelList ≠ [] := by simp [isList]
    obtain ⟨groups, read, short, slices, describes⟩ := groups_slices nonempty some' noWrap
    have unique (other : List LevelGroup) (readOther : levelList.groups groupByLevels = some other) :
        other = groups := by
      rwa [read, Option.some_inj, eq_comm] at readOther
    constructor
    · intro bounded
      by_contra notEither
      rw [not_or, not_le] at notEither
      obtain ⟨notSell, many⟩ := notEither
      have buy : side = .buy := by
        cases side with
        | none => contradiction
        | buy => rfl
        | sell => contradiction
      subst buy
      obtain ⟨bound, isBound, wide⟩ := slices.exists_long (by rw [List.length_map]; omega)
      obtain ⟨group, member, rfl⟩ := List.mem_map.mp isBound
      exact not_bounded_of_buy sorted read member (describes group member).1 (slices.bounded _ isBound).2 wide bounded
    · rintro (rfl | few)
      · apply bounded_of_sell sorted
        intro other readOther group member
        exact (describes group (unique other readOther ▸ member)).1
      · apply bounded_of_alone
        intro other readOther group member
        obtain ⟨described, narrow⟩ := describes group (unique other readOther ▸ member)
        have single : levelList.groupWidth groupByLevels ≤ 1 := by
          rw [UInt64.le_iff_toNat_le, UInt64.toNat_one] at some'
          apply Nat.le_of_lt_succ
          apply Nat.div_lt_of_lt_mul
          omega
        exact ⟨described, by omega⟩

/-- For the levels of a book, whichever it is and whatever it was fed. -/
theorem bounded_iff (reachable : Reachable side levels) (sided : side ≠ .none) (some' : 1 ≤ groupByLevels)
    (noWrap : levels.length + groupByLevels.toNat - 1 < 2 ^ 64) :
    Bounded (ofSideLevels levels) groupByLevels ↔ side = .sell ∨ levels.length ≤ groupByLevels.toNat := by
  have length : (ofSideLevels levels).length = levels.length := List.length_map ..
  rw [(reachable.bestFirst sided).bounded_ofSideLevels sided some' (by rwa [length]), length]

/-- Two bids at different prices. -/
def twoBids : List MarketDataEvent :=
  [{ orderId := 1, side := .buy, price := 100, size := 10, action := .add },
    { orderId := 2, side := .buy, price := 101, size := 5, action := .add }]

theorem sideLevels_twoBids : (MapOrderBook.run twoBids).sideLevels .buy = [(101, 5), (100, 10)] := by decide +kernel

theorem bounded_iff_twoBids : Bounded (ofSideLevels [(101, 5), (100, 10)]) 2 ↔ Side.buy = .sell ∨ 2 ≤ 2 := by
  have reachable : Reachable .buy [(101, 5), (100, 10)] := sideLevels_twoBids ▸ .map twoBids
  exact bounded_iff reachable (by decide) (by decide) (by decide)

/-- Both bids in one group are printed as `[101, 100] : 15`. -/
theorem not_bounded : ¬∀ side ≠ .none, ∀ levels, Reachable side levels → ∀ groupByLevels : UInt64, 1 ≤ groupByLevels →
    levels.length + groupByLevels.toNat - 1 < 2 ^ 64 → Bounded (ofSideLevels levels) groupByLevels := by
  intro always
  have reachable : Reachable .buy [(101, 5), (100, 10)] := sideLevels_twoBids ▸ .map twoBids
  have bounded := always .buy (by decide) _ reachable 1 (by decide) (by decide)
  have sorted := reachable.bestFirst (by decide)
  rw [sorted.bounded_ofSideLevels (by decide) (by decide) (by decide)] at bounded
  revert bounded
  decide

end Snapshot

end BackTester
