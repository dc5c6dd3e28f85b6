import Mathlib.Data.List.Sort

/-! # Stable sorting and merging by a key

A list sorted by a key is known by its elements of each key, in their order. A stable sort keeps
that order, and so does a merge that prefers its left input at equal keys; hence merging two stably
sorted lists sorts their concatenation stably.
-/

namespace List

variable {α β : Type*} [LinearOrder β] (key : α → β)

/-- Keys do not decrease. -/
def SortedBy (xs : List α) : Prop := xs.Pairwise fun a b => key a ≤ key b

/-- The stable sort by the key. -/
def sortBy (xs : List α) : List α := xs.mergeSort fun a b => decide (key a ≤ key b)

/-- The merge that takes the left element unless the right one has a smaller key. -/
def mergeBy (xs ys : List α) : List α := merge xs ys fun a b => decide (key a ≤ key b)

variable {key} {xs ys : List α}

theorem sortedBy_iff : xs.SortedBy key ↔ xs.Pairwise fun a b => decide (key a ≤ key b) = true := by
  simp only [SortedBy, decide_eq_true_eq]

/-- Lists sorted by a key that have the same elements of each key in the same order are equal. -/
theorem SortedBy.eq_of_filter (sortedXs : xs.SortedBy key) (sortedYs : ys.SortedBy key)
    (same : ∀ k, xs.filter (key · = k) = ys.filter (key · = k)) : xs = ys := by
  have mem {zs : List α} (a : α) : a ∈ zs ↔ a ∈ zs.filter (key · = key a) := by simp
  induction xs generalizing ys with
  | nil =>
    cases ys with
    | nil => rfl
    | cons b ys =>
      have there := (mem b).mp (mem_cons_self : b ∈ b :: ys)
      rw [← same] at there
      contradiction
  | cons a xs ih =>
    cases ys with
    | nil =>
      have there := (mem a).mp (mem_cons_self : a ∈ a :: xs)
      rw [same] at there
      contradiction
    | cons b ys =>
      have a_mem : a ∈ b :: ys := by
        rw [mem, ← same, ← mem]
        exact mem_cons_self
      have b_mem : b ∈ a :: xs := by
        rw [mem, same, ← mem]
        exact mem_cons_self
      have le_b : key a ≤ key b := by
        rcases mem_cons.mp b_mem with rfl | behind
        · exact le_refl _
        · exact (pairwise_cons.mp sortedXs).1 b behind
      have le_a : key b ≤ key a := by
        rcases mem_cons.mp a_mem with rfl | behind
        · exact le_refl _
        · exact (pairwise_cons.mp sortedYs).1 a behind
      have heads := same (key a)
      rw [filter_cons_of_pos (by simp), filter_cons_of_pos (by simpa using le_antisymm le_a le_b), cons.injEq] at heads
      obtain ⟨rfl, _⟩ := heads
      congr 1
      apply ih (pairwise_cons.mp sortedXs).2 (pairwise_cons.mp sortedYs).2
      intro k
      have tails := same k
      simp only [filter_cons] at tails
      split at tails
      · exact (cons.inj tails).2
      · exact tails

theorem sortBy_perm (xs : List α) : (xs.sortBy key).Perm xs :=
  mergeSort_perm xs _

theorem sortedBy_sortBy (xs : List α) : (xs.sortBy key).SortedBy key := by
  rw [sortedBy_iff]
  apply pairwise_mergeSort
  · intro a b c ab bc
    simp only [decide_eq_true_eq] at ab bc ⊢
    exact ab.trans bc
  · intro a b
    simp only [Bool.or_eq_true, decide_eq_true_eq]
    exact le_total (key a) (key b)

/-- What is sorted already keeps its order. -/
theorem SortedBy.sublist_sortBy (sorted : xs.SortedBy key) (within : xs <+ ys) : xs <+ ys.sortBy key := by
  rw [sortedBy_iff] at sorted
  apply sublist_mergeSort _ _ sorted within
  · intro a b c ab bc
    simp only [decide_eq_true_eq] at ab bc ⊢
    exact ab.trans bc
  · intro a b
    simp only [Bool.or_eq_true, decide_eq_true_eq]
    exact le_total (key a) (key b)

/-- Sorting keeps the order of the elements of each key. -/
theorem filter_sortBy (xs : List α) (k : β) : (xs.sortBy key).filter (key · = k) = xs.filter (key · = k) := by
  have alike : (xs.filter (key · = k)).SortedBy key := by
    apply pairwise_of_forall_mem_list
    intro a inA b inB
    simp only [mem_filter, decide_eq_true_eq] at inA inB
    rw [inA.2, inB.2]
  have filtered := (alike.sublist_sortBy filter_sublist).filter (key · = k)
  rw [filter_filter] at filtered
  simp only [Bool.and_self] at filtered
  apply (filtered.eq_of_length _).symm
  exact ((sortBy_perm xs).filter _).length_eq.symm

/-- Lists sorted by a key with the same elements have the same keys in the same places. -/
theorem SortedBy.map_eq_of_perm (sortedXs : xs.SortedBy key) (sortedYs : ys.SortedBy key) (perm : xs.Perm ys) :
    xs.map key = ys.map key := by
  refine List.Perm.eq_of_pairwise (fun a b _ _ ab ba => le_antisymm ab ba) ?_ ?_ (perm.map key)
  · exact pairwise_map.mpr sortedXs
  · exact pairwise_map.mpr sortedYs

theorem SortedBy.mergeBy (sortedXs : xs.SortedBy key) (sortedYs : ys.SortedBy key) :
    (mergeBy key xs ys).SortedBy key := by
  rw [sortedBy_iff] at sortedXs sortedYs ⊢
  apply pairwise_merge _ _ _ _ sortedXs sortedYs
  · intro a b c ab bc
    simp only [decide_eq_true_eq] at ab bc ⊢
    exact ab.trans bc
  · intro a b
    simp only [Bool.or_eq_true, decide_eq_true_eq]
    exact le_total (key a) (key b)

/-- A merge puts the left elements of each key before the right ones. -/
theorem SortedBy.filter_mergeBy (sortedXs : xs.SortedBy key) (k : β) :
    (List.mergeBy key xs ys).filter (key · = k) = xs.filter (key · = k) ++ ys.filter (key · = k) := by
  unfold List.mergeBy
  induction xs generalizing ys with
  | nil => simp
  | cons x xs ihx =>
    induction ys with
    | nil => simp
    | cons y ys ihy =>
      rw [cons_merge_cons]
      split
      · have rest : (merge xs (y :: ys) fun a b => decide (key a ≤ key b)).filter (key · = k) =
            xs.filter (key · = k) ++ (y :: ys).filter (key · = k) := ihx (pairwise_cons.mp sortedXs).2
        rw [filter_cons, rest]
        by_cases here : key x = k
        · simp [here]
        · simp [here]
      · next above =>
        have unlike : key y = k → (x :: xs).filter (key · = k) = [] := by
          -- everything on the left has a larger key than y
          rintro rfl
          rw [filter_eq_nil_iff]
          intro a inLeft
          simp only [decide_eq_true_eq] at above ⊢
          rcases mem_cons.mp inLeft with rfl | behind
          · exact fun same => above same.le
          · exact fun same => above (((pairwise_cons.mp sortedXs).1 a behind).trans same.le)
        rw [filter_cons, ihy]
        by_cases here : key y = k
        · rw [unlike here]
          simp [here]
        · simp [here]

/-- Merging what is stably sorted sorts the concatenation stably. -/
theorem mergeBy_sortBy (xs ys : List α) : List.mergeBy key (xs.sortBy key) (ys.sortBy key) = (xs ++ ys).sortBy key := by
  apply ((sortedBy_sortBy xs).mergeBy (sortedBy_sortBy ys)).eq_of_filter (sortedBy_sortBy _)
  intro k
  rw [(sortedBy_sortBy xs).filter_mergeBy, filter_sortBy, filter_sortBy, filter_sortBy, filter_append]

theorem SortedBy.sortBy_eq (sorted : xs.SortedBy key) : xs.sortBy key = xs := by
  rw [sortedBy_iff] at sorted
  exact mergeSort_of_pairwise sorted

end List
