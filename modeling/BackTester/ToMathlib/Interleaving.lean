import BackTester.ToMathlib.StableSort
import Mathlib.Algebra.BigOperators.Fin

/-! # Interleavings of a family of lists

A list that is put together by always taking the first element left of one of the lists; and one
where that element has a smallest key among the first ones. It keeps the order of every list, and
where the lists are sorted by the key the result is too. If no key occurs in two of the lists, no
choice was left: the result is the stable sort of them all.
-/

variable {ι α β : Type*} [DecidableEq ι]

/-- Every element of every list once, each list in its own order. -/
inductive Interleaves : (ι → List α) → List α → Prop
  | nil {lists} (empty : ∀ i, lists i = []) : Interleaves lists []
  | cons {lists out} (i : ι) (a : α) {rest : List α} (first : lists i = a :: rest)
      (others : Interleaves (Function.update lists i rest) out) : Interleaves lists (a :: out)

/-- An interleaving that takes an element of smallest key among the first ones each time. -/
inductive Merges [LE β] (key : α → β) : (ι → List α) → List α → Prop
  | nil {lists} (empty : ∀ i, lists i = []) : Merges key lists []
  | cons {lists out} (i : ι) (a : α) {rest : List α} (first : lists i = a :: rest)
      (least : ∀ j b, b ∈ (lists j).head? → key a ≤ key b)
      (others : Merges key (Function.update lists i rest) out) : Merges key lists (a :: out)

namespace Interleaves

variable {lists : ι → List α} {out : List α}

/-- Dropping elements everywhere leaves an interleaving. -/
theorem filter (interleaves : Interleaves lists out) (p : α → Bool) :
    Interleaves (fun i => (lists i).filter p) (out.filter p) := by
  induction interleaves with
  | nil empty => exact .nil fun i => by rw [empty, List.filter_nil]
  | @cons lists out i a rest first _ ih =>
    have same : Function.update (fun j => (lists j).filter p) i (rest.filter p) =
        fun j => (Function.update lists i rest j).filter p := by
      funext j
      simp only [Function.update_apply]
      split <;> rfl
    rw [← same] at ih
    by_cases keep : p a
    · rw [List.filter_cons_of_pos keep]
      exact .cons i a (by rw [first, List.filter_cons_of_pos keep]) ih
    · rw [List.filter_cons_of_neg keep]
      have unchanged : (lists i).filter p = rest.filter p := by rw [first, List.filter_cons_of_neg keep]
      rw [← unchanged, Function.update_eq_self] at ih
      exact ih

/-- With one list that is not empty the result is that list. -/
theorem eq_of_alone (interleaves : Interleaves lists out) (i : ι) (alone : ∀ j, j ≠ i → lists j = []) :
    out = lists i := by
  induction interleaves with
  | nil empty => rw [empty]
  | @cons lists out j a rest first _ ih =>
    have here : j = i := by
      by_contra apart
      rw [alone j apart] at first
      contradiction
    subst here
    rw [first, ih, Function.update_self]
    intro other apart
    rw [Function.update_of_ne apart]
    exact alone other apart

/-- Each list is in the result in its own order. -/
theorem sublist (interleaves : Interleaves lists out) (i : ι) : (lists i).Sublist out := by
  induction interleaves with
  | nil empty => rw [empty]
  | @cons lists out j a rest first _ ih =>
    by_cases here : i = j
    · subst here
      rw [Function.update_self] at ih
      rw [first]
      exact ih.cons_cons a
    · rw [Function.update_of_ne here] at ih
      exact ih.cons a

theorem mem_iff (interleaves : Interleaves lists out) {a : α} : a ∈ out ↔ ∃ i, a ∈ lists i := by
  constructor
  · intro isIn
    induction interleaves with
    | nil => contradiction
    | @cons lists out i b rest first _ ih =>
      rcases List.mem_cons.mp isIn with rfl | later
      · exact ⟨i, by rw [first]; exact List.mem_cons_self⟩
      · obtain ⟨j, there⟩ := ih later
        by_cases here : j = i
        · subst here
          rw [Function.update_self] at there
          exact ⟨j, by rw [first]; exact List.mem_cons_of_mem b there⟩
        · rw [Function.update_of_ne here] at there
          exact ⟨j, there⟩
  · rintro ⟨i, isIn⟩
    exact (interleaves.sublist i).subset isIn

theorem count_eq [DecidableEq α] [Fintype ι] (interleaves : Interleaves lists out) (a : α) :
    out.count a = ∑ i, (lists i).count a := by
  induction interleaves with
  | nil empty => simp [empty]
  | @cons lists out i b rest first _ ih =>
    have sum_rest : ∑ j, (Function.update lists i rest j).count a =
        rest.count a + ∑ j ∈ Finset.univ \ {i}, (lists j).count a := by
      rw [← Finset.sum_update_of_mem (Finset.mem_univ i)]
      apply Finset.sum_congr rfl
      intro j _
      simp only [Function.update_apply]
      split <;> rfl
    rw [Finset.sum_eq_add_sum_sdiff_singleton_of_mem (Finset.mem_univ i), first,
      List.count_cons, List.count_cons, ih, sum_rest]
    omega

/-- The result is a permutation of the lists put one after the other. -/
theorem perm {n : ℕ} {lists : Fin n → List α} (interleaves : Interleaves lists out) :
    out.Perm (List.ofFn lists).flatten := by
  classical
  rw [List.perm_iff_count]
  intro a
  rw [interleaves.count_eq, List.count_flatten, List.map_ofFn, List.sum_ofFn]
  rfl

end Interleaves

theorem List.flatten_ofFn_of_alone {n : ℕ} (lists : Fin n → List α) (i : Fin n) (alone : ∀ j, j ≠ i → lists j = []) :
    (List.ofFn lists).flatten = lists i := by
  induction n with
  | zero => exact i.elim0
  | succ n ih =>
    rw [List.ofFn_succ, List.flatten_cons]
    cases i using Fin.cases with
    | zero =>
      have none : (List.ofFn fun j : Fin n => lists j.succ).flatten = [] := by
        rw [List.flatten_eq_nil_iff]
        intro list isIn
        obtain ⟨j, rfl⟩ := List.mem_ofFn.mp isIn
        exact alone j.succ (Fin.succ_ne_zero j)
      rw [none, List.append_nil]
    | succ i =>
      rw [alone 0 (Fin.succ_ne_zero i).symm, List.nil_append]
      apply ih (fun j => lists j.succ) i
      intro j apart
      exact alone j.succ fun same => apart (Fin.succ_injective n same)

namespace Merges

variable [LinearOrder β] {key : α → β} {lists : ι → List α} {out : List α}

theorem interleaves (merges : Merges key lists out) : Interleaves lists out := by
  induction merges with
  | nil empty => exact .nil empty
  | cons i a first _ _ ih => exact .cons i a first ih

/-- Merging sorted lists gives a sorted one. -/
theorem sortedBy (merges : Merges key lists out) (sorted : ∀ i, (lists i).SortedBy key) : out.SortedBy key := by
  induction merges with
  | nil => exact List.Pairwise.nil
  | @cons lists out i a rest first least others ih =>
    have rests : ∀ j, (Function.update lists i rest j).SortedBy key := by
      intro j
      rw [Function.update_apply]
      split
      · have whole := sorted i
        rw [first] at whole
        exact (List.pairwise_cons.mp whole).2
      · exact sorted j
    refine List.pairwise_cons.mpr ⟨fun b isIn => ?_, ih rests⟩
    obtain ⟨j, there⟩ := others.interleaves.mem_iff.mp isIn
    have original : b ∈ lists j := by
      rw [Function.update_apply] at there
      split at there
      · next here =>
        rw [here, first]
        exact List.mem_cons_of_mem a there
      · exact there
    cases isList : lists j with
    | nil =>
      rw [isList] at original
      contradiction
    | cons head tail =>
      have ahead := sorted j
      rw [isList] at ahead original
      have le := least j head (by rw [isList]; rfl)
      rcases List.mem_cons.mp original with rfl | behind
      · exact le
      · exact le.trans ((List.pairwise_cons.mp ahead).1 b behind)

/-- If no key occurs in two of the lists, the merge is their stable sort. -/
theorem eq_sortBy {n : ℕ} {lists : Fin n → List α} (merges : Merges key lists out)
    (sorted : ∀ i, (lists i).SortedBy key)
    (distinct : ∀ i j a b, a ∈ lists i → b ∈ lists j → key a = key b → i = j) :
    out = (List.ofFn lists).flatten.sortBy key := by
  apply (merges.sortedBy sorted).eq_of_filter (List.sortedBy_sortBy _)
  intro k
  have filtered := merges.interleaves.filter (key · = k)
  rw [List.filter_sortBy, List.filter_flatten, List.map_ofFn]
  by_cases somewhere : ∃ i a, a ∈ lists i ∧ key a = k
  · obtain ⟨i, a, isIn, isKey⟩ := somewhere
    have alone : ∀ j, j ≠ i → (lists j).filter (key · = k) = [] := by
      intro j apart
      rw [List.filter_eq_nil_iff]
      intro b there
      simp only [decide_eq_true_eq]
      exact fun same => apart (distinct j i b a there isIn (same.trans isKey.symm))
    rw [filtered.eq_of_alone i alone]
    exact (List.flatten_ofFn_of_alone (fun i => (lists i).filter (key · = k)) i alone).symm
  · have nowhere : ∀ i, (lists i).filter (key · = k) = [] := by
      intro i
      rw [List.filter_eq_nil_iff]
      intro a isIn
      simp only [decide_eq_true_eq]
      exact fun isKey => somewhere ⟨i, a, isIn, isKey⟩
    have none : out.filter (key · = k) = [] := by
      rw [List.eq_nil_iff_forall_not_mem]
      intro a isIn
      obtain ⟨i, there⟩ := filtered.mem_iff.mp isIn
      rw [nowhere] at there
      contradiction
    rw [none, eq_comm, List.flatten_eq_nil_iff]
    intro list isIn
    obtain ⟨i, rfl⟩ := List.mem_ofFn.mp isIn
    exact nowhere i

end Merges
