import Mathlib.Tactic

/-! # Properties of every prefix

What holds after every prefix of a sequence is decided one element at a time: if one more element
keeps a property just where a condition on it is met, the property holds after every prefix just
where every element meets its condition.
-/

namespace List

variable {α : Type*}

theorem take_succ_eq_append {sequence : List α} {n : ℕ} {a : α} (here : sequence[n]? = some a) :
    sequence.take (n + 1) = sequence.take n ++ [a] := by
  rw [take_add_one, here, Option.toList_some]

theorem take_succ_eq_take {sequence : List α} {n : ℕ} (past : sequence[n]? = none) :
    sequence.take (n + 1) = sequence.take n := by
  rw [take_add_one, past, Option.toList_none, append_nil]

variable (P : List α → Prop) (ok : List α → α → Prop)

/-- A property kept by admissible elements holds after every prefix of them. -/
theorem forall_prefix (first : P []) (kept : ∀ prior a, P prior → ok prior a → P (prior ++ [a])) {sequence : List α}
    (admissible : ∀ n a, sequence[n]? = some a → ok (sequence.take n) a) (n : ℕ) : P (sequence.take n) := by
  induction n with
  | zero => exact first
  | succ n ih =>
    cases here : sequence[n]? with
    | none => rwa [take_succ_eq_take here]
    | some a =>
      rw [take_succ_eq_append here]
      exact kept _ a ih (admissible n a here)

/-- Where the condition is exact, so is the result. -/
theorem forall_prefix_iff (first : P []) (exactly : ∀ prior a, P prior → (P (prior ++ [a]) ↔ ok prior a))
    (sequence : List α) : (∀ n, P (sequence.take n)) ↔ ∀ n a, sequence[n]? = some a → ok (sequence.take n) a := by
  constructor
  · intro always n a here
    have next := always (n + 1)
    rw [take_succ_eq_append here] at next
    exact (exactly _ a (always n)).mp next
  · intro admissible
    exact forall_prefix P ok first (fun prior a holds => (exactly prior a holds).mpr) admissible

section FilterAlong

variable (keep : List α → α → Bool)

/-- What is selected of `sequence` behind `prior`. -/
def filterBehind (prior : List α) : List α → List α
  | [] => []
  | a :: rest => (if keep prior a then [a] else []) ++ filterBehind (prior ++ [a]) rest

/-- The elements selected by a condition on them and on all that precedes them. -/
def filterAlong (sequence : List α) : List α := filterBehind keep [] sequence

@[simp] theorem filterAlong_nil : filterAlong keep [] = [] := rfl

theorem filterBehind_append_singleton (prior sequence : List α) (a : α) : filterBehind keep prior (sequence ++ [a]) =
    filterBehind keep prior sequence ++ if keep (prior ++ sequence) a then [a] else [] := by
  induction sequence generalizing prior with
  | nil => simp [filterBehind]
  | cons b rest ih => simp [filterBehind, ih]

@[simp] theorem filterAlong_append_singleton (sequence : List α) (a : α) :
    filterAlong keep (sequence ++ [a]) = filterAlong keep sequence ++ if keep sequence a then [a] else [] :=
  filterBehind_append_singleton keep [] sequence a

variable {keep} {keep' : List α → α → Bool}

/-- Conditions that agree along a sequence select the same. -/
theorem filterAlong_congr {sequence : List α}
    (same : ∀ n a, sequence[n]? = some a → keep (sequence.take n) a = keep' (sequence.take n) a) :
    filterAlong keep sequence = filterAlong keep' sequence := by
  have upTo := forall_prefix (fun prior => filterAlong keep prior = filterAlong keep' prior)
    (fun prior a => keep prior a = keep' prior a) rfl ?_ same sequence.length
  · rwa [take_length] at upTo
  · intro prior a ih agree
    rw [filterAlong_append_singleton, filterAlong_append_singleton, ih, agree]

/-- A weaker condition selects more. -/
theorem filterAlong_sublist (weaker : ∀ prior a, keep prior a → keep' prior a) (sequence : List α) :
    (filterAlong keep sequence).Sublist (filterAlong keep' sequence) := by
  induction sequence using reverseRecOn with
  | nil => exact Sublist.refl _
  | append_singleton sequence a ih =>
    rw [filterAlong_append_singleton, filterAlong_append_singleton]
    apply ih.append
    split
    · next kept => rw [if_pos (weaker sequence a kept)]
    · exact nil_sublist _

/-- A weaker condition that selects no more agrees along the sequence. -/
theorem filterAlong_eq_iff (weaker : ∀ prior a, keep prior a → keep' prior a) (sequence : List α) :
    filterAlong keep sequence = filterAlong keep' sequence ↔
      ∀ n a, sequence[n]? = some a → keep' (sequence.take n) a → keep (sequence.take n) a := by
  constructor
  · induction sequence using reverseRecOn with
    | nil => simp
    | append_singleton sequence a ih =>
      intro same n b here kept
      rw [filterAlong_append_singleton, filterAlong_append_singleton] at same
      have fewer := (filterAlong_sublist weaker sequence).length_le
      have sameLast : keep' sequence a → keep sequence a := by
        intro kept
        by_contra dropped
        have lengths := congrArg length same
        simp only [kept, dropped, if_true, if_false, append_nil, length_append,
          length_singleton] at lengths
        omega
      rcases lt_trichotomy n sequence.length with before | rfl | after
      · have sameBefore : filterAlong keep sequence = filterAlong keep' sequence := by
          by_cases kept : keep sequence a
          · rw [if_pos kept, if_pos (weaker sequence a kept)] at same
            exact append_cancel_right same
          · rw [if_neg kept, if_neg fun kept' => kept (sameLast kept')] at same
            simpa using same
        rw [getElem?_append_left before] at here
        rw [take_append_of_le_length before.le] at kept ⊢
        exact ih sameBefore n b here kept
      · rw [getElem?_concat_length] at here
        cases here
        rw [take_left'] at kept ⊢
        · exact sameLast kept
        · rfl
        · rfl
      · rw [getElem?_eq_none (by simpa using after)] at here
        contradiction
  · intro agree
    apply filterAlong_congr
    intro n a here
    rw [Bool.eq_iff_iff]
    exact ⟨weaker _ a, agree n a here⟩

end FilterAlong

end List
