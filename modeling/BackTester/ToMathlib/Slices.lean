import Mathlib.Tactic

/-! # Cutting a list into slices

Bounds that follow one another from a start to the end of a list, with no empty slice between them.
-/

/-- The bounds cut the positions from `start` to `length` into non-empty slices, in order. -/
def Slices (length : ℕ) : ℕ → List (ℕ × ℕ) → Prop
  | start, [] => start = length
  | start, (first, stop) :: rest => first = start ∧ first < stop ∧ stop ≤ length ∧ Slices length stop rest

namespace Slices

variable {α : Type*} {length start : ℕ} {bounds : List (ℕ × ℕ)}

theorem bounded (slices : Slices length start bounds) : ∀ bound ∈ bounds, bound.1 < bound.2 ∧ bound.2 ≤ length := by
  induction bounds generalizing start with
  | nil => simp
  | cons bound rest ih =>
    obtain ⟨rfl, nonempty, inside, others⟩ := slices
    exact List.forall_mem_cons.mpr ⟨⟨nonempty, inside⟩, ih others⟩

/-- The slices are the list again. -/
theorem flatten {list : List α} (slices : Slices list.length start bounds) :
    (bounds.map fun bound => list.extract bound.1 bound.2).flatten = list.drop start := by
  induction bounds generalizing start with
  | nil =>
    obtain rfl : start = list.length := slices
    simp
  | cons bound rest ih =>
    obtain ⟨rfl, nonempty, -, others⟩ := slices
    rw [List.map_cons, List.flatten_cons, ih others, List.extract_eq_take_drop]
    have behind : list.drop bound.2 = (list.drop bound.1).drop (bound.2 - bound.1) := by
      rw [List.drop_drop, Nat.add_sub_cancel' nonempty.le]
    rw [behind, List.take_append_drop]

/-- Fewer slices than positions: some slice has several. -/
theorem exists_long (slices : Slices length start bounds) (few : bounds.length < length - start) :
    ∃ bound ∈ bounds, bound.1 + 1 < bound.2 := by
  induction bounds generalizing start with
  | nil =>
    obtain rfl : start = length := slices
    simp at few
  | cons bound rest ih =>
    obtain ⟨rfl, nonempty, inside, others⟩ := slices
    rw [List.length_cons] at few
    by_cases long : bound.1 + 1 < bound.2
    · exact ⟨bound, List.mem_cons_self, long⟩
    · obtain ⟨other, member, isLong⟩ := ih others (by omega)
      exact ⟨other, List.mem_cons_of_mem _ member, isLong⟩

end Slices
