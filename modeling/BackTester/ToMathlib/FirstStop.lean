import Mathlib.Data.List.Basic
import Mathlib.Tactic.Cases

/-! # Stopping in a list

A reader that keeps a state and stops behind the first element for which its state says so.
-/

namespace FirstStop

variable {σ α : Type*} (step : σ → α → σ) (stop : σ → α → Bool)

/-- What is behind the first stop, if there is one. -/
def behindStop : σ → List α → Option (List α)
  | _, [] => none
  | state, a :: list => if stop state a then some list else behindStop (step state a) list

variable {step stop} {state : σ} {a : α} {list left : List α}

theorem behindStop_cons_of_stop (stops : stop state a = true) :
    behindStop step stop state (a :: list) = some list := if_pos stops

theorem behindStop_cons_of_not_stop (passes : stop state a = false) :
    behindStop step stop state (a :: list) = behindStop step stop (step state a) list := by
  rw [behindStop, passes, if_neg Bool.false_ne_true]

/-- A stop does not depend on what is behind it. -/
theorem behindStop_append_of_some (found : behindStop step stop state list = some left) (more : List α) :
    behindStop step stop state (list ++ more) = some (left ++ more) := by
  induction list generalizing state with
  | nil => contradiction
  | cons a list ih =>
    rw [List.cons_append, behindStop]
    rw [behindStop] at found
    split at found
    · next stops =>
      rw [if_pos stops, ← Option.some.inj found]
    · next passes =>
      rw [if_neg passes]
      exact ih found

/-- Without a stop the reader goes on in the state that it has come to. -/
theorem behindStop_append_of_none (none' : behindStop step stop state list = none) (more : List α) :
    behindStop step stop state (list ++ more) = behindStop step stop (list.foldl step state) more := by
  induction list generalizing state with
  | nil => rfl
  | cons a list ih =>
    rw [List.cons_append, behindStop]
    rw [behindStop] at none'
    split at none'
    · contradiction
    · next passes =>
      rw [if_neg passes]
      exact ih none'

theorem behindStop_length_lt (found : behindStop step stop state list = some left) : left.length < list.length := by
  induction list generalizing state with
  | nil => contradiction
  | cons a list ih =>
    rw [behindStop] at found
    split at found
    · rw [← Option.some.inj found]
      exact Nat.lt_succ_self _
    · exact Nat.lt_succ_of_lt (ih found)

/-- The first stop is at the end just where the last element is a stop and none before it is. -/
theorem behindStop_eq_some_nil (nonempty : list ≠ []) : behindStop step stop state list = some [] ↔
    ∀ before a after, list = before ++ a :: after → (stop (before.foldl step state) a = true ↔ after = []) := by
  induction list generalizing state with
  | nil => contradiction
  | cons first rest ih =>
    constructor
    · intro found before a after split
      rw [behindStop] at found
      cases before with
      | nil =>
        obtain ⟨rfl, rfl⟩ := List.cons.inj split
        rw [List.foldl_nil]
        split at found
        · next stops => exact ⟨fun _ => Option.some.inj found, fun _ => stops⟩
        · next passes =>
          refine ⟨fun stops => absurd stops passes, fun isEnd => ?_⟩
          rw [isEnd] at found
          contradiction
      | cons other before =>
        obtain ⟨rfl, rfl⟩ := List.cons.inj split
        split at found
        · simp at found
        · exact (ih (by simp)).mp found before a after rfl
    · intro exactly
      rw [behindStop]
      split
      · next stops => rw [(exactly [] first rest rfl).mp stops]
      · next passes =>
        have more : rest ≠ [] := fun isEnd => passes ((exactly [] first rest rfl).mpr isEnd)
        refine (ih more).mpr fun before a after split => ?_
        exact exactly (first :: before) a after (by rw [split, List.cons_append])

/-- Where more follows, the reader stops just ahead of it if its first stop is at the end of the list. -/
theorem getD_behindStop_append {more : List α} (nonempty : more ≠ []) :
    (behindStop step stop state (list ++ more)).getD [] = more ↔ behindStop step stop state list = some [] := by
  cases found : behindStop step stop state list with
  | some left => simp [behindStop_append_of_some found]
  | none =>
    rw [behindStop_append_of_none found]
    cases later : behindStop step stop (list.foldl step state) more with
    | none => simp [nonempty.symm]
    | some left =>
      have shorter := behindStop_length_lt later
      have different : left ≠ more := fun same => by simp [same] at shorter
      simp [different]

end FirstStop
