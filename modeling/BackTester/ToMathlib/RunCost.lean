import BackTester.ToMathlib.TransitionSystem
import Mathlib.Algebra.BigOperators.Fin

/-! # What a run costs

A run is no longer than a cost that its steps lower. Where only the steps of one party lower it, it
bounds the steps of this party, however many the others take between them. The cost of several
parties is the sum of theirs, and a step of one of them changes its own.
-/

namespace TransitionSystem

variable {State Move : Type*} {move : State → Move → Option State} {state after : State}

/-- Where the moves that are counted lower a cost and the others do not raise it, there are no more
of them than the cost. -/
theorem countP_le_of_cost {cost : State → ℕ} {invariant : State → Prop} {allowed : Move → Prop} {counted : Move → Bool}
    (keeps : ∀ before choice after, invariant before → allowed choice → move before choice = some after →
      invariant after ∧ (if counted choice then cost after < cost before else cost after ≤ cost before))
    (holds : invariant state) (moves : List Move) (allAllowed : ∀ choice ∈ moves, allowed choice)
    (run : moves.foldlM move state = some after) : moves.countP counted + cost after ≤ cost state := by
  induction moves generalizing state with
  | nil =>
    rw [List.foldlM_nil] at run
    obtain rfl := Option.some.inj run
    rw [List.countP_nil]
    exact Nat.le_of_eq (Nat.zero_add _)
  | cons choice moves ih =>
    rw [List.foldlM_cons] at run
    obtain ⟨between, first, rest⟩ := Option.bind_eq_some_iff.mp run
    obtain ⟨kept, lower⟩ := keeps state choice between holds (allAllowed choice List.mem_cons_self) first
    have few := ih kept (fun later isIn => allAllowed later (List.mem_cons_of_mem _ isIn)) rest
    cases isCounted : counted choice with
    | true =>
      rw [isCounted, if_pos rfl] at lower
      rw [List.countP_cons_of_pos isCounted]
      omega
    | false =>
      rw [isCounted, if_neg Bool.false_ne_true] at lower
      rw [List.countP_cons_of_neg (by simp [isCounted])]
      omega

/-- Where every move of a kind lowers a cost, a row of such moves is no longer than the cost. -/
theorem length_le_of_cost {allowed : Move → Prop} {cost : State → ℕ}
    (lower : ∀ before choice after, allowed choice → move before choice = some after → cost after < cost before)
    (moves : List Move) (allAllowed : ∀ choice ∈ moves, allowed choice) (run : moves.foldlM move state = some after) :
    moves.length + cost after ≤ cost state := by
  have keeps : ∀ before choice after, True → allowed choice → move before choice = some after →
      True ∧ (if true then cost after < cost before else cost after ≤ cost before) :=
    fun before choice after _ isAllowed step => ⟨trivial, lower before choice after isAllowed step⟩
  have few : moves.countP (fun _ => true) + cost after ≤ cost state :=
    countP_le_of_cost keeps trivial moves allAllowed run
  rwa [List.countP_true] at few

end TransitionSystem

/-- Sums that differ in one place. -/
theorem Fintype.sum_add_of_differ {ι : Type*} [Fintype ι] [DecidableEq ι] {f g : ι → ℕ}
    (i : ι) (same : ∀ j ≠ i, f j = g j) :
    ∑ j, f j + g i = ∑ j, g j + f i := by
  have others : ∑ j ∈ Finset.univ.erase i, f j = ∑ j ∈ Finset.univ.erase i, g j :=
    Finset.sum_congr rfl fun j isOther => same j (Finset.ne_of_mem_erase isOther)
  rw [← Finset.add_sum_erase _ f (Finset.mem_univ i), ← Finset.add_sum_erase _ g (Finset.mem_univ i), others]
  omega
