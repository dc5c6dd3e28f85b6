import Mathlib.Logic.Relation
import Mathlib.Tactic.Cases

/-! # Transition systems

The states a system can start in and the steps it can take. What a step says of its two states is left to the system;
the rules here turn facts about one step into facts about every state a run can reach.
-/

structure TransitionSystem (State : Type*) where
  initial : State → Prop
  step : State → State → Prop

namespace TransitionSystem

variable {State Other : Type*} {system : TransitionSystem State} {state after : State}

/-- A state is reachable if some run from an initial state ends in it. -/
def Reachable (system : TransitionSystem State) (state : State) : Prop :=
  ∃ start, system.initial start ∧ Relation.ReflTransGen system.step start state

theorem Reachable.of_initial (start : system.initial state) : system.Reachable state :=
  ⟨state, start, .refl⟩

theorem Reachable.step (reached : system.Reachable state) (step : system.step state after) :
    system.Reachable after := by
  obtain ⟨start, isInitial, run⟩ := reached
  exact ⟨start, isInitial, run.tail step⟩

/-- What holds at the start and survives every step holds in every reachable state. -/
theorem Reachable.invariant {P : State → Prop} (reached : system.Reachable state)
    (base : ∀ start, system.initial start → P start)
    (preserved : ∀ before after, P before → system.step before after → P after) : P state := by
  obtain ⟨start, isInitial, run⟩ := reached
  induction run with
  | refl => exact base start isInitial
  | tail _ step holds => exact preserved _ _ holds step

/-- A run that leaves a set in which it started leaves it in one of its steps. -/
theorem Reachable.exists_leaving {P : State → Prop} (reached : system.Reachable state)
    (base : ∀ start, system.initial start → P start) (outside : ¬P state) :
    ∃ before after, system.Reachable before ∧ system.step before after ∧ P before ∧ ¬P after := by
  obtain ⟨start, isInitial, run⟩ := reached
  induction run with
  | refl => exact absurd (base start isInitial) outside
  | @tail before after run step ih =>
    by_cases inside : P before
    · exact ⟨before, after, ⟨start, isInitial, run⟩, step, inside, outside⟩
    · exact ih inside

/-- The system of the moves a function makes, where it can. -/
def ofMoves {Move : Type*} (start : State) (move : State → Move → Option State) : TransitionSystem State where
  initial state := state = start
  step before after := ∃ choice, move before choice = some after

variable {Move : Type*} {start : State} {move : State → Move → Option State}

/-- What a list of moves makes of the start is reachable. -/
theorem reachable_ofMoves (moves : List Move) (run : moves.foldlM move start = some state) :
    (ofMoves start move).Reachable state := by
  suffices ∀ before, (ofMoves start move).Reachable before → moves.foldlM move before = some state →
      (ofMoves start move).Reachable state from this start (.of_initial rfl) run
  clear run
  induction moves with
  | nil =>
    rintro before reached run
    rw [List.foldlM_nil] at run
    obtain rfl := Option.some.inj run
    exact reached
  | cons choice moves ih =>
    intro before reached run
    rw [List.foldlM_cons] at run
    obtain ⟨between, first, rest⟩ := Option.bind_eq_some_iff.mp run
    exact ih between (reached.step ⟨choice, first⟩) rest

end TransitionSystem
