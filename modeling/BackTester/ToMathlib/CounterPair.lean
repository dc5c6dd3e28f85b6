import Mathlib.Data.List.Chain
import Mathlib.Data.Nat.Notation
import Mathlib.Tactic.Cases

/-! # Two counters read one after the other

What is present is what came less what left, and either is counted by a counter that others go on
counting up. Who reads the one counter and then the other sees no single moment of both. The
difference of the two readings is what was present at some moment between them where all that left
meanwhile left before anything came; else it is less than what was ever present, or more left than
had come at the first reading.
-/

/-- What came so far, and what left again. -/
structure CounterPair where
  came : ℕ
  left : ℕ
deriving DecidableEq

namespace CounterPair

def present (pair : CounterPair) : ℕ := pair.came - pair.left

/-- Several come at once, and one leaves at a time. -/
def Step (before after : CounterPair) : Prop :=
  (after.left = before.left ∧ before.came ≤ after.came) ∨ (after.came = before.came ∧ after.left = before.left + 1)

/-- Neither counter goes down. -/
def Later (before after : CounterPair) : Prop := before.came ≤ after.came ∧ before.left ≤ after.left

instance laterTrans : Trans Later Later Later where
  trans first second := ⟨first.1.trans second.1, first.2.trans second.2⟩

/-- What leaves leaves before anything comes on top of `came`. -/
def LeavesFirst (came : ℕ) (history : List CounterPair) : Prop :=
  history.Pairwise fun earlier later => earlier.left < later.left → earlier.came = came

instance decidableLeavesFirst (came : ℕ) (history : List CounterPair) : Decidable (LeavesFirst came history) :=
  inferInstanceAs (Decidable (List.Pairwise _ history))

variable {before after first last pair : CounterPair} {history rest : List CounterPair} {came : ℕ}

theorem Step.later (step : Step before after) : Later before after := by
  rcases step with ⟨sameLeft, more⟩ | ⟨sameCame, oneLess⟩
  · exact ⟨more, sameLeft.ge⟩
  · exact ⟨sameCame.ge, by omega⟩

theorem pairwise_later (steps : history.IsChain Step) : history.Pairwise Later :=
  List.isChain_iff_pairwise.mp (steps.imp fun _ _ => Step.later)

theorem later_of_first (steps : (first :: rest).IsChain Step) (isIn : pair ∈ first :: rest) : Later first pair := by
  rcases List.mem_cons.mp isIn with rfl | behind
  · exact ⟨le_refl _, le_refl _⟩
  · exact List.rel_of_pairwise_cons (pairwise_later steps) behind

theorem later_of_last (steps : history.IsChain Step) (isLast : history.getLast? = some last) (isIn : pair ∈ history) :
    Later pair last := by
  obtain ⟨front, rfl⟩ := List.getLast?_eq_some_iff.mp isLast
  rcases List.mem_append.mp isIn with inFront | isEnd
  · exact (List.pairwise_append.mp (pairwise_later steps)).2.2 pair inFront last List.mem_cons_self
  · obtain rfl := List.mem_singleton.mp isEnd
    exact ⟨le_refl _, le_refl _⟩

/-- Where what leaves leaves first, there is a moment when all has left that will and nothing has come. -/
theorem exists_of_leavesFirst (steps : (first :: rest).IsChain Step) (isLast : (first :: rest).getLast? = some last)
    (leaves : LeavesFirst first.came (first :: rest)) :
    ∃ pair ∈ first :: rest, pair.came = first.came ∧ pair.left = last.left := by
  induction rest generalizing first with
  | nil =>
    obtain rfl : first = last := by simpa using isLast
    exact ⟨first, List.mem_cons_self, rfl, rfl⟩
  | cons next rest ih =>
    have isLast' : (next :: rest).getLast? = some last := by rwa [List.getLast?_cons_cons] at isLast
    have tail := List.isChain_cons_cons.mp steps
    obtain ⟨_, behind⟩ := List.pairwise_cons.mp leaves
    by_cases all : first.left = last.left
    · exact ⟨first, List.mem_cons_self, rfl, all⟩
    · have isCame : next.came = first.came := by
        rcases tail.1 with ⟨same, _⟩ | ⟨isCame, _⟩
        · -- more leaves after `next`, so nothing has come
          have upTo := later_of_last tail.2 isLast' List.mem_cons_self
          have more : next.left < last.left := lt_of_le_of_ne upTo.2 fun done => all (same.symm.trans done)
          have inRest : last ∈ rest := by
            rcases List.mem_cons.mp (List.mem_of_getLast? isLast') with rfl | inRest
            · exact absurd more (lt_irrefl _)
            · exact inRest
          exact List.rel_of_pairwise_cons behind inRest more
        · exact isCame
      obtain ⟨pair, isIn, same, isLeft⟩ := ih tail.2 isLast' (isCame ▸ behind)
      exact ⟨pair, List.mem_cons_of_mem _ isIn, same.trans isCame, isLeft⟩

theorem leavesFirst_of_exists (steps : (first :: rest).IsChain Step) (isLast : (first :: rest).getLast? = some last)
    (isIn : pair ∈ first :: rest) (isCame : pair.came = first.came) (isLeft : pair.left = last.left) :
    LeavesFirst first.came (first :: rest) := by
  obtain ⟨front, back, split⟩ := List.append_of_mem isIn
  have later := pairwise_later steps
  have early : ∀ earlier ∈ front, earlier.came = first.came := by
    intro earlier inFront
    have isIn : earlier ∈ first :: rest := by
      rw [split]
      exact List.mem_append_left _ inFront
    have since := later_of_first steps isIn
    rw [split, List.pairwise_append] at later
    have upTo := later.2.2 earlier inFront pair List.mem_cons_self
    exact le_antisymm (upTo.1.trans isCame.le) since.1
  have still : ∀ other ∈ pair :: back, other.left = last.left := by
    intro other inBack
    have isIn : other ∈ first :: rest := by
      rw [split]
      exact List.mem_append_right _ inBack
    have upTo := later_of_last steps isLast isIn
    have since : Later pair other := by
      rw [split] at steps
      exact later_of_first steps.right_of_append inBack
    exact le_antisymm upTo.2 (isLeft.ge.trans since.2)
  rw [LeavesFirst, split, List.pairwise_append]
  refine ⟨List.pairwise_of_forall_mem_list fun earlier inFront _ _ _ => early earlier inFront, ?_,
    fun earlier inFront _ _ _ => early earlier inFront⟩
  apply List.pairwise_of_forall_mem_list
  intro earlier inBack other inBack' less
  exact absurd less (by rw [still earlier inBack, still other inBack']; exact lt_irrefl _)

/-- The difference of the readings is less than what was present at any moment. -/
theorem lt_present (steps : (first :: rest).IsChain Step) (isLast : (first :: rest).getLast? = some last)
    (mixed : ¬LeavesFirst first.came (first :: rest)) (near : last.left ≤ first.came) (isIn : pair ∈ first :: rest) :
    first.came - last.left < pair.present := by
  have since := (later_of_first steps isIn).1
  have upTo := (later_of_last steps isLast isIn).2
  have apart : ¬(pair.came = first.came ∧ pair.left = last.left) :=
    fun same => mixed (leavesFirst_of_exists steps isLast isIn same.1 same.2)
  unfold present
  omega

end CounterPair
