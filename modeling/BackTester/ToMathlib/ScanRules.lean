import BackTester.ToMathlib.Scan
import Mathlib.Tactic.Cases

/-! # Rules about scanners

A scanner stops where it returns or throws. `Local` scanners stop ahead of where they start, and one
that stops before the end of its buffer does the same with anything behind that buffer; if it does
not, it stops in what was put behind. `Advances` is what makes a loop end, and such a loop stops
unless one of its turns does not.
-/

namespace Scan

variable {Token Error α β σ τ : Type}

/-- Where a scanner stopped, if it did. -/
def stop : Except (ScanFailure Token Error) (α × List Token) → Option (List Token)
  | .ok (_, rest) => some rest
  | .error (.thrown _ rest) => some rest
  | .error .outside => none
  | .error .outOfFuel => none

/-- The same run with more tokens behind. -/
def extend (more : List Token) : Except (ScanFailure Token Error) (α × List Token) →
    Except (ScanFailure Token Error) (α × List Token)
  | .ok (a, rest) => .ok (a, rest ++ more)
  | .error (.thrown what rest) => .error (.thrown what (rest ++ more))
  | .error .outside => .error .outside
  | .error .outOfFuel => .error .outOfFuel

@[simp] theorem stop_ok (a : α) (rest : List Token) :
    stop (.ok (a, rest) : Except (ScanFailure Token Error) _) = some rest := rfl

@[simp] theorem stop_thrown (what : Error) (rest : List Token) :
    stop (.error (.thrown what rest) : Except _ (α × List Token)) = some rest := rfl

@[simp] theorem stop_outside : stop (.error .outside : Except (ScanFailure Token Error) (α × List Token)) = none := rfl

@[simp] theorem stop_outOfFuel :
    stop (.error .outOfFuel : Except (ScanFailure Token Error) (α × List Token)) = none := rfl

theorem stop_of_error {failure : ScanFailure Token Error} :
    stop (.error failure : Except _ (α × List Token)) = stop (.error failure : Except _ (β × List Token)) := by
  cases failure <;> rfl

structure Local (x : Scan Token Error α) : Prop where
  suffix : ∀ rest after, stop (x rest) = some after → after <:+ rest
  within : ∀ rest more after, stop (x rest) = some after → after ≠ [] → x (rest ++ more) = extend more (x rest)
  across : ∀ rest more, (∀ after, stop (x rest) = some after → after = []) →
    ∀ after, stop (x (rest ++ more)) = some after → after <:+ more

namespace Local

theorem pure (a : α) : Local (Pure.pure a : Scan Token Error α) where
  suffix rest after stops := by
    obtain rfl := Option.some.inj stops
    exact List.suffix_refl _
  within _ _ _ _ _ := rfl
  across rest more atEnd after stops := by
    obtain rfl := Option.some.inj stops
    obtain rfl := atEnd rest rfl
    exact List.suffix_refl _

theorem throwing (what : Error) : Local (Scan.throwing what : Scan Token Error α) where
  suffix rest after stops := by
    obtain rfl := Option.some.inj stops
    exact List.suffix_refl _
  within _ _ _ _ _ := rfl
  across rest more atEnd after stops := by
    obtain rfl := Option.some.inj stops
    obtain rfl := atEnd rest rfl
    exact List.suffix_refl _

theorem peek : Local (Scan.peek : Scan Token Error (Option Token)) where
  suffix rest after stops := by
    obtain rfl := Option.some.inj stops
    exact List.suffix_refl _
  within rest more after stops apart := by
    obtain rfl := Option.some.inj stops
    cases rest with
    | nil => contradiction
    | cons => rfl
  across rest more atEnd after stops := by
    obtain rfl := Option.some.inj stops
    obtain rfl := atEnd rest rfl
    exact List.suffix_refl _

theorem readAt (passed : List Token) (i : ℕ) : Local (Scan.readAt passed i : Scan Token Error Token) := by
  unfold Scan.readAt
  cases passed[i]? with
  | some token => exact pure token
  | none =>
    constructor
    · intro rest after stops
      contradiction
    · intro rest more after stops
      contradiction
    · intro rest more _ after stops
      contradiction

theorem advance (n : ℕ) : Local (Scan.advance n : Scan Token Error Unit) where
  suffix rest after stops := by
    unfold Scan.advance at stops
    split at stops
    · obtain rfl := Option.some.inj stops
      exact List.drop_suffix n rest
    · contradiction
  within rest more after stops _ := by
    unfold Scan.advance at stops ⊢
    split at stops
    · next room =>
      have room' : n ≤ (rest ++ more).length := by
        rw [List.length_append]
        exact Nat.le_add_right_of_le room
      rw [if_pos room, if_pos room', List.drop_append_of_le_length room]
      rfl
    · contradiction
  across rest more atEnd after stops := by
    unfold Scan.advance at atEnd stops
    have short : rest.length ≤ n := by
      by_contra long
      rw [if_pos (Nat.le_of_not_le long)] at atEnd
      exact long (List.drop_eq_nil_iff.mp (atEnd _ rfl))
    split at stops
    · obtain rfl := Option.some.inj stops
      rw [List.drop_append, List.drop_of_length_le short, List.nil_append]
      exact List.drop_suffix _ more
    · contradiction

theorem step : Local (Scan.step : Scan Token Error Unit) where
  suffix rest after stops := by
    obtain rfl := Option.some.inj stops
    exact List.tail_suffix rest
  within rest more after stops apart := by
    cases rest with
    | nil => exact absurd (Option.some.inj stops).symm apart
    | cons => rfl
  across rest more atEnd after stops := by
    obtain rfl := Option.some.inj stops
    cases rest with
    | nil => exact List.tail_suffix more
    | cons token rest =>
      obtain rfl : rest = [] := atEnd _ rfl
      exact List.suffix_refl _

theorem takeWhile (test : Token → Bool) : Local (Scan.takeWhile test : Scan Token Error (List Token)) where
  suffix rest after stops := by
    obtain rfl := Option.some.inj stops
    exact List.dropWhile_suffix test
  within rest more after stops apart := by
    obtain rfl := Option.some.inj stops
    have shorter : (rest.takeWhile test).length ≠ rest.length := by
      have split := congrArg List.length (List.takeWhile_append_dropWhile (p := test) (l := rest))
      have := List.length_pos_of_ne_nil apart
      rw [List.length_append] at split
      omega
    unfold Scan.takeWhile
    rw [List.takeWhile_append, if_neg shorter, List.dropWhile_append, if_neg (by rwa [List.isEmpty_iff])]
    rfl
  across rest more atEnd after stops := by
    obtain rfl := Option.some.inj stops
    have isEnd : rest.dropWhile test = [] := atEnd _ rfl
    rw [List.dropWhile_append, isEnd]
    exact List.dropWhile_suffix test

theorem bind {x : Scan Token Error α} {f : α → Scan Token Error β} (first : Local x) (second : ∀ a, Local (f a)) :
    Local (x >>= f) where
  suffix rest after stops := by
    match run : x rest with
    | .ok (a, between) =>
      rw [bind_of_ok run] at stops
      have start := first.suffix rest between (by rw [run]; rfl)
      exact ((second a).suffix between after stops).trans start
    | .error failure =>
      rw [bind_of_error run] at stops
      apply first.suffix rest after
      rw [run, ← stops]
      exact stop_of_error
  within rest more after stops apart := by
    match run : x rest with
    | .ok (a, between) =>
      rw [bind_of_ok run] at stops ⊢
      have inside : between ≠ [] := by
        rintro rfl
        exact apart (List.suffix_nil.mp ((second a).suffix [] after stops))
      have same := first.within rest more between (by rw [run]; rfl) inside
      rw [run] at same
      rw [bind_of_ok same]
      exact (second a).within between more after stops apart
    | .error failure =>
      rw [bind_of_error run] at stops ⊢
      have same := first.within rest more after (by rw [run, ← stops]; exact stop_of_error) apart
      rw [run] at same
      cases failure with
      | thrown | outside | outOfFuel => exact bind_of_error same
  across rest more atEnd after stops := by
    -- either the first part stops before the end, and the second one runs on, or it runs into what was put behind
    have runsOn (crosses : ∀ between, stop (x rest) = some between → between = []) : after <:+ more := by
      match run : x (rest ++ more) with
      | .ok (a, between) =>
        rw [bind_of_ok run] at stops
        have start := first.across rest more crosses between (by rw [run]; rfl)
        exact ((second a).suffix between after stops).trans start
      | .error failure =>
        rw [bind_of_error run] at stops
        apply first.across rest more crosses after
        rw [run, ← stops]
        exact stop_of_error
    match run : x rest with
    | .ok (a, []) =>
      apply runsOn
      rw [run]
      exact fun between stops => (Option.some.inj stops).symm
    | .ok (a, token :: between) =>
      have same := first.within rest more (token :: between) (by rw [run]; rfl) (List.cons_ne_nil _ _)
      rw [run] at same
      rw [bind_of_ok same] at stops
      rw [bind_of_ok run] at atEnd
      exact (second a).across (token :: between) more atEnd after stops
    | .error failure =>
      apply runsOn
      rw [bind_of_error run] at atEnd
      intro between crosses
      apply atEnd
      rw [← crosses, run]
      exact stop_of_error

theorem skipWhile (test : Token → Bool) : Local (Scan.skipWhile test : Scan Token Error Unit) :=
  (takeWhile test).bind fun _ => pure ()

end Local

/-- Local, and comes to a stop on every buffer. -/
structure Steady (x : Scan Token Error α) : Prop where
  isLocal : Local x
  halts : ∀ rest, (stop (x rest)).isSome

/-- Local, and comes to a stop where there is a token left. -/
structure SteadyAhead (x : Scan Token Error α) : Prop where
  isLocal : Local x
  halts : ∀ token rest, (stop (x (token :: rest))).isSome

namespace Steady

theorem pure (a : α) : Steady (Pure.pure a : Scan Token Error α) := ⟨.pure a, fun _ => rfl⟩

theorem throwing (what : Error) : Steady (Scan.throwing what : Scan Token Error α) := ⟨.throwing what, fun _ => rfl⟩

theorem step : Steady (Scan.step : Scan Token Error Unit) := ⟨.step, fun _ => rfl⟩

theorem takeWhile (test : Token → Bool) : Steady (Scan.takeWhile test : Scan Token Error (List Token)) :=
  ⟨.takeWhile test, fun _ => rfl⟩

theorem skipWhile (test : Token → Bool) : Steady (Scan.skipWhile test : Scan Token Error Unit) :=
  ⟨.skipWhile test, fun _ => rfl⟩

theorem readAt {passed : List Token} {i : ℕ} (inside : i < passed.length) :
    Steady (Scan.readAt passed i : Scan Token Error Token) := by
  refine ⟨.readAt passed i, fun rest => ?_⟩
  unfold Scan.readAt
  rw [List.getElem?_eq_getElem inside]
  rfl

theorem bind {x : Scan Token Error α} {f : α → Scan Token Error β} (first : Steady x) (second : ∀ a, Steady (f a)) :
    Steady (x >>= f) := by
  refine ⟨first.isLocal.bind fun a => (second a).isLocal, fun rest => ?_⟩
  match run : x rest with
  | .ok (a, after) =>
    rw [bind_of_ok run]
    exact (second a).halts after
  | .error failure =>
    have stops := first.halts rest
    rw [run, @stop_of_error _ _ _ β] at stops
    rwa [bind_of_error run]

/-- After a look ahead the scanner may move by one, if it did not see the end. -/
theorem peek {f : Option Token → Scan Token Error β} (atEnd : Steady (f none))
    (ahead : ∀ token, SteadyAhead (f (some token))) :
    Steady (Scan.peek >>= f) := by
  constructor
  · refine Local.peek.bind fun next => ?_
    cases next with
    | none => exact atEnd.isLocal
    | some token => exact (ahead token).isLocal
  · intro rest
    cases rest with
    | nil => exact atEnd.halts []
    | cons token rest => exact (ahead token).halts token rest

end Steady

theorem Steady.ahead {x : Scan Token Error α} (steady : Steady x) : SteadyAhead x :=
  ⟨steady.isLocal, fun _ _ => steady.halts _⟩

theorem SteadyAhead.advance {f : Unit → Scan Token Error β} (later : Steady (f ())) :
    SteadyAhead (Scan.advance 1 >>= f) := by
  refine ⟨(Local.advance 1).bind fun _ => later.isLocal, fun token rest => ?_⟩
  rw [advance_one_bind]
  exact later.halts rest

/-- What is steady does not change whether the whole comes to a stop. -/
theorem stop_bind_iff {x : Scan Token Error α} {f : α → Scan Token Error β} (later : ∀ a, Steady (f a))
    (rest : List Token) :
    (stop ((x >>= f) rest)).isSome ↔ (stop (x rest)).isSome := by
  match run : x rest with
  | .ok (a, after) =>
    rw [bind_of_ok run]
    exact iff_of_true ((later a).halts after) rfl
  | .error failure =>
    rw [bind_of_error run]
    exact iff_of_eq (congrArg (fun place : Option (List Token) => place.isSome = true) stop_of_error)

/-- A turn that goes on has moved. -/
def Advances (body : σ → Scan Token Error (σ ⊕ τ)) : Prop :=
  ∀ state rest next after, body state rest = .ok (.inl next, after) → after.length < rest.length

variable {body : σ → Scan Token Error (σ ⊕ τ)} {state next : σ} {result : τ} {rest after : List Token}

/-- With a turn for every token left, and one to leave the loop, more turns make no difference. -/
theorem iterate_eq (advances : Advances body) {fuel other : ℕ} (enough : rest.length < fuel)
    (alike : rest.length < other) :
    iterate body fuel state rest = iterate body other state rest := by
  induction fuel generalizing other rest state with
  | zero => contradiction
  | succ fuel ih =>
    obtain ⟨other, rfl⟩ := Nat.exists_eq_succ_of_ne_zero (Nat.ne_zero_of_lt alike)
    unfold iterate
    match run : body state rest with
    | .ok (.inl next, after) =>
      rw [bind_of_ok run, bind_of_ok run]
      have shorter := advances state rest next after run
      exact ih (by omega) (by omega)
    | .ok (.inr result, after) => rw [bind_of_ok run, bind_of_ok run]
    | .error failure => rw [bind_of_error run, bind_of_error run]

theorem loop_continue (advances : Advances body) (run : body state rest = .ok (.inl next, after)) :
    loop body state rest = loop body next after := by
  unfold loop
  rw [iterate, bind_of_ok run]
  exact iterate_eq advances (advances state rest next after run) (Nat.lt_succ_self _)

theorem loop_leave (run : body state rest = .ok (.inr result, after)) : loop body state rest = .ok (result, after) := by
  unfold loop iterate
  rw [bind_of_ok run]
  rfl

theorem loop_error {failure : ScanFailure Token Error} (run : body state rest = .error failure) :
    loop body state rest = .error failure := by
  unfold loop iterate
  rw [bind_of_error run]

/-- The heads of the loop that it comes by. -/
inductive Visits (body : σ → Scan Token Error (σ ⊕ τ)) : σ → List Token → σ → List Token → Prop
  | start (state : σ) (rest : List Token) : Visits body state rest state rest
  | turn {state next last : σ} {rest after left : List Token} (run : body state rest = .ok (.inl next, after))
      (later : Visits body next after last left) : Visits body state rest last left

/-- A loop comes to a stop exactly if every turn does that it comes by. -/
theorem stop_loop_iff (advances : Advances body) :
    (stop (loop body state rest)).isSome ↔
    ∀ last left, Visits body state rest last left → (stop (body last left)).isSome := by
  induction length : rest.length using Nat.strong_induction_on generalizing rest state with
  | _ length ih =>
    match run : body state rest with
    | .ok (.inl next, after) =>
      rw [loop_continue advances run, ih after.length (length ▸ advances state rest next after run) rfl]
      constructor
      · intro stops last left visits
        cases visits with
        | start =>
          rw [run]
          rfl
        | turn run' later =>
          obtain ⟨rfl, rfl⟩ : _ ∧ _ := by simpa [run] using run'
          exact stops last left later
      · intro stops last left visits
        exact stops last left (.turn run visits)
    | .ok (.inr result, after) =>
      rw [loop_leave run]
      simp only [stop_ok, Option.isSome_some, true_iff]
      intro last left visits
      cases visits with
      | start =>
        rw [run]
        rfl
      | turn run' => simp [run] at run'
    | .error failure =>
      rw [loop_error run, @stop_of_error _ _ _ (σ ⊕ τ), ← run]
      constructor
      · intro stops last left visits
        cases visits with
        | start => exact stops
        | turn run' => simp [run] at run'
      · intro stops
        exact stops state rest (.start state rest)

namespace Local

theorem loop_suffix (each : ∀ state, Local (body state)) (advances : Advances body)
    (stops : stop (loop body state rest) = some after) : after <:+ rest := by
  induction length : rest.length using Nat.strong_induction_on generalizing rest state with
  | _ length ih =>
    match run : body state rest with
    | .ok (.inl next, between) =>
      rw [loop_continue advances run] at stops
      have start := (each state).suffix rest between (by rw [run]; rfl)
      exact (ih between.length (length ▸ advances state rest next between run) stops rfl).trans start
    | .ok (.inr result, between) =>
      rw [loop_leave run] at stops
      exact (each state).suffix rest after (by rw [run]; exact stops)
    | .error failure =>
      rw [loop_error run] at stops
      exact (each state).suffix rest after (by rw [run, ← stops]; exact stop_of_error)

theorem loop (each : ∀ state, Local (body state)) (advances : Advances body) (state : σ) :
    Local (Scan.loop body state) where
  suffix rest after := loop_suffix each advances
  within rest more after stops apart := by
    induction length : rest.length using Nat.strong_induction_on generalizing rest state with
    | _ length ih =>
      match run : body state rest with
      | .ok (.inl next, between) =>
        rw [loop_continue advances run] at stops ⊢
        have inside : between ≠ [] := by
          rintro rfl
          exact apart (List.suffix_nil.mp (loop_suffix each advances stops))
        have same := (each state).within rest more between (by rw [run]; rfl) inside
        rw [run] at same
        rw [loop_continue advances same]
        exact ih between.length (length ▸ advances state rest next between run) next between stops rfl
      | .ok (.inr result, between) =>
        rw [loop_leave run] at stops ⊢
        have same := (each state).within rest more after (by rw [run]; exact stops) apart
        rw [run] at same
        exact loop_leave same
      | .error failure =>
        rw [loop_error run] at stops ⊢
        have same := (each state).within rest more after (by rw [run, ← stops]; exact stop_of_error) apart
        rw [run] at same
        cases failure with
        | thrown | outside | outOfFuel => exact loop_error same
  across rest more atEnd after stops := by
    induction length : rest.length using Nat.strong_induction_on generalizing rest state with
    | _ length ih =>
      have runsOn (crosses : ∀ between, stop (body state rest) = some between → between = []) : after <:+ more := by
        match run : body state (rest ++ more) with
        | .ok (.inl next, between) =>
          rw [loop_continue advances run] at stops
          have start := (each state).across rest more crosses between (by rw [run]; rfl)
          exact (loop_suffix each advances stops).trans start
        | .ok (.inr result, between) =>
          rw [loop_leave run] at stops
          exact (each state).across rest more crosses after (by rw [run]; exact stops)
        | .error failure =>
          rw [loop_error run] at stops
          exact (each state).across rest more crosses after (by rw [run, ← stops]; exact stop_of_error)
      match run : body state rest with
      | .ok (next, []) =>
        apply runsOn
        rw [run]
        exact fun between stops => (Option.some.inj stops).symm
      | .ok (.inl next, token :: between) =>
        have same := (each state).within rest more (token :: between) (by rw [run]; rfl) (List.cons_ne_nil _ _)
        rw [run] at same
        rw [loop_continue advances same] at stops
        rw [loop_continue advances run] at atEnd
        exact ih (token :: between).length (length ▸ advances state rest next _ run)
          next (token :: between) atEnd stops rfl
      | .ok (.inr result, token :: between) =>
        rw [loop_leave run] at atEnd
        exact absurd (atEnd _ rfl) (List.cons_ne_nil _ _)
      | .error failure =>
        apply runsOn
        rw [loop_error run] at atEnd
        intro between crosses
        apply atEnd
        rw [← crosses, run]
        exact stop_of_error

end Local

theorem Steady.loop (advances : Advances body) (each : ∀ state, Steady (body state)) (state : σ) :
    Steady (Scan.loop body state) where
  isLocal := .loop (fun state => (each state).isLocal) advances state
  halts _ := (stop_loop_iff advances).mpr fun last left _ => (each last).halts left

/-- The scanner throws at such places only. -/
def ThrowsAt (place : List Token → Prop) (x : Scan Token Error α) : Prop :=
  ∀ rest what after, x rest = .error (.thrown what after) → place after

namespace ThrowsAt

variable {place : List Token → Prop}

theorem pure (a : α) : ThrowsAt place (Pure.pure a : Scan Token Error α) := by
  intro rest what after run
  contradiction

theorem step : ThrowsAt place (Scan.step : Scan Token Error Unit) := by
  intro rest what after run
  contradiction

theorem skipWhile (test : Token → Bool) : ThrowsAt place (Scan.skipWhile test : Scan Token Error Unit) := by
  intro rest what after run
  contradiction

theorem takeWhile (test : Token → Bool) : ThrowsAt place (Scan.takeWhile test : Scan Token Error (List Token)) := by
  intro rest what after run
  contradiction

theorem peek : ThrowsAt place (Scan.peek : Scan Token Error (Option Token)) := by
  intro rest what after run
  contradiction

theorem advance (n : ℕ) : ThrowsAt place (Scan.advance n : Scan Token Error Unit) := by
  intro rest what after run
  unfold Scan.advance at run
  split at run <;> cases run

theorem readAt (passed : List Token) (i : ℕ) : ThrowsAt place (Scan.readAt passed i : Scan Token Error Token) := by
  intro rest what after run
  unfold Scan.readAt at run
  split at run <;> cases run

theorem bind {x : Scan Token Error α} {f : α → Scan Token Error β} (first : ThrowsAt place x)
    (second : ∀ a, ThrowsAt place (f a)) : ThrowsAt place (x >>= f) := by
  intro rest what after run
  match start : x rest with
  | .ok (a, between) =>
    rw [bind_of_ok start] at run
    exact second a between what after run
  | .error failure =>
    rw [bind_of_error start] at run
    exact first rest what after (start.trans (congrArg Except.error (Except.error.inj run)))

theorem iterate (each : ∀ state, ThrowsAt place (body state)) (fuel : ℕ) (state : σ) :
    ThrowsAt place (Scan.iterate body fuel state) := by
  induction fuel generalizing state with
  | zero =>
    intro rest what after run
    cases run
  | succ fuel ih =>
    refine (each state).bind fun turn => ?_
    cases turn with
    | inl next => exact ih next
    | inr result => exact pure result

theorem loop (each : ∀ state, ThrowsAt place (body state)) (state : σ) : ThrowsAt place (Scan.loop body state) :=
  fun rest => iterate each (rest.length + 1) state rest

end ThrowsAt

/-- What a loop returns is what its last turn left it with. -/
theorem exists_leave (run : loop body state rest = .ok (result, after)) :
    ∃ last left, body last left = .ok (.inr result, after) := by
  unfold loop at run
  generalize rest.length + 1 = fuel at run
  induction fuel generalizing state rest with
  | zero => contradiction
  | succ fuel ih =>
    unfold iterate at run
    match turn : body state rest with
    | .ok (.inl next, between) =>
      rw [bind_of_ok turn] at run
      exact ih run
    | .ok (.inr found, between) =>
      rw [bind_of_ok turn] at run
      obtain ⟨rfl, rfl⟩ := Prod.mk.inj (Except.ok.inj run)
      exact ⟨state, rest, turn⟩
    | .error failure =>
      rw [bind_of_error turn] at run
      contradiction

end Scan
