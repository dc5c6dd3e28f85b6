import BackTester.Proofs.Ingestion.NativeScan

/-! # Where the native parser leaves its buffer

The parser stays inside its buffer and comes to the end of it, unless it takes a price that begins
with `n` with fewer than four bytes left.
-/

namespace BackTester.JsonNativeDataParser

open Scan

/-- Where the value of a key begins, from behind the first quote of the key. -/
def valueStart (keyed : List UInt8) : List UInt8 :=
  (keyed.dropWhile notQuote).tail.dropWhile isColon

/-- Ahead are a key for which a price is taken and a value that begins with `n` and has fewer than
four bytes to the end. -/
def CutOffNull (pos : List UInt8) : Prop :=
  ∃ keyed, pos.dropWhile isSeparator = ('"' : UInt8) :: keyed ∧ PriceKey (keyed.takeWhile notQuote) ∧
    ∃ short, valueStart keyed = ('n' : UInt8) :: short ∧ short.length < 3

theorem stop_ndpKeyed_iff (e : MarketDataEvent) (keyed : List UInt8) : (stop (ndpKeyed ndpValue e keyed)).isSome ↔
    ¬(PriceKey (keyed.takeWhile notQuote) ∧ ∃ short, valueStart keyed = ('n' : UInt8) :: short ∧ short.length < 3) := by
  have runsKey : ndpKey keyed = .ok (keyed.takeWhile notQuote, valueStart keyed) := rfl
  unfold ndpKeyed
  rw [bind_of_ok runsKey, stop_bind_iff fun _ => .pure _]
  by_cases isPrice : PriceKey (keyed.takeWhile notQuote)
  · rw [ndpValue_of_priceKey isPrice, stop_ndpPrice_iff, iff_not_comm]
    simp only [isPrice, true_and, Classical.not_imp, not_le]
    cases valueStart keyed with
    | nil => simp
    | cons c short =>
      simp only [List.cons.injEq, List.head?_cons, Option.some.injEq, List.length_cons]
      constructor
      · rintro ⟨_, ⟨rfl, rfl⟩, less⟩
        exact ⟨rfl, by omega⟩
      · rintro ⟨rfl, less⟩
        exact ⟨short, ⟨rfl, rfl⟩, by omega⟩
  · simp only [isPrice, false_and, not_false_eq_true, iff_true]
    exact (steady_ndpValue isPrice e).halts _

/-- A turn of the loop over an object leaves the buffer exactly at a `null` that is cut off. -/
theorem stop_ndpField_iff (e : MarketDataEvent) (pos : List UInt8) :
    (stop (ndpField e pos)).isSome ↔ ¬CutOffNull pos := by
  unfold ndpField CutOffNull
  rw [skipWhile_bind, peek_bind]
  cases ahead : pos.dropWhile isSeparator with
  | nil => exact iff_of_true rfl fun ⟨_, same, _⟩ => absurd same (List.cons_ne_nil _ _).symm
  | cons c keyed =>
    dsimp only [List.head?_cons]
    split
    · next isBrace =>
      subst isBrace
      refine iff_of_true rfl ?_
      rintro ⟨_, same, _⟩
      exact absurd (List.cons.inj same).1 (by decide)
    · split
      · next notQuote =>
        rw [advance_one_bind]
        refine iff_of_true rfl ?_
        rintro ⟨_, same, _⟩
        exact notQuote (List.cons.inj same).1
      · next isQuote =>
        rw [not_not] at isQuote
        subst isQuote
        rw [advance_one_bind, stop_ndpKeyed_iff, not_iff_not]
        constructor
        · exact fun cut => ⟨keyed, rfl, cut⟩
        · rintro ⟨_, same, cut⟩
          obtain ⟨-, rfl⟩ := List.cons.inj same
          exact cut

/-- A record leaves the buffer exactly if the loop over its object comes by a `null` that is cut off. -/
theorem stop_ndpParseLine_iff (line : List UInt8) : (stop (ndpParseLine (('{' : UInt8) :: line))).isSome ↔
    ∀ e head, Visits ndpField {} line e head → ¬CutOffNull head := by
  have closes (e : MarketDataEvent) : Steady (ndpClose >>= fun _ =>
      if e.tsRecv = 0 then throwing (bytes "missing ts_recv") else pure e) := by
    refine steady_ndpClose.bind fun _ => ?_
    split
    · exact .throwing _
    · exact .pure _
  unfold ndpParseLine
  rw [peek_bind, List.head?_cons, if_pos rfl, advance_one_bind, stop_bind_iff closes, stop_loop_iff advances_ndpField]
  simp only [stop_ndpField_iff]

theorem nextLine_suffix (rest : List UInt8) : nextLine rest <:+ rest :=
  (List.tail_suffix _).trans (List.dropWhile_suffix _)

theorem length_nextLine_lt {start rest : List UInt8} (nonempty : start ≠ []) (suffix : rest <:+ start) :
    (nextLine rest).length < start.length := by
  have positive := List.length_pos_of_ne_nil nonempty
  have shorter := suffix.length_le
  unfold nextLine
  have less : (rest.dropWhile fun c : UInt8 => c ≠ '\n').length ≤ rest.length := (List.dropWhile_suffix _).length_le
  rw [List.length_tail]
  omega

theorem parseTurn_isOk (start : List UInt8) : (∃ turn, parseTurn start = .ok turn) ↔
    (stop (ndpParseLine start)).isSome := by
  unfold parseTurn
  match ndpParseLine start with
  | .ok (e, rest) => simp
  | .error (.thrown what rest) => simp
  | .error .outside => simp
  | .error .outOfFuel => simp

/-- Every turn ends ahead of where it started. -/
theorem parseTurn_spec {start : List UInt8} {turn : Turn} (nonempty : start ≠ []) (ran : parseTurn start = .ok turn) :
    turn.start = start ∧ stop (ndpParseLine start) = some turn.rest ∧ turn.rest <:+ start ∧
      turn.next.length < start.length := by
  unfold parseTurn at ran
  match run : ndpParseLine start with
  | .ok (e, rest) =>
    rw [run] at ran
    obtain rfl := Except.ok.inj ran
    have suffix := local_ndpParseLine.suffix start rest (by rw [run]; rfl)
    refine ⟨rfl, rfl, suffix, ?_⟩
    -- a record that is returned begins with a brace, which has been passed
    match start, nonempty with
    | c :: line, _ =>
      unfold ndpParseLine at run
      rw [peek_bind, List.head?_cons] at run
      split at run
      · have inside : rest <:+ line := by
          rw [advance_one_bind] at run
          refine ((Local.loop local_ndpField advances_ndpField {}).bind fun e => ?_).suffix line rest (by rw [run]; rfl)
          refine steady_ndpClose.isLocal.bind fun _ => ?_
          split
          · exact .throwing _
          · exact .pure _
        exact Nat.lt_succ_of_le inside.length_le
      · contradiction
  | .error (.thrown what rest) =>
    rw [run] at ran
    obtain rfl := Except.ok.inj ran
    have suffix := local_ndpParseLine.suffix start rest (by rw [run]; rfl)
    exact ⟨rfl, rfl, suffix, length_nextLine_lt nonempty suffix⟩
  | .error .outside => rw [run] at ran; contradiction
  | .error .outOfFuel => rw [run] at ran; contradiction

/-- The positions at which the loop over the file begins a turn. -/
inductive TurnsAt : List UInt8 → List UInt8 → Prop
  | start (pos : List UInt8) : TurnsAt pos pos
  | next {pos line last : List UInt8} {c : UInt8} {turn : Turn} (isStart : pos.dropWhile isBlank = c :: line)
      (ran : parseTurn (c :: line) = .ok turn) (later : TurnsAt turn.next last) : TurnsAt pos last

/-- No price that begins with `n` and is cut off comes up as the value of a key of a record. -/
def NullsComplete (file : List UInt8) : Prop :=
  ∀ pos line, TurnsAt file pos → pos.dropWhile isBlank = ('{' : UInt8) :: line →
    ∀ e head, Visits ndpField {} line e head → ¬CutOffNull head

/-- The parser comes to the end of the file, and no turn begins or ends outside. -/
structure StaysInside (file : List UInt8) : Prop where
  completes : (parseInner file).failure = none
  inside : ∀ turn ∈ (parseInner file).turns, turn.start <:+ file ∧ turn.rest <:+ turn.start

theorem parseTurn_isOk_iff (c : UInt8) (line : List UInt8) : (∃ turn, parseTurn (c :: line) = .ok turn) ↔
    (c = '{' → ∀ e head, Visits ndpField {} line e head → ¬CutOffNull head) := by
  rw [parseTurn_isOk]
  by_cases isBrace : c = '{'
  · subst isBrace
    rw [stop_ndpParseLine_iff]
    simp only [true_implies]
  · simp only [isBrace, false_implies, iff_true]
    unfold ndpParseLine
    rw [peek_bind, List.head?_cons, if_neg fun same => isBrace (Option.some.inj same)]
    rfl

/-- With more turns than bytes, the loop fails only in a turn that fails. -/
theorem failure_turnsFrom_iff (fuel : ℕ) (pos : List UInt8) (enough : pos.length < fuel) :
    (turnsFrom fuel pos).failure = none ↔
      ∀ last c line, TurnsAt pos last → last.dropWhile isBlank = c :: line →
      ∃ turn, parseTurn (c :: line) = .ok turn := by
  induction fuel generalizing pos with
  | zero => contradiction
  | succ fuel ih =>
    unfold turnsFrom
    have shorter := (List.dropWhile_suffix isBlank : pos.dropWhile isBlank <:+ pos).length_le
    cases isStart : pos.dropWhile isBlank with
    | nil =>
      refine iff_of_true rfl fun last c line turns isLine => ?_
      cases turns with
      | start => exact absurd (isStart.symm.trans isLine) (List.cons_ne_nil c line).symm
      | next isStart' => exact absurd (isStart.symm.trans isStart') (List.cons_ne_nil _ _).symm
    | cons c line =>
      dsimp only
      cases ran : parseTurn (c :: line) with
      | error failure =>
        refine iff_of_false (Option.some_ne_none _) fun all => ?_
        obtain ⟨turn, isOk⟩ := all pos c line (.start pos) isStart
        rw [ran] at isOk
        contradiction
      | ok turn =>
        have less := (parseTurn_spec (List.cons_ne_nil c line) ran).2.2.2
        rw [isStart] at shorter
        refine (ih turn.next (by omega)).trans ⟨fun all last c' line' turns isLine => ?_,
          fun all last c' line' turns => ?_⟩
        · cases turns with
          | start =>
            rw [isStart] at isLine
            exact ⟨turn, isLine ▸ ran⟩
          | next isStart' ran' later =>
            obtain ⟨rfl, rfl⟩ := List.cons.inj (isStart.symm.trans isStart')
            obtain rfl := Except.ok.inj (ran.symm.trans ran')
            exact all last c' line' later isLine
        · exact all last c' line' (.next isStart ran turns)

theorem inside_turnsFrom (fuel : ℕ) (pos : List UInt8) : ∀ turn ∈ (turnsFrom fuel pos).turns,
    turn.start <:+ pos ∧ turn.rest <:+ turn.start := by
  induction fuel generalizing pos with
  | zero =>
    intro turn isIn
    contradiction
  | succ fuel ih =>
    unfold turnsFrom
    have suffix : pos.dropWhile isBlank <:+ pos := List.dropWhile_suffix isBlank
    cases isStart : pos.dropWhile isBlank with
    | nil =>
      intro turn isIn
      contradiction
    | cons c line =>
      rw [isStart] at suffix
      dsimp only
      cases ran : parseTurn (c :: line) with
      | error failure =>
        intro turn isIn
        contradiction
      | ok first =>
        obtain ⟨isFirst, -, rest, -⟩ := parseTurn_spec (List.cons_ne_nil c line) ran
        have next : first.next <:+ pos := by
          unfold Turn.next
          split
          · exact rest.trans suffix
          · exact (nextLine_suffix _).trans (rest.trans suffix)
        intro turn isIn
        rcases List.mem_cons.mp isIn with rfl | later
        · rw [isFirst]
          exact ⟨suffix, rest⟩
        · obtain ⟨start, stays⟩ := ih first.next turn later
          exact ⟨start.trans next, stays⟩

/-- On every buffer the parser comes to the end, without a move or a look outside, exactly if no `null` is cut off. -/
theorem staysInside_iff (file : List UInt8) : StaysInside file ↔ NullsComplete file := by
  have completes := failure_turnsFrom_iff (file.length + 1) file (Nat.lt_succ_self _)
  simp only [parseTurn_isOk_iff] at completes
  constructor
  · intro safe pos line turns isStart
    exact completes.mp safe.completes pos '{' line turns isStart rfl
  · intro nulls
    refine ⟨completes.mpr ?_, inside_turnsFrom _ file⟩
    rintro pos c line turns isStart rfl
    exact nulls pos line turns isStart

/-- A file that ends in the first letter of a `null`. -/
theorem not_staysInside : ¬∀ file, StaysInside file := by
  intro safe
  have fails : (parseInner (bytes "\x7b\"price\":n")).failure.isSome = true := by decide +kernel
  rw [(safe _).completes] at fails
  contradiction

end BackTester.JsonNativeDataParser
