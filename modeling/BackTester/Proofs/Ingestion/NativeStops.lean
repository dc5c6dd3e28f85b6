import BackTester.Proofs.Ingestion.NativeScan

/-! # Where the native parser stops

A record is left behind its closing brace, at the end of the buffer, or at the quote behind a
timestamp that is too short. What does not begin with a brace is left where it begins.
-/

namespace BackTester.JsonNativeDataParser

open Scan

/-- Where a timestamp ends. -/
def AtQuote (rest : List UInt8) : Prop := rest = [] ∨ rest.head? = some ('"' : UInt8)

variable {place : List UInt8 → Prop}

theorem throws_ndpSkip (e : MarketDataEvent) : ThrowsAt place (ndpSkip e) := by
  refine .bind ?_ fun _ => .pure _
  refine (ThrowsAt.skipWhile _).bind fun _ => ThrowsAt.peek.bind fun ahead => ?_
  cases ahead with
  | none => exact .pure _
  | some c =>
    dsimp only
    split
    · exact (ThrowsAt.advance 1).bind fun _ => (ThrowsAt.skipWhile _).bind fun _ => .step
    · split
      · refine .loop (fun depth => ThrowsAt.peek.bind fun ahead => ?_) 0
        cases ahead with
        | none => exact .pure _
        | some c =>
          refine (ThrowsAt.advance 1).bind fun _ => ?_
          unfold skipNestedChar
          split
          · exact .pure _
          · split
            · split <;> exact .pure _
            · split
              · exact (ThrowsAt.skipWhile _).bind fun _ => ThrowsAt.step.bind fun _ => .pure _
              · exact .pure _
      · exact .skipWhile _

theorem throws_digitAt (s : List UInt8) (p : ℕ) : ThrowsAt place (digitAt s p) :=
  (ThrowsAt.readAt s p).bind fun _ => .pure _

theorem throws_twoAt (s : List UInt8) (p : ℕ) : ThrowsAt place (twoAt s p) :=
  (throws_digitAt s p).bind fun _ => (throws_digitAt s (p + 1)).bind fun _ => .pure _

theorem throws_fourAt (s : List UInt8) (p : ℕ) : ThrowsAt place (fourAt s p) := by
  unfold fourAt
  iterate 4 refine (throws_digitAt s _).bind fun _ => ?_
  exact .pure _

theorem throws_ndpNanos (s : List UInt8) : ThrowsAt place (ndpNanos s) := by
  unfold ndpNanos
  split
  · unfold parseNanosFixed9
    iterate 9 refine (throws_digitAt s _).bind fun _ => ?_
    exact .pure _
  · split <;> exact .pure _

/-- A timestamp that is too short is refused without a move. -/
theorem ndpParseIso8601Nanos_thrown {s rest what after : List UInt8}
    (run : ndpParseIso8601Nanos s rest = .error (.thrown what after)) : after = rest := by
  unfold ndpParseIso8601Nanos at run
  split at run
  · exact (ScanFailure.thrown.inj (Except.error.inj run)).2.symm
  · refine False.elim
      (@ThrowsAt.bind _ _ _ _ (fun _ => False) _ _ (throws_fourAt s 0) (fun _ => ?_) rest what after run)
    iterate 5 refine (throws_twoAt s _).bind fun _ => ?_
    exact (throws_ndpNanos s).bind fun _ => .pure _

theorem throws_ndpNumber (store : UInt32 → MarketDataEvent) (e : MarketDataEvent) :
    ThrowsAt place (ndpNumber store e) := by
  refine ThrowsAt.peek.bind fun ahead => ?_
  split
  · exact .bind ((ThrowsAt.takeWhile _).bind fun _ => .pure _) fun _ => .pure _
  · exact throws_ndpSkip e

theorem throws_ndpTimestamp (store : Int64 → MarketDataEvent) (e : MarketDataEvent) :
    ThrowsAt AtQuote (ndpTimestamp store e) := by
  refine ThrowsAt.peek.bind fun ahead => ?_
  split
  · refine (ThrowsAt.advance 1).bind fun _ => ?_
    intro rest what after run
    rw [takeWhile_bind] at run
    have atQuote : AtQuote (rest.dropWhile notQuote) := by
      cases text : rest.dropWhile notQuote with
      | nil => exact .inl rfl
      | cons c others =>
        have stops := List.head?_dropWhile_not notQuote rest
        rw [text] at stops
        right
        simpa [notQuote] using stops
    split at run
    · match parsed : ndpParseIso8601Nanos (rest.takeWhile notQuote) (rest.dropWhile notQuote) with
      | .ok (nanos, between) =>
        rw [bind_of_ok parsed] at run
        contradiction
      | .error failure =>
        rw [bind_of_error parsed] at run
        obtain rfl := Except.error.inj run
        rwa [ndpParseIso8601Nanos_thrown parsed]
    · contradiction
  · exact throws_ndpSkip e

theorem throws_ndpHdValue (key : List UInt8) (e : MarketDataEvent) : ThrowsAt AtQuote (ndpHdValue key e) := by
  unfold ndpHdValue
  split
  · exact throws_ndpNumber _ e
  · exact throws_ndpTimestamp _ e
  · exact throws_ndpNumber _ e
  · exact throws_ndpNumber _ e
  · exact throws_ndpSkip e

theorem throws_ndpKeyed {value : List UInt8 → MarketDataEvent → Scanner MarketDataEvent}
    (throws : ∀ key e, ThrowsAt place (value key e)) (e : MarketDataEvent) : ThrowsAt place (ndpKeyed value e) := by
  refine .bind ?_ fun key => (throws key e).bind fun _ => .pure _
  exact (ThrowsAt.takeWhile _).bind fun _ => ThrowsAt.step.bind fun _ => (ThrowsAt.skipWhile _).bind fun _ => .pure _

theorem throws_ndpParseHd (e : MarketDataEvent) : ThrowsAt AtQuote (ndpParseHd e) := by
  refine ThrowsAt.peek.bind fun ahead => ?_
  split
  · refine (ThrowsAt.advance 1).bind fun _ => .loop (fun e => ?_) e
    refine (ThrowsAt.skipWhile _).bind fun _ => ThrowsAt.peek.bind fun ahead => ?_
    cases ahead with
    | none => exact .pure _
    | some c =>
      dsimp only
      split
      · exact (ThrowsAt.advance 1).bind fun _ => .pure _
      · split
        · exact (ThrowsAt.advance 1).bind fun _ => .pure _
        · exact (ThrowsAt.advance 1).bind fun _ => throws_ndpKeyed throws_ndpHdValue e
  · exact .pure _

theorem throws_ndpLetter (store : UInt8 → MarketDataEvent) (e : MarketDataEvent) :
    ThrowsAt place (ndpLetter store e) := by
  refine ThrowsAt.peek.bind fun ahead => ?_
  split
  · refine (ThrowsAt.advance 1).bind fun _ => ThrowsAt.peek.bind fun _ => ThrowsAt.step.bind fun _ => ?_
    exact (ThrowsAt.skipWhile _).bind fun _ => ThrowsAt.step.bind fun _ => .pure _
  · exact throws_ndpSkip e

theorem throws_ndpPrice (e : MarketDataEvent) : ThrowsAt place (ndpPrice e) := by
  refine ThrowsAt.peek.bind fun ahead => ?_
  split
  · exact (ThrowsAt.advance 4).bind fun _ => .pure _
  · refine ThrowsAt.peek.bind fun ahead => ?_
    split
    · exact (ThrowsAt.advance 1).bind fun _ => (ThrowsAt.takeWhile _).bind fun _ => ThrowsAt.step.bind fun _ => .pure _
    · exact throws_ndpSkip e

theorem throws_ndpOrderId (e : MarketDataEvent) : ThrowsAt place (ndpOrderId e) := by
  refine ThrowsAt.peek.bind fun ahead => ?_
  split
  · refine (ThrowsAt.advance 1).bind fun _ => .bind ((ThrowsAt.takeWhile _).bind fun _ => .pure _) fun _ => ?_
    exact (ThrowsAt.skipWhile _).bind fun _ => ThrowsAt.step.bind fun _ => .pure _
  · exact throws_ndpSkip e

theorem throws_ndpTsInDelta (e : MarketDataEvent) : ThrowsAt place (ndpTsInDelta e) := by
  have throwsU32 : ThrowsAt place parseU32 := (ThrowsAt.takeWhile _).bind fun _ => .pure _
  refine ThrowsAt.peek.bind fun ahead => ?_
  split
  · refine .bind (ThrowsAt.peek.bind fun ahead => ?_) fun _ => .pure _
    split
    · exact (ThrowsAt.advance 1).bind fun _ => throwsU32.bind fun _ => .pure _
    · exact throwsU32.bind fun _ => .pure _
  · exact throws_ndpSkip e

/-- A value is refused only where a timestamp ends. -/
theorem throws_ndpValue (key : List UInt8) (e : MarketDataEvent) : ThrowsAt AtQuote (ndpValue key e) := by
  obtain ⟨field, selects, -⟩ := exists_field key e
  rw [selects]
  cases field with
  | hd => exact throws_ndpParseHd e
  | side | action => exact throws_ndpLetter _ e
  | size | flags | sequence | channelId => exact throws_ndpNumber _ e
  | price => exact throws_ndpPrice e
  | symbol => exact throws_ndpSkip e
  | tsRecv => exact throws_ndpTimestamp _ e
  | orderId => exact throws_ndpOrderId e
  | tsInDelta => exact throws_ndpTsInDelta e

/-- The loop over an object is left at its brace or at the end, and is left early only where a timestamp ends. -/
theorem throws_ndpField (e : MarketDataEvent) : ThrowsAt AtQuote (ndpField e) := by
  refine (ThrowsAt.skipWhile _).bind fun _ => ThrowsAt.peek.bind fun ahead => ?_
  cases ahead with
  | none => exact .pure _
  | some c =>
    dsimp only
    split
    · exact .pure _
    · split
      · exact (ThrowsAt.advance 1).bind fun _ => .pure _
      · exact (ThrowsAt.advance 1).bind fun _ => throws_ndpKeyed throws_ndpValue e

theorem ndpKeyed_continues {value : List UInt8 → MarketDataEvent → Scanner MarketDataEvent} {e result : MarketDataEvent}
    {keyed after : List UInt8} (run : ndpKeyed value e keyed = .ok (.inr result, after)) : False := by
  unfold ndpKeyed at run
  match isKey : ndpKey keyed with
  | .error failure =>
    rw [bind_of_error isKey] at run
    contradiction
  | .ok (key, start) =>
    rw [bind_of_ok isKey] at run
    match isValue : value key e start with
    | .error failure =>
      rw [bind_of_error isValue] at run
      contradiction
    | .ok (next, left) =>
      rw [bind_of_ok isValue] at run
      cases run

theorem ndpField_leaves {e result : MarketDataEvent} {pos after : List UInt8}
    (run : ndpField e pos = .ok (.inr result, after)) :
    after = [] ∨ after.head? = some ('}' : UInt8) := by
  unfold ndpField at run
  rw [skipWhile_bind, peek_bind] at run
  cases ahead : pos.dropWhile isSeparator with
  | nil =>
    rw [ahead] at run
    exact .inl (Prod.mk.inj (Except.ok.inj run)).2.symm
  | cons c keyed =>
    rw [ahead] at run
    dsimp only [List.head?_cons] at run
    split at run
    · next isBrace =>
      right
      rw [← (Prod.mk.inj (Except.ok.inj run)).2, List.head?_cons, isBrace]
    · split at run
      · rw [advance_one_bind] at run
        cases run
      · rw [advance_one_bind] at run
        exact (ndpKeyed_continues run).elim

/-- Where a record is left. -/
theorem stops_ndpParseLine {start rest : List UInt8} (stops : stop (ndpParseLine start) = some rest) :
    start.head? ≠ some ('{' : UInt8) ∧ rest = start ∨ AtQuote rest ∨ ('}' : UInt8) :: rest <:+ start := by
  unfold ndpParseLine at stops
  rw [peek_bind] at stops
  split at stops
  · next isBrace =>
    right
    match start, isBrace with
    | c :: line, _ =>
      rw [advance_one_bind] at stops
      have suffix {e : MarketDataEvent} {left : List UInt8} (run : loop ndpField {} line = .ok (e, left)) :
          left <:+ line :=
        (Local.loop local_ndpField advances_ndpField {}).suffix line left (by rw [run]; rfl)
      match run : loop ndpField {} line with
      | .error failure =>
        rw [bind_of_error run] at stops
        cases failure with
        | thrown what after =>
          obtain rfl := Option.some.inj stops
          exact .inl (ThrowsAt.loop throws_ndpField {} line what _ run)
        | outside => contradiction
        | outOfFuel => contradiction
      | .ok (e, left) =>
        rw [bind_of_ok run] at stops
        obtain ⟨last, head, leaves⟩ := exists_leave run
        have ending (after : List UInt8) : stop ((if e.tsRecv = 0 then throwing (bytes "missing ts_recv") else pure e :
            Scanner MarketDataEvent) after) = some after := by
          split <;> rfl
        rcases ndpField_leaves leaves with rfl | isClose
        · change stop ((if _ then _ else _ : Scanner MarketDataEvent) []) = _ at stops
          rw [ending] at stops
          exact .inl (.inl (Option.some.inj stops).symm)
        · cases left with
          | nil => contradiction
          | cons brace left =>
            obtain rfl := Option.some.inj isClose
            have closes : ndpClose (('}' : UInt8) :: left) = .ok ((), left) := rfl
            rw [bind_of_ok closes, ending] at stops
            obtain rfl := Option.some.inj stops
            exact .inr ((suffix run).trans (List.suffix_cons _ _))
  · next notBrace => exact .inl ⟨notBrace, (Option.some.inj stops).symm⟩

end BackTester.JsonNativeDataParser
