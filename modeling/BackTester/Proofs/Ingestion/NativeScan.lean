import BackTester.Abstract.MboRecord
import BackTester.Model.Ingestion.JsonNativeDataParser
import BackTester.ToMathlib.ScanRules

/-! # How the native parser moves

Every function of the parser is local and comes to a stop, save the one that takes a price: it moves
by four where it sees an `n`. Every turn of a loop that goes on has moved.
-/

namespace BackTester.JsonNativeDataParser

open MboRecord Scan

/-- A turn that moves by one, and goes on from there, has moved. -/
theorem advanced {σ τ : Type} {x : Scanner (σ ⊕ τ)} (isLocal : Local x) {token : UInt8}
    {rest after : List UInt8} {result : σ ⊕ τ}
    (run : (advance 1 >>= fun _ => x) (token :: rest) = .ok (result, after)) :
    after.length < (token :: rest).length := by
  rw [advance_one_bind] at run
  have suffix := isLocal.suffix rest after (by rw [run]; rfl)
  exact Nat.lt_succ_of_le suffix.length_le

theorem steady_skipNestedChar (depth : Int32) (c : UInt8) : Steady (skipNestedChar depth c) := by
  unfold skipNestedChar
  split
  · exact .pure _
  · split
    · split <;> exact .pure _
    · split
      · exact (Steady.skipWhile _).bind fun _ => Steady.step.bind fun _ => .pure _
      · exact .pure _

theorem steady_skipNested (depth : Int32) : Steady (skipNested depth) :=
  .peek (.pure _) fun c => .advance (steady_skipNestedChar depth c)

theorem advances_skipNested : Advances skipNested := by
  intro depth rest next after run
  cases rest with
  | nil => cases run
  | cons c rest => exact advanced (steady_skipNestedChar depth c).isLocal run

theorem steady_ndpSkipVal : Steady ndpSkipVal := by
  refine (Steady.skipWhile _).bind fun _ => .peek (.pure _) fun c => ?_
  dsimp only
  split
  · exact .advance ((Steady.skipWhile _).bind fun _ => .step)
  · split
    · exact (Steady.loop advances_skipNested steady_skipNested 0).ahead
    · exact (Steady.skipWhile _).ahead

theorem steady_ndpSkip (e : MarketDataEvent) : Steady (ndpSkip e) := steady_ndpSkipVal.bind fun _ => .pure _

theorem steady_parseU32 : Steady parseU32 := (Steady.takeWhile _).bind fun _ => .pure _

theorem steady_parseU64 : Steady parseU64 := (Steady.takeWhile _).bind fun _ => .pure _

theorem steady_parseI32 : Steady parseI32 := by
  refine .peek ?_ fun c => ?_
  · exact steady_parseU32.bind fun _ => .pure _
  · split
    · exact .advance (steady_parseU32.bind fun _ => .pure _)
    · exact (steady_parseU32.bind fun _ => .pure _).ahead

theorem steady_digitAt {s : List UInt8} {p : ℕ} (inside : p < s.length) : Steady (digitAt s p) :=
  (Steady.readAt inside).bind fun _ => .pure _

theorem steady_twoAt {s : List UInt8} {p : ℕ} (inside : p + 1 < s.length) : Steady (twoAt s p) :=
  (steady_digitAt (Nat.lt_of_succ_lt inside)).bind fun _ => (steady_digitAt inside).bind fun _ => .pure _

theorem steady_fourAt {s : List UInt8} {p : ℕ} (inside : p + 3 < s.length) : Steady (fourAt s p) := by
  refine (steady_digitAt (by omega)).bind fun _ => (steady_digitAt (by omega)).bind fun _ => ?_
  exact (steady_digitAt (by omega)).bind fun _ => (steady_digitAt inside).bind fun _ => .pure _

theorem steady_parseNanosFixed9 {s : List UInt8} {p : ℕ} (inside : p + 8 < s.length) :
    Steady (parseNanosFixed9 s p) := by
  unfold parseNanosFixed9
  iterate 9 refine (steady_digitAt (by omega)).bind fun _ => ?_
  exact .pure _

theorem steady_ndpNanos (s : List UInt8) : Steady (ndpNanos s) := by
  unfold ndpNanos
  split
  · next long => exact steady_parseNanosFixed9 (by omega)
  · split <;> exact .pure _

theorem steady_ndpParseIso8601Nanos (s : List UInt8) : Steady (ndpParseIso8601Nanos s) := by
  unfold ndpParseIso8601Nanos
  split
  · exact .throwing _
  · next long =>
    refine (steady_fourAt (by omega)).bind fun _ => ?_
    iterate 5 refine (steady_twoAt (by omega)).bind fun _ => ?_
    exact (steady_ndpNanos s).bind fun _ => .pure _

theorem steady_ndpNumber (store : UInt32 → MarketDataEvent) (e : MarketDataEvent) : Steady (ndpNumber store e) := by
  refine .peek (steady_ndpSkip e) fun c => ?_
  split
  · exact (steady_parseU32.bind fun _ => .pure _).ahead
  · exact (steady_ndpSkip e).ahead

theorem steady_ndpTimestamp (store : Int64 → MarketDataEvent) (e : MarketDataEvent) :
    Steady (ndpTimestamp store e) := by
  refine .peek (steady_ndpSkip e) fun c => ?_
  split
  · refine .advance ((Steady.takeWhile _).bind fun text => ?_)
    split
    · exact (steady_ndpParseIso8601Nanos text).bind fun _ => Steady.step.bind fun _ => .pure _
    · exact Steady.step.bind fun _ => .pure _
  · exact (steady_ndpSkip e).ahead

theorem steady_ndpHdValue (key : List UInt8) (e : MarketDataEvent) : Steady (ndpHdValue key e) := by
  unfold ndpHdValue
  split
  · exact steady_ndpNumber _ e
  · exact steady_ndpTimestamp _ e
  · exact steady_ndpNumber _ e
  · exact steady_ndpNumber _ e
  · exact steady_ndpSkip e

theorem steady_ndpKey : Steady ndpKey :=
  (Steady.takeWhile _).bind fun _ => Steady.step.bind fun _ => (Steady.skipWhile _).bind fun _ => .pure _

theorem steady_ndpKeyed {value : List UInt8 → MarketDataEvent → Scanner MarketDataEvent}
    (steady : ∀ key e, Steady (value key e)) (e : MarketDataEvent) : Steady (ndpKeyed value e) :=
  steady_ndpKey.bind fun key => (steady key e).bind fun _ => .pure _

theorem steady_ndpHdField (e : MarketDataEvent) : Steady (ndpHdField e) := by
  refine (Steady.skipWhile _).bind fun _ => .peek (.pure _) fun c => ?_
  dsimp only
  split
  · exact .advance (.pure _)
  · split
    · exact .advance (.pure _)
    · exact .advance (steady_ndpKeyed steady_ndpHdValue e)

theorem advances_ndpHdField : Advances ndpHdField := by
  intro e rest next after run
  unfold ndpHdField at run
  rw [skipWhile_bind, peek_bind] at run
  refine lt_of_lt_of_le ?_ (List.dropWhile_suffix isSeparator).length_le
  generalize rest.dropWhile isSeparator = ahead at run
  cases ahead with
  | nil => cases run
  | cons c ahead =>
    dsimp only [List.head?_cons] at run
    split at run
    · cases run
    · split at run
      · exact advanced (.pure _) run
      · exact advanced (steady_ndpKeyed steady_ndpHdValue e).isLocal run

theorem steady_ndpParseHd (e : MarketDataEvent) : Steady (ndpParseHd e) := by
  refine .peek (.pure _) fun c => ?_
  split
  · exact .advance (.loop advances_ndpHdField steady_ndpHdField e)
  · exact (Steady.pure _).ahead

theorem steady_ndpLetter (store : UInt8 → MarketDataEvent) (e : MarketDataEvent) : Steady (ndpLetter store e) := by
  refine .peek (steady_ndpSkip e) fun c => ?_
  split
  · refine .advance (.peek ?_ fun c => Steady.ahead ?_)
    · exact Steady.step.bind fun _ => (Steady.skipWhile _).bind fun _ => Steady.step.bind fun _ => .pure _
    · exact Steady.step.bind fun _ => (Steady.skipWhile _).bind fun _ => Steady.step.bind fun _ => .pure _
  · exact (steady_ndpSkip e).ahead

theorem steady_ndpOrderId (e : MarketDataEvent) : Steady (ndpOrderId e) := by
  refine .peek (steady_ndpSkip e) fun c => ?_
  split
  · refine .advance (steady_parseU64.bind fun _ => ?_)
    exact (Steady.skipWhile _).bind fun _ => Steady.step.bind fun _ => .pure _
  · exact (steady_ndpSkip e).ahead

theorem steady_ndpTsInDelta (e : MarketDataEvent) : Steady (ndpTsInDelta e) := by
  refine .peek (steady_ndpSkip e) fun c => ?_
  split
  · exact (steady_parseI32.bind fun _ => .pure _).ahead
  · exact (steady_ndpSkip e).ahead

theorem local_ndpPrice (e : MarketDataEvent) : Local (ndpPrice e) := by
  refine Local.peek.bind fun ahead => ?_
  split
  · exact (Local.advance 4).bind fun _ => .pure _
  · refine Local.peek.bind fun ahead => ?_
    split
    · exact (Local.advance 1).bind fun _ => (Local.takeWhile _).bind fun _ => Local.step.bind fun _ => .pure _
    · exact (steady_ndpSkip e).isLocal

/-- A price leaves the buffer where it begins with `n` and fewer than four bytes are left. -/
theorem stop_ndpPrice_iff (e : MarketDataEvent) (rest : List UInt8) :
    (stop (ndpPrice e rest)).isSome ↔ (rest.head? = some ('n' : UInt8) → 4 ≤ rest.length) := by
  unfold ndpPrice
  rw [peek_bind]
  split
  · next isNull =>
    simp only [isNull, true_implies]
    by_cases room : 4 ≤ rest.length
    · rw [bind_of_ok (if_pos room : advance 4 rest = _)]
      simp only [room, iff_true]
      rfl
    · rw [bind_of_error (if_neg room : advance 4 rest = _)]
      simp only [room, iff_false]
      exact Bool.false_ne_true
  · next notNull =>
    simp only [notNull, false_implies, iff_true]
    cases rest with
    | nil => exact (steady_ndpSkip e).halts []
    | cons c rest =>
      rw [peek_bind]
      split
      · exact (SteadyAhead.advance ((Steady.takeWhile _).bind fun _ => Steady.step.bind fun _ => .pure _)).halts c rest
      · exact (steady_ndpSkip e).halts _

/-- The keys for which the parser takes a price. -/
def PriceKey (key : List UInt8) : Prop := key.length = 5 ∧ key[0]? = some ('p' : UInt8)

/-- What the lengths of the keys and the letters the parser looks at select. -/
def fieldScanner (acc : MarketDataEvent) : Field → Scanner MarketDataEvent
  | .hd => ndpParseHd acc
  | .side => ndpSide acc
  | .size => ndpNumber (fun v => { acc with size := v }) acc
  | .price => ndpPrice acc
  | .flags => ndpNumber (fun v => { acc with flags := v.toUInt8 }) acc
  | .action => ndpAction acc
  | .symbol => ndpSkip acc
  | .tsRecv => ndpTimestamp (fun nanos => { acc with tsRecv := nanos.toInt }) acc
  | .orderId => ndpOrderId acc
  | .sequence => ndpNumber (fun v => { acc with sequence := v }) acc
  | .channelId => ndpNumber (fun v => { acc with channelId := v.toUInt16 }) acc
  | .tsInDelta => ndpTsInDelta acc

/-- Every key is taken for one of the fields, those of no field like the symbol. -/
theorem exists_field (key : List UInt8) (e : MarketDataEvent) :
    ∃ field, ndpValue key e = fieldScanner e field ∧ (field = .price ↔ PriceKey key) := by
  have first (nonempty : 0 < key.length) : ∃ k0, key[0]? = some k0 := ⟨_, List.getElem?_eq_getElem nonempty⟩
  have other {field : Field} (notPrice : field ≠ .price) (long : key.length ≠ 5) : field = .price ↔ PriceKey key :=
    iff_of_false notPrice fun isPrice => long isPrice.1
  unfold ndpValue
  split
  · next length =>
    obtain ⟨k0, isFirst⟩ := first (by omega)
    rw [readAt_bind isFirst]
    split
    · exact ⟨.hd, rfl, other nofun (by omega)⟩
    · exact ⟨.symbol, rfl, other nofun (by omega)⟩
  · next length =>
    obtain ⟨k0, isFirst⟩ := first (by omega)
    rw [readAt_bind isFirst]
    split
    · obtain ⟨k2, isThird⟩ : ∃ k2, key[2]? = some k2 := ⟨_, List.getElem?_eq_getElem (by omega)⟩
      rw [readAt_bind isThird]
      split
      · exact ⟨.side, rfl, other nofun (by omega)⟩
      · exact ⟨.size, rfl, other nofun (by omega)⟩
    · exact ⟨.symbol, rfl, other nofun (by omega)⟩
  · next length =>
    obtain ⟨k0, isFirst⟩ := first (by omega)
    have notPrice {field : Field} (isOther : field ≠ .price) (letter : k0 ≠ 'p') : field = .price ↔ PriceKey key :=
      iff_of_false isOther fun isPrice => letter (Option.some.inj (isFirst.symm.trans isPrice.2))
    rw [readAt_bind isFirst]
    split
    · next isP => exact ⟨.price, rfl, iff_of_true rfl ⟨length, isP ▸ isFirst⟩⟩
    · next letter =>
      split
      · exact ⟨.flags, rfl, notPrice nofun letter⟩
      · exact ⟨.symbol, rfl, notPrice nofun letter⟩
  · next length =>
    obtain ⟨k0, isFirst⟩ := first (by omega)
    rw [readAt_bind isFirst]
    split
    · exact ⟨.action, rfl, other nofun (by omega)⟩
    · exact ⟨.symbol, rfl, other nofun (by omega)⟩
  · next length =>
    obtain ⟨k0, isFirst⟩ := first (by omega)
    rw [readAt_bind isFirst]
    split
    · exact ⟨.tsRecv, rfl, other nofun (by omega)⟩
    · exact ⟨.symbol, rfl, other nofun (by omega)⟩
  · next length =>
    obtain ⟨k0, isFirst⟩ := first (by omega)
    rw [readAt_bind isFirst]
    split
    · exact ⟨.orderId, rfl, other nofun (by omega)⟩
    · split
      · exact ⟨.sequence, rfl, other nofun (by omega)⟩
      · exact ⟨.symbol, rfl, other nofun (by omega)⟩
  · next length =>
    obtain ⟨k0, isFirst⟩ := first (by omega)
    rw [readAt_bind isFirst]
    split
    · exact ⟨.channelId, rfl, other nofun (by omega)⟩
    · exact ⟨.symbol, rfl, other nofun (by omega)⟩
  · next length =>
    obtain ⟨k0, isFirst⟩ := first (by omega)
    rw [readAt_bind isFirst]
    split
    · exact ⟨.tsInDelta, rfl, other nofun (by omega)⟩
    · exact ⟨.symbol, rfl, other nofun (by omega)⟩
  · next _ _ _ notFive _ _ _ _ _ => exact ⟨.symbol, rfl, other nofun notFive⟩

theorem ndpValue_of_priceKey {key : List UInt8} (isPrice : PriceKey key) (e : MarketDataEvent) :
    ndpValue key e = ndpPrice e := by
  obtain ⟨field, selects, price⟩ := exists_field key e
  rw [selects, price.mpr isPrice]
  rfl

theorem steady_ndpValue {key : List UInt8} (notPrice : ¬PriceKey key) (e : MarketDataEvent) :
    Steady (ndpValue key e) := by
  obtain ⟨field, selects, price⟩ := exists_field key e
  rw [selects]
  cases field with
  | hd => exact steady_ndpParseHd e
  | side | action => exact steady_ndpLetter _ e
  | size | flags | sequence | channelId => exact steady_ndpNumber _ e
  | price => exact absurd (price.mp rfl) notPrice
  | symbol => exact steady_ndpSkip e
  | tsRecv => exact steady_ndpTimestamp _ e
  | orderId => exact steady_ndpOrderId e
  | tsInDelta => exact steady_ndpTsInDelta e

theorem local_ndpValue (key : List UInt8) (e : MarketDataEvent) : Local (ndpValue key e) := by
  by_cases isPrice : PriceKey key
  · rw [ndpValue_of_priceKey isPrice]
    exact local_ndpPrice e
  · exact (steady_ndpValue isPrice e).isLocal

theorem local_keyed (e : MarketDataEvent) : Local (ndpKeyed ndpValue e) :=
  steady_ndpKey.isLocal.bind fun key => (local_ndpValue key e).bind fun _ => .pure _

theorem local_ndpField (e : MarketDataEvent) : Local (ndpField e) := by
  refine (Local.skipWhile _).bind fun _ => Local.peek.bind fun ahead => ?_
  cases ahead with
  | none => exact .pure _
  | some c =>
    dsimp only
    split
    · exact .pure _
    · split
      · exact (Local.advance 1).bind fun _ => .pure _
      · exact (Local.advance 1).bind fun _ => local_keyed e

theorem advances_ndpField : Advances ndpField := by
  intro e rest next after run
  unfold ndpField at run
  rw [skipWhile_bind, peek_bind] at run
  refine lt_of_lt_of_le ?_ (List.dropWhile_suffix isSeparator).length_le
  generalize rest.dropWhile isSeparator = ahead at run
  cases ahead with
  | nil => cases run
  | cons c ahead =>
    dsimp only [List.head?_cons] at run
    split at run
    · cases run
    · split at run
      · exact advanced (.pure _) run
      · exact advanced (local_keyed e) run

theorem steady_ndpClose : Steady ndpClose := by
  refine .peek (.pure _) fun c => ?_
  split
  · rw [← bind_pure (advance 1)]
    exact .advance (.pure _)
  · exact (Steady.pure _).ahead

theorem local_ndpParseLine : Local ndpParseLine := by
  refine Local.peek.bind fun ahead => ?_
  split
  · refine (Local.advance 1).bind fun _ => (Local.loop local_ndpField advances_ndpField {}).bind fun e => ?_
    refine steady_ndpClose.isLocal.bind fun _ => ?_
    split
    · exact .throwing _
    · exact .pure _
  · exact .throwing _

end BackTester.JsonNativeDataParser
