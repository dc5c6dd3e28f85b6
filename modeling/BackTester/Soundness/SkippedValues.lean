import BackTester.Proofs.Ingestion.NativeSkip

/-! # Soundness of skipping

A value is skipped whole unless its escaped quotes mislead the parser, which takes them for the ends
of strings. Numbers and literals always are, and so is everything without an escaped quote.
-/

namespace BackTester.JsonNativeDataParser

open FirstStop JsonText MboRecord Scan

variable {text gap escapes : List UInt8} {d : UInt8} {depth : ℕ}

/-- A number or a literal: neither a string nor between brackets. -/
def isBare (text : List UInt8) : Bool := !text.head?.any fun c : UInt8 => c = '"' ∨ isOpening c

/-- The delimiters of values. -/
def delimiters : List UInt8 := bytes ",\x7d]"

/-- Just past the value, or at the delimiter behind a number or a literal. -/
def SkipsPast (text gap : List UInt8) (d : UInt8) (rest : List UInt8) : Prop :=
  ndpSkipVal (text ++ (gap ++ d :: rest)) = .ok ((), if isBare text then d :: rest else gap ++ d :: rest)

/-- If a backslash escapes nothing, the last character closes the last open bracket and none before it does. -/
def ClosesAtEnd (text : List UInt8) : Prop :=
  ∀ before c after, text = before ++ c :: after → ((Reading.of before).closes c = true ↔ after = [])

/-- If a backslash escapes nothing, the text is still one value: a string has no quotes but its own,
and what is between brackets ends with them. -/
def Delimited (text : List UInt8) : Prop :=
  (text.head? = some ('"' : UInt8) → text.count ('"' : UInt8) = 2) ∧ (text.head?.any isOpening → ClosesAtEnd text)

theorem white_nil : White [] := fun _ isIn => absurd isIn List.not_mem_nil

theorem notDelimiter_iff {c : UInt8} : notDelimiter c = true ↔ c ∉ delimiters := by
  simp [notDelimiter, delimiters, bytes]

theorem notDelimiter_of_white {c : UInt8} (white : isWhite c = true) : notDelimiter c = true := by
  rcases of_decide_eq_true white with rfl | rfl | rfl | rfl <;> rfl

/-- A number or a literal is skipped with the space behind it. -/
theorem ndpSkipVal_scalar (isScalar : Scalar text) (white : White gap) (isDelimiter : d ∈ delimiters)
    (rest : List UInt8) :
    isBare text = true ∧ ndpSkipVal (text ++ (gap ++ d :: rest)) = .ok ((), d :: rest) := by
  obtain ⟨nonempty, noMarks⟩ := not_mem_marks_of_scalar isScalar
  have passed : ∀ c ∈ text ++ gap, notDelimiter c = true := by
    have areMarks : ∀ c ∈ delimiters, c ∈ marks := by decide
    intro c isIn
    rcases List.mem_append.mp isIn with inText | inGap
    · exact notDelimiter_iff.mpr fun isDelimiter => noMarks c inText (areMarks c isDelimiter)
    · exact notDelimiter_of_white (white c inGap)
  have stops : ¬notDelimiter d = true := fun goesOn => notDelimiter_iff.mp goesOn isDelimiter
  have left : (text ++ gap ++ d :: rest).dropWhile notDelimiter = d :: rest := by
    rw [List.dropWhile_append_of_pos passed, List.dropWhile_cons_of_neg stops]
  obtain ⟨first, others, rfl⟩ := List.exists_cons_of_ne_nil nonempty
  have noMark := noMarks first List.mem_cons_self
  obtain ⟨notQuote, notOpening, -⟩ := of_decide_eq_true (isPlain_of_not_mem_marks noMark)
  have notSpace : first ≠ ' ' := by
    rintro rfl
    exact noMark (by decide)
  constructor
  · simp [isBare, notQuote, notOpening]
  · rw [← List.append_assoc, List.cons_append, List.cons_append, ndpSkipVal_cons notSpace, if_neg notQuote,
      if_neg (of_decide_eq_false notOpening)]
    exact congrArg (fun left => Except.ok ((), left)) left

/-- What is behind the first quote is all that is behind the string just where there is no other quote. -/
theorem ndpSkipVal_string (body rest : List UInt8) :
    ndpSkipVal (quoted body ++ rest) = .ok ((), rest) ↔ ('"' : UInt8) ∉ body := by
  rw [quoted_append, ndpSkipVal_cons (by decide), if_pos rfl]
  constructor
  · intro isRest isIn
    obtain ⟨before, after, rfl, unquoted⟩ := List.eq_append_cons_of_mem isIn
    rw [List.append_assoc, List.dropWhile_append_of_pos (notQuote_of_not_mem unquoted), List.cons_append,
      List.dropWhile_cons_of_neg (by decide), List.tail_cons, Except.ok.injEq, Prod.mk.injEq] at isRest
    have lengths := congrArg List.length isRest.2
    rw [List.length_append, List.length_cons] at lengths
    omega
  · intro unquoted
    rw [List.dropWhile_append_of_pos (notQuote_of_not_mem unquoted)]
    rfl

theorem count_quoted (body : List UInt8) : (quoted body).count ('"' : UInt8) = 2 ↔ ('"' : UInt8) ∉ body := by
  rw [quoted, List.cons_append, List.count_cons_self, List.count_append, List.count_singleton_self,
    ← List.count_eq_zero]
  omega

/-- What is between brackets is skipped just where it closes at its end. -/
theorem ndpSkipVal_group {c : UInt8} (opens : isOpening c = true) (inner : List UInt8)
    {rest : List UInt8} (nonempty : rest ≠ []) :
    ndpSkipVal (c :: inner ++ rest) = .ok ((), rest) ↔ ClosesAtEnd (c :: inner) := by
  have isOpen : c = '{' ∨ c = '[' := of_decide_eq_true opens
  have notQuote : c ≠ '"' := by rcases isOpen with rfl | rfl <;> decide
  have notSpace : c ≠ ' ' := by rcases isOpen with rfl | rfl <;> decide
  have zero : (0 : Int32) = Int32.ofInt 0 := rfl
  rw [List.cons_append, ndpSkipVal_cons notSpace, if_neg notQuote, if_pos isOpen, zero,
    loop_skipNested, Except.ok.injEq,
    Prod.mk.injEq, ← List.cons_append, getD_behindStop_append nonempty, behindStop_eq_some_nil (List.cons_ne_nil _ _)]
  exact ⟨fun closes => closes.2, fun closes => ⟨rfl, closes⟩⟩

theorem delimited_of_bare (bare : isBare text = true) : Delimited text := by
  unfold isBare at bare
  cases isHead : text.head? with
  | none => exact ⟨fun isQuote => by simp [isHead] at isQuote, fun opens => by simp [isHead] at opens⟩
  | some c =>
    rw [isHead, Option.any_some, Bool.not_eq_true', decide_eq_false_iff_not, not_or] at bare
    refine ⟨fun isQuote => ?_, fun opens => ?_⟩
    · rw [isHead] at isQuote
      exact absurd (Option.some.inj isQuote) bare.1
    · rw [isHead] at opens
      exact absurd opens bare.2

theorem delimited_string (body : List UInt8) : Delimited (quoted body) ↔ ('"' : UInt8) ∉ body := by
  rw [← count_quoted]
  exact ⟨fun delimited => delimited.1 rfl, fun two => ⟨fun _ => two, fun opens => by contradiction⟩⟩

theorem delimited_group {c : UInt8} (opens : isOpening c = true) (inner : List UInt8) :
    Delimited (c :: inner) ↔ ClosesAtEnd (c :: inner) := by
  refine ⟨fun delimited => delimited.2 opens, fun closes => ⟨fun isQuote => ?_, fun _ => closes⟩⟩
  rw [Option.some.inj isQuote] at opens
  contradiction

/-- Whatever a backslash can be ahead of. -/
theorem skipsPast_iff_delimited (json : Json escapes .value depth text) (white : White gap)
    (isDelimiter : d ∈ delimiters) (rest : List UInt8) : SkipsPast text gap d rest ↔ Delimited text := by
  have grouped (brackets : Brackets) (inner : List UInt8) :
      SkipsPast (brackets.opening :: inner) gap d rest ↔ Delimited (brackets.opening :: inner) := by
    have opens := isOpening_opening brackets
    have notBare : ¬isBare (brackets.opening :: inner) = true := by simp [isBare, opens]
    unfold SkipsPast
    rw [if_neg notBare, ndpSkipVal_group opens inner (by simp), delimited_group opens]
  cases json with
  | scalar isScalar =>
    obtain ⟨bare, skipped⟩ := ndpSkipVal_scalar isScalar white isDelimiter rest
    unfold SkipsPast
    rw [if_pos bare, skipped]
    exact ⟨fun _ => delimited_of_bare bare, fun _ => rfl⟩
  | string isBody =>
    unfold SkipsPast
    rw [if_neg (by simp [isBare, quoted]), ndpSkipVal_string, delimited_string]
  | empty isWhite => exact grouped _ _
  | group areItems => exact grouped _ _

/-- Brackets around what is passed over close at the end. -/
theorem closesAtEnd_brackets {inner : List UInt8} (passes : Passes 1 inner) (brackets : Brackets) :
    ClosesAtEnd (brackets.opening :: (inner ++ [brackets.closing])) := by
  have closes : Reading.closes ⟨false, 1⟩ brackets.closing = true := Reading.closes_closing brackets 1
  apply (behindStop_eq_some_nil (List.cons_ne_nil _ _)).mp
  rw [behindStop_cons_of_not_stop (Reading.closes_opening brackets 0), Reading.step_opening, zero_add,
    behindStop_append_of_none passes.goesOn, passes.comesBack, behindStop_cons_of_stop closes]

/-- Without an escaped quote a text is one value for either reader, if its brackets are nested less
deep than 32 bits can count. -/
theorem delimited_of_quoteless (json : Json quotelessEscapes .value depth text) (shallow : depth ≤ 2 ^ 32) :
    Delimited text := by
  cases json with
  | scalar isScalar =>
    exact delimited_of_bare (ndpSkipVal_scalar isScalar white_nil (d := ',') (by decide) []).1
  | string isBody => exact (delimited_string _).mpr (quote_not_mem isBody)
  | empty isWhite =>
    exact (delimited_group (isOpening_opening _) _).mpr (closesAtEnd_brackets (passes_white isWhite 1) _)
  | group areItems =>
    have passes := passes_json areItems 1 (le_refl _) (by omega)
    exact (delimited_group (isOpening_opening _) _).mpr (closesAtEnd_brackets passes _)

/-- A value is skipped whole just where its text is still one value if a backslash escapes nothing:
so is every value that escapes no quote. -/
theorem skipsPast_iff (json : Json allEscapes .value depth text) (white : White gap) (isDelimiter : d ∈ delimiters)
    (rest : List UInt8) : (SkipsPast text gap d rest ↔ Delimited text) ∧
      (Json quotelessEscapes .value depth text → depth ≤ 2 ^ 32 → SkipsPast text gap d rest) := by
  have exactly := skipsPast_iff_delimited json white isDelimiter rest
  exact ⟨exactly, fun quoteless shallow => exactly.mpr (delimited_of_quoteless quoteless shallow)⟩

/-- `[1]`. -/
theorem json_one (escapes : List UInt8) : Json escapes .value 1 (bytes "[1]") := by
  have digits : Digits (bytes "1") := ⟨by decide, by decide⟩
  have one : Scalar (bytes "1") := .number (.inl rfl) digits (.inl rfl) (.inl rfl)
  exact @Json.group escapes 0 .square _ (.last white_nil (.element (.scalar one)) white_nil)

theorem skipsPast_iff_one : (SkipsPast (bytes "[1]") [] ',' [] ↔ Delimited (bytes "[1]")) ∧
    (Json quotelessEscapes .value 1 (bytes "[1]") → 1 ≤ 2 ^ 32 → SkipsPast (bytes "[1]") [] ',' []) := by
  have json := json_one allEscapes
  exact skipsPast_iff json white_nil (by decide) []

/-- The string of an escaped quote is left behind that quote, ahead of its own. -/
theorem not_skipsPast : ¬∀ (depth : ℕ) (text gap : List UInt8) (d : UInt8) (rest : List UInt8),
    Json allEscapes .value depth text → White gap → d ∈ delimiters → SkipsPast text gap d rest := by
  intro always
  have isBody : StringBody allEscapes (bytes "\\\"") := .escape (by decide) .nil
  have skips := always 0 _ [] ',' [] (.string isBody) white_nil (by decide)
  have unquoted : ('"' : UInt8) ∉ bytes "\\\"" := (ndpSkipVal_string _ _).mp skips
  revert unquoted
  decide

end BackTester.JsonNativeDataParser
