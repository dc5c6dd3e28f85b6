import BackTester.Abstract.JsonText
import BackTester.Proofs.Ingestion.NativeRecord
import BackTester.ToMathlib.FirstStop

/-! # What the native parser skips

The loop over an object or an array reads brackets and quotes, and a backslash like any other
character. It stops at the first bracket that closes the last open one.
-/

namespace BackTester.JsonNativeDataParser

open FirstStop JsonText MboRecord Scan

def isOpening (c : UInt8) : Bool := c = '{' ∨ c = '['

def isClosing (c : UInt8) : Bool := c = '}' ∨ c = ']'

/-- What a text comes to if a backslash escapes nothing: whether a quote is open, and how many brackets are. -/
structure Reading where
  inQuotes : Bool := false
  brackets : ℤ := 0

namespace Reading

def step (reading : Reading) (c : UInt8) : Reading :=
  if c = '"' then { reading with inQuotes := !reading.inQuotes }
  else if reading.inQuotes then reading
  else if isOpening c then { reading with brackets := reading.brackets + 1 }
  else if isClosing c then { reading with brackets := reading.brackets - 1 }
  else reading

/-- The character closes a bracket and leaves none open, counted in 32 bits. -/
def closes (reading : Reading) (c : UInt8) : Bool :=
  !reading.inQuotes && isClosing c && (reading.brackets - 1) % 2 ^ 32 = 0

/-- The text read from its beginning. -/
def of (text : List UInt8) : Reading := text.foldl step {}

variable {n : ℤ} {c : UInt8} {text : List UInt8}

theorem step_inQuotes (notQuote : c ≠ '"') : step ⟨true, n⟩ c = ⟨true, n⟩ := by
  simp [step, notQuote]

theorem step_plain (inside : Bool) (notQuote : c ≠ '"') (notOpening : isOpening c = false)
    (notClosing : isClosing c = false) :
    step ⟨inside, n⟩ c = ⟨inside, n⟩ := by
  simp [step, notQuote, notOpening, notClosing]

theorem step_opening (brackets : Brackets) (n : ℤ) : step ⟨false, n⟩ brackets.opening = ⟨false, n + 1⟩ := by
  cases brackets <;> rfl

theorem step_closing (brackets : Brackets) (n : ℤ) : step ⟨false, n⟩ brackets.closing = ⟨false, n - 1⟩ := by
  cases brackets <;> rfl

theorem closes_opening (brackets : Brackets) (n : ℤ) : closes ⟨false, n⟩ brackets.opening = false := by
  cases brackets <;> rfl

theorem closes_closing (brackets : Brackets) (n : ℤ) :
    closes ⟨false, n⟩ brackets.closing = decide ((n - 1) % 2 ^ 32 = 0) := by
  cases brackets <;> rfl

end Reading

variable {n : ℤ} {c : UInt8} {text rest : List UInt8}

/-- Inside quotes the reading goes on behind the next one. -/
theorem behindStop_inQuotes (n : ℤ) (text : List UInt8) : behindStop Reading.step Reading.closes ⟨true, n⟩ text =
    behindStop Reading.step Reading.closes ⟨false, n⟩ (text.dropWhile notQuote).tail := by
  induction text with
  | nil => rfl
  | cons c text ih =>
    rw [behindStop_cons_of_not_stop (by simp [Reading.closes])]
    by_cases isQuote : c = '"'
    · subst isQuote
      rw [List.dropWhile_cons_of_neg (by decide)]
      rfl
    · have isIn : notQuote c = true := decide_eq_true isQuote
      rw [Reading.step_inQuotes isQuote, List.dropWhile_cons_of_pos isIn]
      exact ih

theorem ofInt_eq_zero_iff (n : ℤ) : Int32.ofInt n = 0 ↔ n % 2 ^ 32 = 0 := by
  rw [← Int32.toInt_inj, Int32.toInt_ofInt, Int32.toInt_zero, ← Int.dvd_iff_bmod_eq_zero, Int.dvd_iff_emod_eq_zero]
  rfl

/-- The four kinds of characters that the loop tells apart. -/
theorem exists_kind (c : UInt8) : (c = '{' ∨ c = '[') ∨ (c = '}' ∨ c = ']') ∨ c = '"' ∨
    c ≠ '"' ∧ ¬(c = '{' ∨ c = '[') ∧ ¬(c = '}' ∨ c = ']') := by
  tauto

/-- The loop stops behind the first character that closes, or at the end. -/
theorem loop_skipNested (n : ℤ) (text : List UInt8) : loop skipNested (Int32.ofInt n) text =
    .ok ((), (behindStop Reading.step Reading.closes ⟨false, n⟩ text).getD []) := by
  induction isLength : text.length using Nat.strong_induction_on generalizing n text with
  | h length ih =>
    subst isLength
    cases text with
    | nil => exact loop_leave rfl
    | cons c text =>
      have goesOn (m : ℤ) : loop skipNested (Int32.ofInt m) text = _ := ih _ (Nat.lt_succ_self _) m text rfl
      have turn : skipNested (Int32.ofInt n) (c :: text) = skipNestedChar (Int32.ofInt n) c text := by
        unfold skipNested
        rw [peek_bind, List.head?_cons]
        exact advance_one_bind c _
      unfold skipNestedChar at turn
      rcases exists_kind c with opens | closes | rfl | ⟨notQuote, notOpening, notClosing⟩
      · have next : Reading.step ⟨false, n⟩ c = ⟨false, n + 1⟩ := by rcases opens with rfl | rfl <;> rfl
        have passes : Reading.closes ⟨false, n⟩ c = false := by rcases opens with rfl | rfl <;> rfl
        rw [if_pos opens] at turn
        rw [loop_continue advances_skipNested turn, behindStop_cons_of_not_stop passes, next, ← goesOn, Int32.ofInt_add]
        rfl
      · have notOpening : ¬(c = '{' ∨ c = '[') := by rcases closes with rfl | rfl <;> decide
        have next : Reading.step ⟨false, n⟩ c = ⟨false, n - 1⟩ := by rcases closes with rfl | rfl <;> rfl
        have decides : Reading.closes ⟨false, n⟩ c = decide ((n - 1) % 2 ^ 32 = 0) := by
          rcases closes with rfl | rfl <;> rfl
        have isNext : Int32.ofInt n - 1 = Int32.ofInt (n - 1) := by rw [Int32.ofInt_sub]; rfl
        rw [if_neg notOpening, if_pos closes, isNext] at turn
        by_cases zero : (n - 1) % 2 ^ 32 = 0
        · rw [if_pos ((ofInt_eq_zero_iff _).mpr zero)] at turn
          rw [loop_leave turn, behindStop_cons_of_stop (by rw [decides, decide_eq_true zero])]
          rfl
        · rw [if_neg fun isZero => zero ((ofInt_eq_zero_iff _).mp isZero)] at turn
          rw [loop_continue advances_skipNested turn,
            behindStop_cons_of_not_stop (by rw [decides, decide_eq_false zero]), next,
            ← goesOn]
      · rw [if_neg (by decide), if_neg (by decide), if_pos rfl, skipWhile_bind, step_bind] at turn
        have shorter : (text.dropWhile notQuote).tail.length < (('"' : UInt8) :: text).length := by
          have := (List.dropWhile_suffix notQuote (l := text)).length_le
          rw [List.length_tail, List.length_cons]
          omega
        rw [loop_continue advances_skipNested turn, behindStop_cons_of_not_stop rfl]
        exact (ih _ shorter n _ rfl).trans (by rw [← behindStop_inQuotes]; rfl)
      · have next : Reading.step ⟨false, n⟩ c = ⟨false, n⟩ := by
          simp [Reading.step, isOpening, isClosing, notQuote, notOpening, notClosing]
        have passes : Reading.closes ⟨false, n⟩ c = false := by
          simp [Reading.closes, isClosing, notClosing]
        rw [if_neg notOpening, if_neg notClosing, if_neg notQuote] at turn
        rw [loop_continue advances_skipNested turn, behindStop_cons_of_not_stop passes, next, ← goesOn]

/-- What the parser goes on over when it skips a number or a literal. -/
def notDelimiter (c : UInt8) : Bool := c ≠ ',' ∧ c ≠ '}' ∧ c ≠ ']'

/-- Where skipping stops, by the first character. -/
theorem ndpSkipVal_cons (notSpace : c ≠ ' ') (rest : List UInt8) : ndpSkipVal (c :: rest) =
    if c = '"' then .ok ((), (rest.dropWhile notQuote).tail)
    else if c = '{' ∨ c = '[' then loop skipNested 0 (c :: rest)
    else .ok ((), (c :: rest).dropWhile notDelimiter) := by
  have stays : (c :: rest).dropWhile (fun c : UInt8 => c = ' ') = c :: rest := by
    rw [List.dropWhile_cons, if_neg (by simpa using notSpace)]
  unfold ndpSkipVal
  rw [skipWhile_bind, stays, peek_bind, List.head?_cons]
  dsimp only
  split
  · rw [advance_one_bind]
    rfl
  · split
    · rfl
    · rfl

/-- No bracket of the text closes the last open one, of so many, and all its quotes and brackets are closed. -/
structure Passes (n : ℤ) (text : List UInt8) : Prop where
  goesOn : behindStop Reading.step Reading.closes ⟨false, n⟩ text = none
  comesBack : text.foldl Reading.step ⟨false, n⟩ = ⟨false, n⟩

theorem Passes.append {first second : List UInt8} (passes : Passes n first) (others : Passes n second) :
    Passes n (first ++ second) where
  goesOn := by rw [behindStop_append_of_none passes.goesOn, passes.comesBack, others.goesOn]
  comesBack := by rw [List.foldl_append, passes.comesBack, others.comesBack]

/-- The character is neither a quote nor a bracket. -/
def isPlain (c : UInt8) : Bool := c ≠ '"' ∧ isOpening c = false ∧ isClosing c = false

theorem passes_plain (arePlain : ∀ c ∈ text, isPlain c = true) (n : ℤ) : Passes n text := by
  induction text with
  | nil => exact ⟨rfl, rfl⟩
  | cons c text ih =>
    obtain ⟨notQuote, notOpening, notClosing⟩ := of_decide_eq_true (arePlain c List.mem_cons_self)
    have others := ih fun c isIn => arePlain c (List.mem_cons_of_mem _ isIn)
    have stays := Reading.step_plain (n := n) false notQuote notOpening notClosing
    constructor
    · rw [behindStop_cons_of_not_stop (by simp [Reading.closes, notClosing]), stays, others.goesOn]
    · rw [List.foldl_cons, stays, others.comesBack]

/-- A string without a quote in it. -/
theorem passes_quoted {body : List UInt8} (unquoted : ('"' : UInt8) ∉ body) (n : ℤ) : Passes n (quoted body) := by
  have inside : ∀ body : List UInt8, ('"' : UInt8) ∉ body →
      behindStop Reading.step Reading.closes ⟨true, n⟩ body = none ∧ body.foldl Reading.step ⟨true, n⟩ = ⟨true, n⟩ := by
    intro body unquoted
    induction body with
    | nil => exact ⟨rfl, rfl⟩
    | cons c body ih =>
      rw [List.mem_cons, not_or] at unquoted
      have stays := Reading.step_inQuotes (n := n) (Ne.symm unquoted.1)
      rw [behindStop_cons_of_not_stop rfl, List.foldl_cons, stays]
      exact ih unquoted.2
  have interior := inside body unquoted
  constructor
  · rw [quoted, List.cons_append, behindStop_cons_of_not_stop rfl]
    change behindStop Reading.step Reading.closes ⟨true, n⟩ _ = none
    rw [behindStop_append_of_none interior.1, interior.2]
    rfl
  · rw [quoted, List.cons_append, List.foldl_cons, List.foldl_append]
    change List.foldl Reading.step (body.foldl Reading.step ⟨true, n⟩) _ = _
    rw [interior.2]
    rfl

theorem passes_white (white : White text) (n : ℤ) : Passes n text := by
  apply passes_plain
  intro c isIn
  rcases of_decide_eq_true (white c isIn) with rfl | rfl | rfl | rfl <;> decide

/-- The characters that the parser takes notice of. -/
def marks : List UInt8 := bytes " ,\"\x7b\x7d[]"

theorem not_mem_marks_of_isDigit (isDigit' : isDigit c = true) : c ∉ marks := by
  have noDigit : ∀ c ∈ marks, isDigit c = false := by decide
  intro isMark
  rw [noDigit c isMark] at isDigit'
  contradiction

theorem isPlain_of_not_mem_marks (noMark : c ∉ marks) : isPlain c = true := by
  have brackets : ∀ c : UInt8, c = '"' ∨ isOpening c = true ∨ isClosing c = true → c ∈ marks := by
    intro c isOne
    rcases exists_kind c with (rfl | rfl) | (rfl | rfl) | rfl | ⟨notQuote, notOpening, notClosing⟩
    · decide
    · decide
    · decide
    · decide
    · decide
    · simp [isOpening, isClosing, notQuote, notOpening, notClosing] at isOne
  apply decide_eq_true
  refine ⟨fun isQuote => noMark (brackets c (.inl isQuote)), ?_, ?_⟩
  · exact Bool.eq_false_iff.mpr fun opens => noMark (brackets c (.inr (.inl opens)))
  · exact Bool.eq_false_iff.mpr fun closes => noMark (brackets c (.inr (.inr closes)))

/-- No number and no literal has a mark in it. -/
theorem not_mem_marks_of_scalar (isScalar : Scalar text) : text ≠ [] ∧ ∀ c ∈ text, c ∉ marks := by
  have digits {ds : List UInt8} (areDigits : Digits ds) : ∀ c ∈ ds, c ∉ marks := fun c isIn =>
    not_mem_marks_of_isDigit (areDigits.2 c isIn)
  cases isScalar with
  | literal isLiteral =>
    have literals : ∀ text ∈ [bytes "true", bytes "false", bytes "null"], text ≠ [] ∧ ∀ c ∈ text, c ∉ marks := by decide
    exact literals text isLiteral
  | number isSign isWhole isFraction isExponent =>
    refine ⟨by simp [isWhole.1], ?_⟩
    rw [List.forall_mem_append, List.forall_mem_append, List.forall_mem_append]
    refine ⟨?_, digits isWhole, ?_, ?_⟩
    · rcases isSign with rfl | rfl <;> decide
    · rcases isFraction with rfl | ⟨ds, areDigits, rfl⟩
      · decide
      · exact List.forall_mem_cons.mpr ⟨by decide, digits areDigits⟩
    · rcases isExponent with rfl | ⟨mark, isMark, sign, isSign, ds, areDigits, rfl⟩
      · decide
      · rw [List.forall_mem_cons, List.forall_mem_append]
        have letters : ∀ c ∈ bytes "eE", c ∉ marks := by decide
        have signs : ∀ sign ∈ [[], bytes "+", bytes "-"], ∀ c ∈ sign, c ∉ marks := by decide
        exact ⟨letters mark isMark, signs sign isSign, digits areDigits⟩

theorem quote_not_mem {body : List UInt8} (isBody : StringBody quotelessEscapes body) : ('"' : UInt8) ∉ body := by
  induction isBody with
  | nil => exact List.not_mem_nil
  | plain isPlain _ ih => exact List.not_mem_cons_of_ne_of_not_mem isPlain.1.symm ih
  | escape isEscape _ ih =>
    have notQuote : ∀ c ∈ quotelessEscapes, ('"' : UInt8) ≠ c := by decide
    exact List.not_mem_cons_of_ne_of_not_mem (by decide) (List.not_mem_cons_of_ne_of_not_mem (notQuote _ isEscape) ih)
  | unicode four areHex _ ih =>
    rw [List.mem_append, List.mem_append, not_or, not_or]
    refine ⟨by decide, fun isHex => ?_, ih⟩
    exact absurd (areHex _ isHex) (by decide)

theorem isOpening_opening (brackets : Brackets) : isOpening brackets.opening = true := by
  cases brackets <;> rfl

/-- Brackets around a text that is passed over one level deeper. -/
theorem passes_brackets (brackets : Brackets) (inner : Passes (n + 1) text) (few : 1 ≤ n ∧ n < 2 ^ 32) :
    Passes n (brackets.opening :: (text ++ [brackets.closing])) := by
  have shuts : Reading.step ⟨false, n + 1⟩ brackets.closing = ⟨false, n⟩ := by
    rw [Reading.step_closing, add_sub_cancel_right]
  have stillOpen : Reading.closes ⟨false, n + 1⟩ brackets.closing = false := by
    rw [Reading.closes_closing, decide_eq_false_iff_not]
    omega
  constructor
  · rw [behindStop_cons_of_not_stop (Reading.closes_opening brackets n), Reading.step_opening,
      behindStop_append_of_none inner.goesOn, inner.comesBack, behindStop_cons_of_not_stop stillOpen]
    rfl
  · rw [List.foldl_cons, Reading.step_opening, List.foldl_append, inner.comesBack, List.foldl_cons, shuts]
    rfl

/-- A value without escaped quotes is passed over at any depth that leaves room for its brackets. -/
theorem passes_json {part : Part} {depth : ℕ} (json : Json quotelessEscapes part depth text) :
    ∀ n : ℤ, 1 ≤ n → n + depth ≤ 2 ^ 32 → Passes n text := by
  induction json with
  | scalar isScalar =>
    intro n _ _
    exact passes_plain (fun c isIn => isPlain_of_not_mem_marks ((not_mem_marks_of_scalar isScalar).2 c isIn)) n
  | string isBody => exact fun n _ _ => passes_quoted (quote_not_mem isBody) n
  | empty isWhite => exact fun n positive room => passes_brackets _ (passes_white isWhite _) ⟨positive, by omega⟩
  | group _ ih => exact fun n positive room => passes_brackets _ (ih (n + 1) (by omega) (by omega)) ⟨positive, by omega⟩
  | element _ ih => exact ih
  | member isKey whiteBefore whiteAfter _ ih =>
    intro n positive room
    have colon : Passes n [(':' : UInt8)] := passes_plain (by decide) n
    have behindColon := colon.append ((passes_white whiteAfter n).append (ih n positive room))
    exact (passes_quoted (quote_not_mem isKey) n).append ((passes_white whiteBefore n).append behindColon)
  | last whiteBefore _ whiteAfter ih =>
    intro n positive room
    exact (passes_white whiteBefore n).append ((ih n positive room).append (passes_white whiteAfter n))
  | more whiteBefore _ whiteAfter _ ih ihOthers =>
    intro n positive room
    have comma : Passes n [(',' : UInt8)] := passes_plain (by decide) n
    have behindItem := (passes_white whiteAfter n).append (comma.append (ihOthers n positive room))
    exact (passes_white whiteBefore n).append ((ih n positive room).append behindItem)

end BackTester.JsonNativeDataParser
