import BackTester.Proofs.Ingestion.RecordText
import BackTester.Proofs.Ingestion.Timestamp

/-! # Values of a record

What each function of the parser makes of the text that the schema has for a value, with the comma
or the brace behind it.
-/

namespace BackTester.JsonNativeDataParser

open Decimal MboRecord Scan

variable {rest : List UInt8}

theorem takeWhile_text (n : ℕ) (stops : ∀ c, rest.head? = some c → isDigit c = false) :
    (takeWhile isDigit : Scanner (List UInt8)) (text n ++ rest) = .ok (text n, rest) :=
  takeWhile_run (fun _ => isDigit_text) stops

theorem parseU32_text (n : ℕ) (stops : ∀ c, rest.head? = some c → isDigit c = false) :
    parseU32 (text n ++ rest) = .ok (UInt32.ofNat n, rest) := by
  unfold parseU32
  rw [bind_of_ok (takeWhile_text n stops), pure_apply, ← foldl_text UInt32.ofNat _ _ n]
  · rfl
  · intro v d small
    have isDigit : (digit d - ('0' : UInt8)).toUInt32 = UInt32.ofNat d := by interval_cases d <;> rfl
    rw [isDigit, UInt32.ofNat_add, UInt32.ofNat_mul]
    rfl

theorem parseU64_text (n : ℕ) (stops : ∀ c, rest.head? = some c → isDigit c = false) :
    parseU64 (text n ++ rest) = .ok (UInt64.ofNat n, rest) := by
  unfold parseU64
  rw [bind_of_ok (takeWhile_text n stops), pure_apply, ← foldl_text UInt64.ofNat _ _ n]
  · rfl
  · intro v d small
    have isDigit : (digit d - ('0' : UInt8)).toUInt64 = UInt64.ofNat d := by interval_cases d <;> rfl
    rw [isDigit, UInt64.ofNat_add, UInt64.ofNat_mul]
    rfl

theorem ndpNumber_text (store : UInt32 → MarketDataEvent) (e : MarketDataEvent) (n : ℕ) (ends : Ends rest) :
    ndpNumber store e (text n ++ rest) = .ok (store (UInt32.ofNat n), rest) := by
  obtain ⟨d, others, small, isText⟩ := exists_text_eq_cons n
  have ahead : (text n ++ rest).head?.any isDigit = true := by
    rw [isText]
    exact isDigit_digit small
  unfold ndpNumber
  rw [peek_bind, if_pos ahead, bind_of_ok (parseU32_text n (ends.test rfl rfl))]
  rfl

theorem head?_text_append_ne (n : ℕ) (rest : List UInt8) : (text n ++ rest).head? ≠ some ('-' : UInt8) := by
  obtain ⟨d, others, small, isText⟩ := exists_text_eq_cons n
  rw [isText, List.cons_append, List.head?_cons]
  interval_cases d <;> decide

theorem parseI32_integer (n : ℤ) (ends : Ends rest) : parseI32 (integer n ++ rest) = .ok (Int32.ofInt n, rest) := by
  have run := parseU32_text n.natAbs (ends.test rfl rfl : ∀ c, rest.head? = some c → isDigit c = false)
  have cast : (UInt32.ofNat n.natAbs).toInt32 = Int32.ofInt n.natAbs := rfl
  unfold parseI32 integer
  rw [peek_bind]
  split
  · next negative =>
    rw [List.cons_append, List.head?_cons, if_pos rfl, advance_one_bind, bind_of_ok run,
      pure_apply, cast, Int32.neg_ofInt]
    congr 3
    omega
  · next nonneg =>
    rw [if_neg (head?_text_append_ne _ rest), bind_of_ok run, pure_apply, cast]
    congr 3
    omega

theorem ndpTsInDelta_integer (e : MarketDataEvent) {n : ℤ} (inRange : -2 ^ 31 ≤ n ∧ n < 2 ^ 31) (ends : Ends rest) :
    ndpTsInDelta e (integer n ++ rest) = .ok ({ e with tsInDelta := n }, rest) := by
  have ahead : ((integer n ++ rest).head?.any fun c : UInt8 => c = '-' ∨ isDigit c) = true := by
    unfold integer
    split
    · rfl
    · obtain ⟨d, others, small, isText⟩ := exists_text_eq_cons n.natAbs
      rw [isText, List.cons_append, List.head?_cons, Option.any_some, isDigit_digit small]
      simp
  unfold ndpTsInDelta
  rw [peek_bind, if_pos ahead, bind_of_ok (parseI32_integer n ends), pure_apply,
    Int32.toInt_ofInt_of_le inRange.1 inRange.2]

theorem isQuote_stops (rest : List UInt8) (c : UInt8) (isHead : (('"' : UInt8) :: rest).head? = some c) :
    notQuote c = false := by
  rw [← Option.some.inj isHead]
  rfl

theorem notQuote_of_not_mem {text : List UInt8} (unquoted : ('"' : UInt8) ∉ text) (c : UInt8) (isIn : c ∈ text) :
    notQuote c = true := by
  apply decide_eq_true
  rintro rfl
  exact unquoted isIn

theorem notQuote_scalar : ∀ c ∈ scalarChars, notQuote c = true := by decide

theorem takeWhile_quoted {text : List UInt8} (unquoted : ∀ c ∈ text, notQuote c = true) (rest : List UInt8) :
    (takeWhile notQuote : Scanner (List UInt8)) (text ++ ('"' : UInt8) :: rest) = .ok (text, ('"' : UInt8) :: rest) :=
  takeWhile_run unquoted (isQuote_stops rest)

theorem skipWhile_quoted {text : List UInt8} (unquoted : ∀ c ∈ text, notQuote c = true) (rest : List UInt8) :
    (skipWhile notQuote : Scanner Unit) (text ++ ('"' : UInt8) :: rest) = .ok ((), ('"' : UInt8) :: rest) :=
  skipWhile_run unquoted (isQuote_stops rest)

theorem quoted_append (text rest : List UInt8) :
    quoted text ++ rest = ('"' : UInt8) :: (text ++ ('"' : UInt8) :: rest) := by
  simp [quoted]

theorem ndpSkip_quoted (e : MarketDataEvent) {text : List UInt8} (unquoted : ∀ c ∈ text, notQuote c = true)
    (rest : List UInt8) :
    ndpSkip e (quoted text ++ rest) = .ok (e, rest) := by
  have skips : ndpSkipVal (quoted text ++ rest) = .ok ((), rest) := by
    rw [quoted_append]
    unfold ndpSkipVal
    rw [skipWhile_bind, List.dropWhile_cons_of_neg (by decide), peek_bind, List.head?_cons]
    dsimp only
    rw [if_pos rfl, advance_one_bind, bind_of_ok (skipWhile_quoted unquoted rest)]
    rfl
  unfold ndpSkip
  rw [bind_of_ok skips]
  rfl

theorem ndpTimestamp_quoted (store : Int64 → MarketDataEvent) (e : MarketDataEvent) {time : ℤ}
    (inRange : -2 ^ 63 ≤ time ∧ time < 2 ^ 63) (rest : List UInt8) :
    ndpTimestamp store e (quoted (timestamp time) ++ rest) = .ok (store (Int64.ofInt time), rest) := by
  have unquoted (c : UInt8) (isIn : c ∈ timestamp time) := notQuote_scalar c (scalar_timestamp time c isIn)
  rw [quoted_append]
  unfold ndpTimestamp
  rw [peek_bind, List.head?_cons, if_pos rfl, advance_one_bind, bind_of_ok (takeWhile_quoted unquoted rest)]
  rw [if_pos (by rw [timestamp, length_momentText]; decide), bind_of_ok (ndpParseIso8601Nanos_timestamp _ inRange)]
  rfl

theorem ndpLetter_quoted (store : UInt8 → MarketDataEvent) (e : MarketDataEvent) (c : UInt8) (rest : List UInt8) :
    ndpLetter store e (quoted [c] ++ rest) = .ok (store c, rest) := by
  rw [quoted_append, ndpLetter]
  rw [peek_bind, List.head?_cons, if_pos rfl, advance_one_bind, peek_bind, step_bind]
  rfl

theorem ndpOrderId_quoted (e : MarketDataEvent) (n : ℕ) (rest : List UInt8) :
    ndpOrderId e (quoted (text n) ++ rest) = .ok ({ e with orderId := UInt64.ofNat n }, rest) := by
  have run := parseU64_text n (fun c isHead => by rw [← Option.some.inj isHead]; rfl :
    ∀ c, (('"' : UInt8) :: rest).head? = some c → isDigit c = false)
  rw [quoted_append]
  unfold ndpOrderId
  rw [peek_bind, List.head?_cons, if_pos rfl, advance_one_bind, bind_of_ok run]
  rfl

theorem keepsUp_int64 (v d : ℕ) (small : d < 10) :
    Int64.ofNat v * 10 + Int64.ofInt (charValue (digit d)) = Int64.ofNat (v * 10 + d) := by
  rw [charValue_digit small, Int64.ofInt_eq_ofNat, Int64.ofNat_add, Int64.ofNat_mul]
  rfl

theorem rawPrice_digits (n : ℕ) : rawPrice (text (n / 1000000000) ++ ('.' : UInt8) :: padded 9 n) = Int64.ofNat n := by
  have inInt (c : UInt8) (isIn : c ∈ text (n / 1000000000)) : decide (c ≠ ('.' : UInt8)) = true := by
    obtain ⟨d, small, rfl⟩ := mem_text isIn
    interval_cases d <;> rfl
  have all : (padded 9 n).take 9 = padded 9 n := List.take_of_length_le (length_padded 9 n).le
  unfold rawPrice
  dsimp only
  rw [List.takeWhile_append_of_pos inInt, List.dropWhile_append_of_pos inInt, List.takeWhile_cons_of_neg (by decide),
    List.dropWhile_cons_of_neg (by decide), List.append_nil, List.tail_cons, all, length_padded]
  have intPart := foldl_text Int64.ofNat (fun v c => v * 10 + Int64.ofInt (charValue c)) keepsUp_int64 (n / 1000000000)
  have fracPart := foldl_padded Int64.ofNat (fun v c => v * 10 + Int64.ofInt (charValue c)) keepsUp_int64 9 n
  have zero : (0 : Int64) = Int64.ofNat 0 := rfl
  have one : Int64.ofNat (10 ^ (9 - 9)) = 1 := rfl
  have billion : (1000000000 : Int64) = Int64.ofNat 1000000000 := rfl
  rw [zero, intPart, fracPart, one, Int64.mul_one, billion, ← Int64.ofNat_mul, ← Int64.ofNat_add]
  congr 1
  omega

theorem priceOf_priceText (price : ℤ) : priceOf (priceText price) = Int64.ofInt price := by
  unfold priceOf priceText
  dsimp only
  split
  · next negative =>
    rw [List.head?_cons, if_pos rfl, List.tail_cons, rawPrice_digits, ← Int64.ofInt_eq_ofNat, Int64.neg_ofInt,
      Int.ofNat_natAbs_of_nonpos (le_of_lt negative), neg_neg]
  · next nonneg =>
    rw [if_neg (head?_text_append_ne _ _), rawPrice_digits, ← Int64.ofInt_eq_ofNat,
      Int.natAbs_of_nonneg (not_lt.mp nonneg)]

/-- The price of a text between quotes. -/
theorem ndpPrice_text (e : MarketDataEvent) {text : List UInt8} {price : ℤ} (nonempty : text ≠ [])
    (unquoted : ∀ c ∈ text, notQuote c = true) (isPrice : priceOf text = Int64.ofInt price)
    (inRange : -2 ^ 63 ≤ price ∧ price < 2 ^ 63) (rest : List UInt8) :
    ndpPrice e (quoted text ++ rest) = .ok ({ e with price := price }, rest) := by
  rw [quoted_append]
  unfold ndpPrice
  rw [peek_bind, List.head?_cons, if_neg (by decide), peek_bind, List.head?_cons, if_pos rfl, advance_one_bind,
    bind_of_ok (takeWhile_quoted unquoted rest), step_bind, if_pos (List.length_pos_iff.mpr nonempty), isPrice,
    Int64.toInt_ofInt_of_le inRange.1 inRange.2]
  rfl

theorem ndpPrice_quoted (e : MarketDataEvent) {price : ℤ} (inRange : -2 ^ 63 ≤ price ∧ price < 2 ^ 63)
    (rest : List UInt8) :
    ndpPrice e (quoted (priceText price) ++ rest) = .ok ({ e with price := price }, rest) := by
  have nonempty : priceText price ≠ [] := by
    unfold priceText
    dsimp only
    split <;> simp
  have unquoted (c : UInt8) (isIn : c ∈ priceText price) := notQuote_scalar c (scalar_priceText price c isIn)
  exact ndpPrice_text e nonempty unquoted (priceOf_priceText price) inRange rest

theorem ndpPrice_null (e : MarketDataEvent) (rest : List UInt8) :
    ndpPrice e (bytes "null" ++ rest) = .ok (e, rest) := by
  have room : (advance 4 : Scanner Unit) (bytes "null" ++ rest) = .ok ((), rest) := by
    unfold advance
    rw [if_pos (by rw [List.length_append]; exact Nat.le_add_right 4 _)]
    rfl
  unfold ndpPrice
  rw [peek_bind, if_pos (show (bytes "null" ++ rest).head? = some ('n' : UInt8) from rfl), bind_of_ok room]
  rfl

end BackTester.JsonNativeDataParser
