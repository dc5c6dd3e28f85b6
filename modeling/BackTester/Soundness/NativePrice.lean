import BackTester.Abstract.PriceNumeral
import BackTester.Proofs.Ingestion.CheckedArithmetic
import BackTester.Proofs.Ingestion.NativeRecord

/-! # Soundness of the native prices

A numeral is read as the price that it stands for, whatever its digits, as long as that price has a place in the type.
-/

namespace BackTester.JsonNativeDataParser

open CheckedInt Decimal MboRecord Scan

/-- The loop over digits overflows nowhere if its result fits. -/
theorem foldlM_checkedAppend {ds : List ℕ} (areDigits : ∀ d ∈ ds, d < 10) (v : ℕ)
    (fits : ds.foldl (fun v d => v * 10 + d) v < 9223372036854775808) :
    (ds.map digit).foldlM checkedAppend (v : ℤ) = some ((ds.foldl (fun v d => v * 10 + d) v : ℕ) : ℤ) := by
  induction ds generalizing v with
  | nil => rfl
  | cons d ds ih =>
    have small := areDigits d List.mem_cons_self
    rw [List.foldl_cons] at fits ⊢
    have grows := le_foldl_digits ds (v * 10 + d)
    have one : checkedAppend v (digit d) = some ((v * 10 + d : ℕ) : ℤ) := by
      unfold checkedAppend
      rw [int64_bind _ (by omega) (by omega), charValue_digit small, int_bind _ (by omega) (by omega),
        int64_eq (by omega) (by omega)]
      congr 1
    rw [List.map_cons, List.foldlM_cons, bind_of_some one]
    exact ih (fun d isIn => areDigits d (List.mem_cons_of_mem _ isIn)) _ fits

theorem checkedPad_run (n v : ℕ) (fits : v * 10 ^ n < 9223372036854775808) :
    checkedPad n v = some ((v * 10 ^ n : ℕ) : ℤ) := by
  induction n generalizing v with
  | zero => rw [pow_zero, Nat.mul_one]; rfl
  | succ n ih =>
    have next : v * 10 ^ (n + 1) = v * 10 * 10 ^ n := by rw [pow_succ', Nat.mul_assoc]
    have positive : 0 < 10 ^ n := Nat.pow_pos (by decide)
    have grows : v * 10 ≤ v * 10 * 10 ^ n := Nat.le_mul_of_pos_right _ positive
    have shifted := ih (v * 10) (by rwa [← next])
    rw [Nat.cast_mul, Nat.cast_ofNat] at shifted
    rw [checkedPad, int64_bind _ (by omega) (by omega), shifted, next]

/-- Padding is the factor that the parser's model has in its place. -/
theorem pad_of_checked {n : ℕ} {v result : ℤ} (run : checkedPad n v = some result) : result = v * 10 ^ n := by
  induction n generalizing v with
  | zero =>
    cases run
    rw [pow_zero, mul_one]
  | succ n ih =>
    rw [checkedPad, checked_bind_eq_some] at run
    rw [ih run.2, pow_succ']
    ring

variable {text : List UInt8} {n : ℤ}

theorem rawPrice_of_checked (run : checkedRawPrice text = some n) : rawPrice text = Int64.ofInt n := by
  simp only [checkedRawPrice, Option.bind_eq_bind, Option.bind_eq_some_iff, checked_eq_some] at run
  obtain ⟨intPart, runInt, fracPart, runFrac, padded, runPad, _, ⟨-, rfl⟩, -, rfl⟩ := run
  let append := fun (v : Int64) (c : UInt8) => v * 10 + Int64.ofInt (charValue c)
  have keepsUp (v : ℤ) (c : UInt8) : append (Int64.ofInt v) c = Int64.ofInt (v * 10 + charValue c) := by
    rw [Int64.ofInt_add, Int64.ofInt_mul]
    rfl
  have isInt := foldl_of_checked Int64.ofInt append keepsUp runInt
  have isFrac := foldl_of_checked Int64.ofInt append keepsUp runFrac
  have zero : (0 : Int64) = Int64.ofInt 0 := rfl
  unfold rawPrice
  dsimp only
  rw [zero, isInt, isFrac, pad_of_checked runPad, Int64.ofInt_add, Int64.ofInt_mul,
    Int64.ofInt_mul, ← Int64.ofInt_eq_ofNat, Nat.cast_pow, Nat.cast_ofNat]
  rfl

/-- A text whose checked price is known has that price. -/
theorem priceOf_of_checked (run : checkedPriceOf text = some n) : priceOf text = Int64.ofInt n := by
  unfold checkedPriceOf at run
  unfold priceOf
  split at run
  · next negative =>
    obtain ⟨raw, runRaw, run⟩ := Option.bind_eq_some_iff.mp run
    obtain ⟨-, rfl⟩ := checked_eq_some.mp run
    rw [if_pos negative, rawPrice_of_checked runRaw, Int64.neg_ofInt]
  · next positive => rw [if_neg positive, rawPrice_of_checked run]

variable (numeral : PriceNumeral)

/-- The digits behind the point that the parser looks at. -/
def firstNine : List ℕ := (numeral.fraction.getD []).take 9

theorem firstNine_lt : ∀ d ∈ firstNine numeral, d < 10 := by
  intro d isIn
  have inFraction := List.mem_of_mem_take isIn
  cases isFraction : numeral.fraction with
  | none => simp [isFraction] at inFraction
  | some ds => exact numeral.fraction_lt ds isFraction d (by simpa [isFraction] using inFraction)

theorem length_firstNine : (firstNine numeral).length ≤ 9 := List.length_take_le _ _

theorem value_nine : value numeral.nine = value (firstNine numeral) * 10 ^ (9 - (firstNine numeral).length) :=
  value_append_zeros _ _

/-- The loop over the whole digits stops at the point, and the one over the fraction starts behind it. -/
theorem digitText_split : numeral.digitText.takeWhile (fun c : UInt8 => c ≠ '.') = numeral.whole.map digit ∧
    (numeral.digitText.dropWhile fun c : UInt8 => c ≠ '.').tail.take 9 = (firstNine numeral).map digit := by
  have inInt (c : UInt8) (isIn : c ∈ numeral.whole.map digit) : decide (c ≠ ('.' : UInt8)) = true := by
    obtain ⟨d, isDigit, rfl⟩ := List.mem_map.mp isIn
    have := numeral.whole_lt d isDigit
    interval_cases d <;> rfl
  unfold PriceNumeral.digitText firstNine
  rw [List.takeWhile_append_of_pos inInt, List.dropWhile_append_of_pos inInt]
  cases numeral.fraction with
  | none => simp
  | some ds =>
    rw [Option.elim_some, List.takeWhile_cons_of_neg (by decide), List.dropWhile_cons_of_neg (by decide),
      List.append_nil, List.tail_cons, Option.getD_some, List.map_take]
    exact ⟨rfl, rfl⟩

theorem checkedRawPrice_digitText (fits : numeral.magnitude < 9223372036854775808) :
    checkedRawPrice numeral.digitText = some (numeral.magnitude : ℤ) := by
  obtain ⟨whole, fraction⟩ := digitText_split numeral
  have fractionLt : value numeral.nine < 10 ^ 9 := by
    have below := value_lt (firstNine_lt numeral)
    have short := length_firstNine numeral
    rw [value_nine]
    calc value (firstNine numeral) * 10 ^ (9 - (firstNine numeral).length)
        < 10 ^ (firstNine numeral).length * 10 ^ (9 - (firstNine numeral).length) :=
          Nat.mul_lt_mul_of_pos_right below (Nat.pow_pos (by decide))
      _ = 10 ^ 9 := by rw [← pow_add, Nat.add_sub_cancel' short]
  have isMagnitude : numeral.magnitude = value numeral.whole * 1000000000 + value numeral.nine := rfl
  have padded := value_nine numeral
  have fractionLe : value (firstNine numeral) ≤ value numeral.nine := by
    rw [padded]
    exact Nat.le_mul_of_pos_right _ (Nat.pow_pos (by decide))
  have intRun : (numeral.whole.map digit).foldlM checkedAppend 0 = some (value numeral.whole : ℤ) :=
    foldlM_checkedAppend numeral.whole_lt 0 (show value numeral.whole < _ by omega)
  have fracRun : ((firstNine numeral).map digit).foldlM checkedAppend 0 = some (value (firstNine numeral) : ℤ) :=
    foldlM_checkedAppend (firstNine_lt numeral) 0 (show value (firstNine numeral) < _ by omega)
  unfold checkedRawPrice
  dsimp only
  rw [whole, fraction, List.length_map, bind_of_some intRun, bind_of_some fracRun,
    bind_of_some (checkedPad_run _ _ (show value (firstNine numeral) * _ < _ by omega))]
  rw [← padded, int64_bind _ (by omega) (by omega), int64_eq (by omega) (by omega), isMagnitude]
  congr 1

theorem head?_digitText_ne : numeral.digitText.head? ≠ some ('-' : UInt8) := by
  obtain ⟨d, ds, isWhole⟩ := List.exists_cons_of_ne_nil numeral.whole_ne_nil
  have small := numeral.whole_lt d (isWhole ▸ List.mem_cons_self)
  rw [PriceNumeral.digitText, isWhole, List.map_cons, List.cons_append, List.head?_cons]
  interval_cases d <;> decide

/-- The price of a numeral is computed without overflow. -/
theorem checkedPriceOf_text (fits : numeral.magnitude < 9223372036854775808) :
    checkedPriceOf numeral.text = some numeral.price := by
  have raw := checkedRawPrice_digitText numeral fits
  unfold checkedPriceOf PriceNumeral.text PriceNumeral.price
  cases numeral.negative with
  | true =>
    rw [if_pos rfl, if_pos rfl, if_pos (List.head?_cons ..), List.tail_cons, bind_of_some raw]
    exact int64_eq (by omega) (by omega)
  | false =>
    simp only [Bool.false_eq_true, if_false]
    rw [if_neg (head?_digitText_ne numeral), raw]

theorem notQuote_text : ∀ c ∈ numeral.text, notQuote c = true := by
  have digits {ds : List ℕ} (areDigits : ∀ d ∈ ds, d < 10) : ∀ c ∈ ds.map digit, notQuote c = true := by
    intro c isIn
    obtain ⟨d, isDigit, rfl⟩ := List.mem_map.mp isIn
    have := areDigits d isDigit
    interval_cases d <;> rfl
  have unsigned : ∀ c ∈ numeral.digitText, notQuote c = true := by
    intro c isIn
    rcases List.mem_append.mp isIn with inWhole | inFraction
    · exact digits numeral.whole_lt c inWhole
    · cases isFraction : numeral.fraction with
      | none => simp [isFraction] at inFraction
      | some ds =>
        rw [isFraction, Option.elim_some, List.mem_cons] at inFraction
        rcases inFraction with rfl | inDigits
        · rfl
        · exact digits (numeral.fraction_lt ds isFraction) c inDigits
  unfold PriceNumeral.text
  split
  · exact List.forall_mem_cons.mpr ⟨rfl, unsigned⟩
  · exact unsigned

theorem text_ne_nil' : numeral.text ≠ [] := by
  unfold PriceNumeral.text PriceNumeral.digitText
  split <;> simp [numeral.whole_ne_nil]

/-- The field of a price: no operation overflows, the whole field is taken and nothing behind it. -/
theorem ndpField_price (fits : numeral.magnitude ≤ 2 ^ 63 - 1) {separators : List UInt8}
    (separate : ∀ c ∈ separators, isSeparator c = true) (commaSpaces colonSpaces : ℕ)
    (e : MarketDataEvent) (rest : List UInt8) :
    checkedPriceOf numeral.text = some numeral.price ∧
      ndpField e (separators ++
        ((Member.text ⟨Field.key .price, quoted numeral.text, commaSpaces, colonSpaces⟩) ++ rest)) =
        .ok (.inl { e with price := numeral.price }, rest) := by
  norm_num at fits
  have computed := checkedPriceOf_text numeral (by omega)
  have isKey : ∀ c ∈ Field.key .price, notQuote c = true := by decide
  refine ⟨computed, ndpField_member ⟨isKey, _, _, rfl, rfl⟩ separate ?_⟩
  have inRange : -2 ^ 63 ≤ numeral.price ∧ numeral.price < 2 ^ 63 := by
    unfold PriceNumeral.price
    norm_num
    split <;> omega
  exact ndpPrice_text e (text_ne_nil' numeral) (notQuote_text numeral) (priceOf_of_checked computed) inRange rest

/-- `-0.25`. -/
def minusQuarter : PriceNumeral where
  negative := true
  whole := [0]
  fraction := some [2, 5]
  whole_ne_nil := by decide
  whole_lt := by decide
  fraction_lt := by decide

theorem ndpField_price_minusQuarter :
    checkedPriceOf (bytes "-0.25") = some (-250000000) ∧
      ndpField {} ([] ++ ((Member.text ⟨Field.key .price, quoted (bytes "-0.25"), 0, 0⟩) ++ bytes ",")) =
        .ok (.inl { price := -250000000 }, bytes ",") := by
  have fits : minusQuarter.magnitude ≤ 2 ^ 63 - 1 := by decide
  exact ndpField_price minusQuarter fits (by decide) 0 0 {} (bytes ",")

end BackTester.JsonNativeDataParser
