import BackTester.Proofs.Ingestion.SimpleSearch
import BackTester.Proofs.Ingestion.Timestamp
import Mathlib.Data.List.TakeWhile

/-! # Values read by the standard library

What each function of the simple parser makes of a value of the schema: the text that it takes from
the line, and the number or the time that the standard library makes of the text.
-/

namespace BackTester.JsonSimpleDataParser

open Calendar Decimal MboRecord

variable {line key value rest : List UInt8}

theorem getString_of_quoted (unquoted : ('"' : UInt8) ∉ value) (found : findValue line key = quoted value ++ rest) :
    getString line key = some value := by
  have shape : quoted value ++ rest = ('"' : UInt8) :: (value ++ ('"' : UInt8) :: rest) := by simp [quoted]
  have all : ∀ c ∈ value, decide (c ≠ ('"' : UInt8)) = true := by
    intro c isIn
    apply decide_eq_true
    rintro rfl
    exact unquoted isIn
  unfold getString
  rw [found, shape]
  dsimp only
  rw [if_neg (by decide), if_pos (List.mem_append_right value List.mem_cons_self), List.takeWhile_append_of_pos all,
    List.takeWhile_cons_of_neg (by decide), List.append_nil]

theorem getNumericRaw_of_integer {n : ℤ} (ends : Ends rest) (found : findValue line key = integer n ++ rest) :
    getNumericRaw line key = some (integer n) := by
  have numeric : ∀ c ∈ integer n, isNumeric c = true := by
    have digits : ∀ c ∈ text n.natAbs, isNumeric c = true := by
      intro c isIn
      unfold isNumeric
      rw [isDigit_text isIn]
      simp
    unfold integer
    split
    · exact List.forall_mem_cons.mpr ⟨rfl, digits⟩
    · exact digits
  have stops : rest.takeWhile isNumeric = [] := by
    cases rest with
    | nil => rfl
    | cons c rest =>
      have notNumeric : isNumeric c = false := ends.test rfl rfl c rfl
      exact List.takeWhile_cons_of_neg (by rw [notNumeric]; exact Bool.false_ne_true)
  have whole : (integer n ++ rest).takeWhile isNumeric = integer n := by
    rw [List.takeWhile_append_of_pos numeric, stops, List.append_nil]
  unfold getNumericRaw
  rw [found]
  cases begins : integer n ++ rest with
  | nil =>
    have := (List.append_eq_nil_iff.mp begins).1
    unfold integer at this
    split at this
    · contradiction
    · exact absurd this (text_ne_nil _)
  | cons c others =>
    have first : isNumeric c = true := by
      cases isInteger : integer n with
      | nil =>
        rw [isInteger, List.nil_append] at begins
        unfold integer at isInteger
        split at isInteger
        · contradiction
        · exact absurd isInteger (text_ne_nil _)
      | cons d digits =>
        rw [isInteger] at begins numeric
        obtain ⟨rfl, -⟩ := List.cons.inj begins
        exact numeric _ List.mem_cons_self
    dsimp only
    rw [if_pos first, ← begins, whole]

theorem integer_natCast (n : ℕ) : integer n = text n := by
  unfold integer
  rw [if_neg (by omega), Int.natAbs_natCast]

theorem getNumericRaw_of_text {n : ℕ} (ends : Ends rest) (found : findValue line key = text n ++ rest) :
    getNumericRaw line key = some (text n) := by
  rw [← integer_natCast] at found ⊢
  exact getNumericRaw_of_integer ends found

/-- The braces of an object are its first and its last character. -/
theorem objectLength_between {between : List UInt8} (unbraced : ∀ c ∈ between, c ≠ '{' ∧ c ≠ '}') (i : ℕ) :
    objectLength 1 i (between ++ ('}' : UInt8) :: rest) = i + between.length + 1 := by
  induction between generalizing i with
  | nil =>
    rw [List.nil_append, objectLength, if_neg (by decide), if_pos rfl, if_pos rfl]
    rfl
  | cons c between ih =>
    obtain ⟨notOpening, notClosing⟩ := unbraced c List.mem_cons_self
    rw [List.cons_append, objectLength, if_neg notOpening, if_neg notClosing,
      ih (fun c isIn => unbraced c (List.mem_cons_of_mem _ isIn)), List.length_cons]
    omega

theorem getObject_of_braces {between : List UInt8} (unbraced : ∀ c ∈ between, c ≠ '{' ∧ c ≠ '}')
    (found : findValue line key = ('{' : UInt8) :: (between ++ [('}' : UInt8)]) ++ rest) :
    getObject line key = ('{' : UInt8) :: (between ++ [('}' : UInt8)]) := by
  have shape : ('{' : UInt8) :: (between ++ [('}' : UInt8)]) ++
      rest = ('{' : UInt8) :: (between ++ ('}' : UInt8) :: rest) := by
    simp
  unfold getObject
  rw [found, shape]
  dsimp only
  rw [if_neg (by decide), objectLength, if_pos rfl, objectLength_between unbraced, ← shape]
  apply List.take_left'
  rw [List.length_cons, List.length_append, List.length_singleton]
  omega

theorem toNat_digit_sub {d : ℕ} (small : d < 10) : (digit d).toNat - 48 = d := by
  rw [toNat_digit small]
  omega

theorem magnitude_text (n : ℕ) : magnitude (text n) = some (false, n) := by
  obtain ⟨d, others, small, isText⟩ := exists_text_eq_cons n
  have notSpace : isSpace (digit d) = false := by interval_cases d <;> rfl
  have noSign : digit d ≠ '-' ∧ digit d ≠ '+' := by interval_cases d <;> decide
  have all : (text n).takeWhile isDigit = text n := List.takeWhile_eq_self_iff.mpr fun _ => isDigit_text
  have folded :=
    foldl_text id (fun n c => n * 10 + (c.toNat - 48)) (fun v d small => by rw [toNat_digit_sub small]; rfl) n
  unfold magnitude
  have kept : (text n).dropWhile isSpace = text n := by
    rw [isText, List.dropWhile_cons_of_neg (by rw [notSpace]; exact Bool.false_ne_true)]
  have head : (text n).head? = some (digit d) := by rw [isText]; rfl
  simp only [kept, head, Option.some.injEq, noSign, or_self, if_false, all, text_ne_nil]
  simp only [decide_false, Prod.mk.injEq, true_and]
  exact folded

theorem stoul_text {n : ℕ} (name : List UInt8) (small : n < 2 ^ 64) : stoul name (text n) = .ok (.ofNat n) := by
  unfold stoul
  rw [magnitude_text]
  dsimp only
  rw [if_neg (Nat.not_le_of_lt small)]
  rfl

theorem magnitude_negative (n : ℕ) : magnitude (('-' : UInt8) :: text n) = some (true, n) := by
  have all : (text n).takeWhile isDigit = text n := List.takeWhile_eq_self_iff.mpr fun _ => isDigit_text
  have folded :=
    foldl_text id (fun n c => n * 10 + (c.toNat - 48)) (fun v d small => by rw [toNat_digit_sub small]; rfl) n
  have kept : (('-' : UInt8) :: text n).dropWhile isSpace = ('-' : UInt8) :: text n :=
    List.dropWhile_cons_of_neg (by decide)
  unfold magnitude
  simp only [kept, List.head?_cons, true_or, if_true, List.tail_cons, all, text_ne_nil, if_false, decide_true,
    Option.some.injEq, Prod.mk.injEq, true_and]
  exact folded

theorem stol_integer {n : ℤ} (inRange : -2 ^ 63 ≤ n ∧ n < 2 ^ 63) : stol (integer n) = .ok (.ofInt n) := by
  unfold stol integer
  rcases lt_or_ge n 0 with negative | nonneg
  · have value : -(n.natAbs : ℤ) = n := by omega
    rw [if_pos negative, magnitude_negative]
    dsimp only
    rw [if_pos rfl, value, if_pos inRange]
  · have value : (n.natAbs : ℤ) = n := by omega
    rw [if_neg (by omega), magnitude_text]
    dsimp only
    rw [if_neg Bool.false_ne_true, value, if_pos inRange]

theorem foldl_le (ds : List ℕ) (n : ℕ) : n * 10 ^ ds.length ≤ ds.foldl (fun n d => n * 10 + d) n := by
  induction ds generalizing n with
  | nil => simp
  | cons d ds ih =>
    calc
      n * 10 ^ (d :: ds).length = n * 10 * 10 ^ ds.length := by rw [List.length_cons, pow_succ']; ring
      _ ≤ (n * 10 + d) * 10 ^ ds.length := Nat.mul_le_mul_right _ (Nat.le_add_right _ d)
      _ ≤ _ := ih (n * 10 + d)

/-- No digit of a number in range is left out. -/
theorem moreDigits_run {high : ℕ} {ds : List ℕ} (small : ∀ d ∈ ds, d < 10) (n : ℕ)
    (inRange : ds.foldl (fun n d => n * 10 + d) n ≤ high) :
    moreDigits high ds.length n (ds.map digit ++ rest) = (ds.foldl (fun n d => n * 10 + d) n, rest) := by
  induction ds generalizing n with
  | nil =>
    cases rest with
    | nil => rfl
    | cons => rfl
  | cons d ds ih =>
    have smallDigit := small d List.mem_cons_self
    have goesOn : n * 10 ≤ high := by
      have below := foldl_le ds (n * 10 + d)
      have := Nat.le_mul_of_pos_right (n * 10 + d) (Nat.pow_pos (by decide : 0 < 10) : 0 < 10 ^ ds.length)
      rw [List.foldl_cons] at inRange
      omega
    rw [List.map_cons, List.cons_append, List.length_cons, moreDigits, if_pos ⟨goesOn, isDigit_digit smallDigit⟩,
      toNat_digit_sub smallDigit]
    exact ih (fun d isIn => small d (List.mem_cons_of_mem _ isIn)) _ inRange

theorem getNumber_padded {low high width n : ℕ} (within : low ≤ n ∧ n ≤ high) (fits : n < 10 ^ (width + 1)) :
    getNumber low high (width + 1) (padded (width + 1) n ++ rest) = some (n, rest) := by
  have isValue : value (fixed (width + 1) n) = n := (value_fixed _ n).trans (Nat.mod_eq_of_lt fits)
  have length := length_fixed (width + 1) n
  have small : ∀ d ∈ fixed (width + 1) n, d < 10 := fun _ => fixed_lt
  unfold padded
  cases digits : fixed (width + 1) n with
  | nil =>
    rw [digits] at length
    contradiction
  | cons d ds =>
    rw [digits] at isValue length small
    have smallDigit := small d List.mem_cons_self
    have notSpace : decide (digit d = ' ') = false := by interval_cases d <;> rfl
    have folded : ds.foldl (fun n d => n * 10 + d) d = n := by
      rw [← isValue, Decimal.value, List.foldl_cons, Nat.zero_mul, Nat.zero_add]
    have more :=
      @moreDigits_run rest high ds (fun d isIn => small d (List.mem_cons_of_mem _ isIn))
        d (by rw [folded]; exact within.2)
    have isWidth : ds.length = width := by simpa using length
    unfold getNumber
    rw [List.map_cons, List.cons_append, List.dropWhile_cons_of_neg (by rw [notSpace]; exact Bool.false_ne_true)]
    dsimp only
    rw [if_pos (isDigit_digit smallDigit), Nat.add_sub_cancel, toNat_digit_sub smallDigit, ← isWidth, more, folded]
    dsimp only
    rw [if_pos within]

theorem literal_run (c : UInt8) (rest : List UInt8) : literal c (c :: rest) = some rest := if_pos rfl

def tmOf (moment : Moment) : Tm :=
  ⟨moment.date.year, moment.date.month, moment.date.day, moment.hour, moment.minute, moment.second⟩

theorem strptime_secondText {moment : Moment} (early : moment.date.year < 10000) (rest : List UInt8) :
    strptime (secondText moment ++ rest) = some (tmOf moment, rest) := by
  have day : moment.date.day ≤ 31 := by
    have := moment.date.day_le
    unfold monthLength at this
    split_ifs at this <;> omega
  have hour := moment.hour_lt
  have minute := moment.minute_lt
  have second := moment.second_lt
  have december := moment.date.month_le
  have run {low high width n : ℕ} (rest : List UInt8) (within : low ≤ n ∧ n ≤ high) (fits : n < 10 ^ (width + 1)) :=
    @getNumber_padded rest low high width n within fits
  simp only [secondText, List.append_assoc, List.cons_append]
  unfold strptime
  rw [run _ ⟨Nat.zero_le _, by omega⟩ (by omega)]
  simp only [Option.bind_eq_bind, Option.bind_some, literal_run]
  rw [run _ ⟨moment.date.month_pos, december⟩ (by omega)]
  simp only [Option.bind_some, literal_run]
  rw [run _ ⟨moment.date.day_pos, day⟩ (by omega)]
  simp only [Option.bind_some, literal_run]
  rw [run _ ⟨Nat.zero_le _, by omega⟩ (by omega)]
  simp only [Option.bind_some, literal_run]
  rw [run _ ⟨Nat.zero_le _, by omega⟩ (by omega)]
  simp only [Option.bind_some, literal_run]
  rw [run _ ⟨Nat.zero_le _, by omega⟩ (by omega)]
  rfl

theorem timegm_tmOf (moment : Moment) : timegm (tmOf moment) = moment.seconds := rfl

theorem nanosOf_fraction {n : ℕ} (small : n < 1000000000) :
    nanosOf (('.' : UInt8) :: padded 9 n ++ [('Z' : UInt8)]) = n := by
  have length := length_padded 9 n
  have nine : (padded 9 n ++ [('Z' : UInt8)]).take 9 = padded 9 n := List.take_left' length
  have digits : ∀ c ∈ padded 9 n, isDigit c = true := by
    intro c isIn
    obtain ⟨d, isDigit, rfl⟩ := mem_padded isIn
    exact isDigit_digit isDigit
  have folded := foldl_padded (Nat.cast : ℕ → ℤ) (fun nanos c => nanos * 10 + charValue c)
    (fun v d small => by rw [JsonNativeDataParser.charValue_digit small]; push_cast; ring) 9 n
  rw [List.cons_append, nanosOf, if_pos rfl, nine, List.takeWhile_eq_self_iff.mpr digits]
  simp only [length, Nat.sub_self, pow_zero, mul_one]
  rw [Nat.mod_eq_of_lt (by omega)] at folded
  exact_mod_cast folded

/-- A timestamp of the schema is read as its time. -/
theorem parseIso8601Nanos_timestamp {time : ℤ} (inRange : -2 ^ 63 ≤ time ∧ time < 2 ^ 63) :
    parseIso8601Nanos (timestamp time) = .ok (Int64.ofInt time) := by
  have years := JsonNativeDataParser.year_of_int64 inRange
  have isTime := JsonNativeDataParser.time_of_int64 inRange
  have noNull : (timestamp time).takeWhile (· ≠ 0) = timestamp time := by
    apply List.takeWhile_eq_self_iff.mpr
    intro c isIn
    have scalars : ∀ c ∈ scalarChars, decide (c ≠ 0) = true := by decide
    exact scalars c (scalar_timestamp time c isIn)
  have shape : timestamp time = secondText (.ofTime time) ++
      (('.' : UInt8) :: padded 9 (Moment.ofTime time).nanos ++ [('Z' : UInt8)]) := by
    simp [timestamp, momentText]
  have read : strptime (timestamp time) =
      some (tmOf (.ofTime time), ('.' : UInt8) :: padded 9 (Moment.ofTime time).nanos ++ [('Z' : UInt8)]) := by
    rw [shape]
    exact strptime_secondText (by omega) _
  unfold parseIso8601Nanos
  rw [noNull, read]
  dsimp only
  have billion : (1000000000 : Int64) = Int64.ofInt 1000000000 := rfl
  rw [timegm_tmOf, nanosOf_fraction (Moment.nanos_lt _), billion, ← Int64.ofInt_mul, ← Int64.ofInt_add]
  exact congrArg (fun time => Except.ok (Int64.ofInt time)) isTime

end BackTester.JsonSimpleDataParser
