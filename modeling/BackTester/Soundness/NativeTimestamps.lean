import BackTester.Proofs.Ingestion.CheckedArithmetic
import BackTester.Proofs.Ingestion.RecordText

/-! # Soundness of the native timestamps

The time of a moment is read without overflow, so that times are in chronological order. A fraction
of other than nine digits is scaled, unless it has eight: then the letter behind it is taken for its
last digit.
-/

namespace BackTester.JsonNativeDataParser

open Calendar CheckedInt Decimal MboRecord Scan

variable {moment later : Moment}

/-- The whole years whose moments have a time of 64 bits. -/
def InYears (moment : Moment) : Prop := 1678 ≤ moment.date.year ∧ moment.date.year ≤ 2261

theorem exists_time (inYears : InYears moment) (rest : List UInt8) :
    ∃ t : Int64, ndpParseIso8601Nanos (momentText moment) rest = .ok (t, rest) ∧ t.toInt = moment.time := by
  have computed := checkedIso8601Nanos_momentText inYears.1 inYears.2
  have bounds := seconds_bounds inYears.1 inYears.2
  have nanos := moment.nanos_lt
  have inRange : -2 ^ 63 ≤ moment.time ∧ moment.time < 2 ^ 63 := by
    unfold Moment.time
    norm_num
    omega
  exact ⟨_, ndpParseIso8601Nanos_of_checked computed rest, Int64.toInt_ofInt_of_le inRange.1 inRange.2⟩

/-- The time of a moment is the number of nanoseconds that the calendar counts, computed without
overflow, and later moments have later times. -/
theorem ndpParseIso8601Nanos_exact (inYears : InYears moment) (laterInYears : InYears later) (rest : List UInt8) :
    checkedIso8601Nanos (momentText moment) = some moment.time ∧
      ∃ t t' : Int64, ndpParseIso8601Nanos (momentText moment) rest = .ok (t, rest) ∧
        ndpParseIso8601Nanos (momentText later) rest = .ok (t', rest) ∧ t.toInt = moment.time ∧
        (moment.Before later → t < t') := by
  obtain ⟨t, run, isTime⟩ := exists_time inYears rest
  obtain ⟨t', run', isLater⟩ := exists_time laterInYears rest
  refine ⟨checkedIso8601Nanos_momentText inYears.1 inYears.2, t, t', run, run', isTime, fun before => ?_⟩
  rw [Int64.lt_iff_toInt_lt, isTime, isLater]
  exact Moment.time_lt_of_before before

/-- The last nanosecond of a February with a leap day. -/
def leapDay : Moment :=
  ⟨⟨2024, 2, 29, by decide, by decide, by decide, by decide⟩, 23, 59, 59, 999999999,
    by decide, by decide, by decide, by decide⟩

/-- The moment after it. -/
def firstOfMarch : Moment :=
  ⟨⟨2024, 3, 1, by decide, by decide, by decide, by decide⟩, 0, 0, 0, 0, by decide, by decide, by decide, by decide⟩

theorem ndpParseIso8601Nanos_exact_leapDay :
    checkedIso8601Nanos (momentText leapDay) = some leapDay.time ∧
      ∃ t t' : Int64, ndpParseIso8601Nanos (momentText leapDay) [] = .ok (t, []) ∧
        ndpParseIso8601Nanos (momentText firstOfMarch) [] = .ok (t', []) ∧ t.toInt = leapDay.time ∧
        (leapDay.Before firstOfMarch → t < t') := by
  have inYears : InYears leapDay := by unfold InYears; decide
  exact ndpParseIso8601Nanos_exact inYears (by unfold InYears; decide) []

variable {front : List UInt8} {digits : List ℕ}

/-- What is behind the seconds: a fraction, if it has digits, and the zone. -/
def zoned (digits : List ℕ) : List UInt8 :=
  (if digits = [] then [] else ('.' : UInt8) :: digits.map digit) ++ [('Z' : UInt8)]

/-- The fraction in nanoseconds. -/
def scaled (digits : List ℕ) : ℕ := value digits * 10 ^ (9 - digits.length)

/-- The fraction is read as its nanoseconds, and where the fast path is chosen the digit loop would
have read the same. -/
def FractionExact (text : List UInt8) (digits : List ℕ) : Prop :=
  (∀ rest, ndpNanos text rest = .ok ((scaled digits : ℤ), rest)) ∧
    (29 ≤ text.length → text[19]? = some ('.' : UInt8) → ∀ rest,
      parseNanosFixed9 text 20 rest = .ok (fractionNanos (((text.drop 20).take 9).takeWhile isDigit), rest))

theorem isDigit_map {ds : List ℕ} (areDigits : ∀ d ∈ ds, d < 10) : ∀ c ∈ ds.map digit, isDigit c = true := by
  intro c isIn
  obtain ⟨d, member, rfl⟩ := List.mem_map.mp isIn
  exact isDigit_digit (areDigits d member)

theorem fractionNanos_digits (areDigits : ∀ d ∈ digits, d < 10) : fractionNanos (digits.map digit) = scaled digits := by
  unfold fractionNanos scaled
  rw [foldl_digits areDigits, List.length_map]
  push_cast
  rfl

section Zoned

variable (length : front.length = 19) (areDigits : ∀ d ∈ digits, d < 10)
include length

theorem zoned_at (i : ℕ) : (front ++ zoned digits)[19 + i]? = (zoned digits)[i]? := by
  rw [List.getElem?_append_right (by omega), length, Nat.add_sub_cancel_left]

theorem length_zoned (nonempty : digits ≠ []) : (front ++ zoned digits).length = 21 + digits.length := by
  rw [List.length_append, length, zoned, if_neg nonempty]
  simp only [List.length_append, List.length_cons, List.length_map, List.length_nil]
  omega

theorem drop_zoned (nonempty : digits ≠ []) :
    (front ++ zoned digits).drop 20 = digits.map digit ++ [('Z' : UInt8)] := by
  rw [show 20 = front.length + 1 by rw [length], List.drop_append, zoned, if_neg nonempty]
  simp

/-- Nine characters behind the point, digits or not, are taken for digits. -/
theorem fast_zoned (nonempty : digits ≠ []) (eight : 8 ≤ digits.length) (rest : List UInt8) :
    parseNanosFixed9 (front ++ zoned digits) 20 rest =
      .ok (((digits.map digit ++ [('Z' : UInt8)]).take 9).foldl (fun nanos c => nanos * 10 + charValue c) 0, rest) := by
  apply parseNanosFixed9_eq
  · simp only [List.length_take, List.length_append, List.length_map, List.length_singleton]
    omega
  · intro i isIn
    rw [← List.getElem?_drop, drop_zoned length nonempty, List.getElem?_take, if_pos isIn]

include areDigits

/-- The digit loop reads the fraction. -/
theorem takeWhile_zoned (nonempty : digits ≠ []) (atMost : digits.length ≤ 9) :
    (((front ++ zoned digits).drop 20).take 9).takeWhile isDigit = digits.map digit := by
  have areDigitChars := isDigit_map areDigits
  rw [drop_zoned length nonempty, List.take_append, List.takeWhile_append_of_pos fun c isIn =>
    areDigitChars c (List.mem_of_mem_take isIn), List.take_of_length_le (by rwa [List.length_map])]
  have zone : ([('Z' : UInt8)].take (9 - (digits.map digit).length)).takeWhile isDigit = [] := by
    cases 9 - (digits.map digit).length <;> rfl
  rw [zone, List.append_nil]

/-- The letter behind eight digits counts for forty-two nanoseconds. -/
theorem fast_of_eight (eight : digits.length = 8) (rest : List UInt8) :
    parseNanosFixed9 (front ++ zoned digits) 20 rest = .ok ((scaled digits : ℤ) + 42, rest) := by
  have nonempty : digits ≠ [] := by
    rintro rfl
    contradiction
  have all : (digits.map digit ++ [('Z' : UInt8)]).take 9 = digits.map digit ++ [('Z' : UInt8)] := by
    apply List.take_of_length_le
    simp [eight]
  rw [fast_zoned length nonempty eight.ge, all, List.foldl_append, foldl_digits areDigits, scaled, eight]
  rfl

theorem fast_of_nine (nine : digits.length = 9) (rest : List UInt8) :
    parseNanosFixed9 (front ++ zoned digits) 20 rest = .ok ((scaled digits : ℤ), rest) := by
  have nonempty : digits ≠ [] := by
    rintro rfl
    contradiction
  have noZone : (digits.map digit ++ [('Z' : UInt8)]).take 9 = digits.map digit := by
    apply List.take_left'
    rw [List.length_map, nine]
  rw [fast_zoned length nonempty (by omega), noZone, foldl_digits areDigits, scaled, nine]
  simp

/-- A fraction is read as what it stands for just where it does not have eight digits. -/
theorem fractionExact_iff (atMost : digits.length ≤ 9) :
    FractionExact (front ++ zoned digits) digits ↔ digits.length ≠ 8 := by
  by_cases isEmpty : digits = []
  · subst isEmpty
    have noPoint : (front ++ zoned [])[19]? ≠ some ('.' : UInt8) := by
      rw [zoned_at length 0]
      decide
    refine ⟨fun _ => by decide, fun _ => ⟨fun rest => ?_, fun _ point => absurd point noPoint⟩⟩
    unfold ndpNanos
    rw [if_neg fun fast => noPoint fast.2, if_neg fun slow => noPoint slow.2]
    rfl
  · have whole := length_zoned length isEmpty
    have point : (front ++ zoned digits)[19]? = some ('.' : UInt8) := by
      rw [zoned_at length 0, zoned, if_neg isEmpty]
      rfl
    have slow : fractionNanos ((((front ++ zoned digits).drop 20).take 9).takeWhile isDigit) = scaled digits := by
      rw [takeWhile_zoned length areDigits isEmpty atMost, fractionNanos_digits areDigits]
    unfold FractionExact
    rw [slow]
    constructor
    · rintro ⟨exact, -⟩ eight
      have fast := exact []
      unfold ndpNanos at fast
      rw [if_pos ⟨by omega, point⟩, fast_of_eight length areDigits eight] at fast
      simp at fast
    · intro notEight
      rcases Nat.lt_or_ge digits.length 8 with short | long
      · refine ⟨fun rest => ?_, fun long => absurd long (by omega)⟩
        unfold ndpNanos
        rw [if_neg (by omega), if_pos ⟨by omega, point⟩, slow]
        rfl
      · have fast := fast_of_nine length areDigits (by omega)
        refine ⟨fun rest => ?_, fun _ _ => fast⟩
        unfold ndpNanos
        rw [if_pos ⟨by omega, point⟩, fast rest]

end Zoned

theorem fractionExact_iff_nine :
    FractionExact (bytes "2026-04-01T00:00:21" ++ zoned [4, 8, 0, 4, 7, 0, 5, 9, 8])
      [4, 8, 0, 4, 7, 0, 5, 9, 8] ↔ 9 ≠ 8 := by
  have length : (bytes "2026-04-01T00:00:21").length = 19 := by decide
  exact fractionExact_iff length (by decide) (by decide)

/-- Eight zeros are read as forty-two nanoseconds. -/
theorem not_fractionExact : ¬∀ (front : List UInt8) (digits : List ℕ), front.length = 19 → (∀ d ∈ digits, d < 10) →
    digits.length ≤ 9 → FractionExact (front ++ zoned digits) digits := by
  intro always
  have exact := (always (bytes "2026-04-01T00:00:21") (List.replicate 8 0) (by decide) (by decide) (by decide)).1 []
  have fast : ndpNanos (bytes "2026-04-01T00:00:21" ++ zoned (List.replicate 8 0)) [] = .ok (42, []) := by rfl
  rw [fast] at exact
  cases exact

end BackTester.JsonNativeDataParser
