import BackTester.Model.Ingestion.CheckedArithmetic
import BackTester.Proofs.Ingestion.Timestamp

/-! # Where the arithmetic of the native parser overflows nowhere

A checked computation that comes to a result is the computation of the parser, which wraps.
-/

namespace BackTester.JsonNativeDataParser

open Calendar CheckedInt Decimal MboRecord Scan

variable {s text : List UInt8} {p : ℕ} {d n result : ℤ} {rest : List UInt8}

theorem digitAt_of_checked (run : checkedDigitAt s p = some d) (rest : List UInt8) :
    digitAt s p rest = .ok (d, rest) := by
  simp only [checkedDigitAt, Option.bind_eq_bind, Option.bind_eq_some_iff, checked_eq_some] at run
  obtain ⟨c, isAt, -, rfl⟩ := run
  unfold digitAt
  rw [readAt_bind isAt]
  rfl

theorem twoAt_of_checked (run : checkedTwoAt s p = some n) (rest : List UInt8) : twoAt s p rest = .ok (n, rest) := by
  simp only [checkedTwoAt, Option.bind_eq_bind, Option.bind_eq_some_iff, checked_eq_some] at run
  obtain ⟨d0, run0, _, ⟨-, rfl⟩, d1, run1, -, rfl⟩ := run
  unfold twoAt
  rw [bind_of_ok (digitAt_of_checked run0 rest), bind_of_ok (digitAt_of_checked run1 rest)]
  rfl

theorem fourAt_of_checked (run : checkedFourAt s p = some n) (rest : List UInt8) : fourAt s p rest = .ok (n, rest) := by
  simp only [checkedFourAt, Option.bind_eq_bind, Option.bind_eq_some_iff, checked_eq_some] at run
  obtain ⟨d0, run0, _, ⟨-, rfl⟩, d1, run1, _, ⟨-, rfl⟩, _, ⟨-, rfl⟩, d2, run2, _, ⟨-, rfl⟩,
      _, ⟨-, rfl⟩, d3, run3, -, rfl⟩ := run
  unfold fourAt
  rw [bind_of_ok (digitAt_of_checked run0 rest), bind_of_ok (digitAt_of_checked run1 rest),
    bind_of_ok (digitAt_of_checked run2 rest), bind_of_ok (digitAt_of_checked run3 rest)]
  rfl

theorem addDigit_of_checked {sum scale : ℤ} (run : checkedAddDigit s p sum scale = some n) :
    ∃ d, checkedDigitAt s p = some d ∧ n = sum + d * scale := by
  simp only [checkedAddDigit, Option.bind_eq_bind, Option.bind_eq_some_iff, checked_eq_some] at run
  obtain ⟨d, run, _, ⟨-, rfl⟩, -, rfl⟩ := run
  exact ⟨d, run, rfl⟩

theorem parseNanosFixed9_of_checked (run : checkedNanosFixed9 s p = some n) (rest : List UInt8) :
    parseNanosFixed9 s p rest = .ok (n, rest) := by
  simp only [checkedNanosFixed9, Option.bind_eq_bind, Option.bind_eq_some_iff] at run
  obtain ⟨_, add0, _, add1, _, add2, _, add3, _, add4, _, add5, _, add6, _, add7, add8⟩ := run
  obtain ⟨d0, run0, rfl⟩ := addDigit_of_checked add0
  obtain ⟨d1, run1, rfl⟩ := addDigit_of_checked add1
  obtain ⟨d2, run2, rfl⟩ := addDigit_of_checked add2
  obtain ⟨d3, run3, rfl⟩ := addDigit_of_checked add3
  obtain ⟨d4, run4, rfl⟩ := addDigit_of_checked add4
  obtain ⟨d5, run5, rfl⟩ := addDigit_of_checked add5
  obtain ⟨d6, run6, rfl⟩ := addDigit_of_checked add6
  obtain ⟨d7, run7, rfl⟩ := addDigit_of_checked add7
  obtain ⟨d8, run8, rfl⟩ := addDigit_of_checked add8
  unfold parseNanosFixed9
  rw [bind_of_ok (digitAt_of_checked run0 rest), bind_of_ok (digitAt_of_checked run1 rest),
    bind_of_ok (digitAt_of_checked run2 rest), bind_of_ok (digitAt_of_checked run3 rest),
    bind_of_ok (digitAt_of_checked run4 rest), bind_of_ok (digitAt_of_checked run5 rest),
    bind_of_ok (digitAt_of_checked run6 rest), bind_of_ok (digitAt_of_checked run7 rest),
    bind_of_ok (digitAt_of_checked run8 rest), pure_apply, zero_add, mul_one]

theorem checkedAppend_eq_some {v : ℤ} {c : UInt8} (run : checkedAppend v c = some n) : n = v * 10 + charValue c := by
  simp only [checkedAppend, ↓checked_bind_eq_some, checked_eq_some] at run
  obtain ⟨-, -, -, rfl⟩ := run
  rfl

/-- Any type that keeps up with the integers computes the result of a checked loop over digits. -/
theorem foldl_of_checked {R : Type} (cast : ℤ → R) (append : R → UInt8 → R)
    (keepsUp : ∀ v c, append (cast v) c = cast (v * 10 + charValue c)) {v : ℤ}
    (run : text.foldlM checkedAppend v = some n) :
    text.foldl append (cast v) = cast n := by
  induction text generalizing v with
  | nil =>
    cases run
    rfl
  | cons c text ih =>
    rw [List.foldlM_cons, Option.bind_eq_bind, Option.bind_eq_some_iff] at run
    obtain ⟨next, runOne, runRest⟩ := run
    rw [List.foldl_cons, keepsUp, ← checkedAppend_eq_some runOne]
    exact ih runRest

theorem fractionNanos_of_checked (run : checkedFractionNanos text = some n) : fractionNanos text = n := by
  simp only [checkedFractionNanos, Option.bind_eq_bind, Option.bind_eq_some_iff, checked_eq_some] at run
  obtain ⟨nanos, folded, -, rfl⟩ := run
  unfold fractionNanos
  rw [foldl_of_checked (fun v => v) (fun nanos c => nanos * 10 + charValue c) (fun _ _ => rfl) folded]

theorem era_of_checked {z : ℤ} (run : checkedEra z = some n) : (if z ≥ 0 then z else z - 399).tdiv 400 = n := by
  unfold checkedEra at run
  split at run
  · next since =>
    rw [if_pos since]
    exact (checked_eq_some.mp run).2
  · next before =>
    simp only [↓checked_bind_eq_some, checked_eq_some] at run
    obtain ⟨-, -, rfl⟩ := run
    rw [if_neg before]

theorem daysOf_of_checked {y mo dy : ℤ} (run : checkedDaysOf y mo dy = some n) : daysOf y mo dy = n := by
  unfold checkedDaysOf at run
  obtain ⟨-, run⟩ := checked_bind_eq_some.mp run
  obtain ⟨era, isEra, run⟩ := Option.bind_eq_some_iff.mp run
  simp only [↓checked_bind_eq_some, checked_eq_some] at run
  obtain ⟨-, -, -, -, -, -, -, -, -, -, -, -, -, -, rfl⟩ := run
  unfold daysOf
  dsimp only
  rw [era_of_checked isEra]

theorem seconds_of_checked {days hour minute second : ℤ} (run : checkedSeconds days hour minute second = some n) :
    n = days * 86400 + hour * 3600 + minute * 60 + second := by
  simp only [checkedSeconds, ↓checked_bind_eq_some, checked_eq_some] at run
  obtain ⟨-, -, -, -, -, -, rfl⟩ := run
  rfl

theorem ndpNanos_of_checked (run : checkedNanos s = some n) (rest : List UInt8) : ndpNanos s rest = .ok (n, rest) := by
  unfold checkedNanos at run
  unfold ndpNanos
  split at run
  · next long =>
    rw [if_pos long]
    exact parseNanosFixed9_of_checked run rest
  · next short =>
    rw [if_neg short]
    split at run
    · next fraction =>
      rw [if_pos fraction, fractionNanos_of_checked run]
      rfl
    · next noFraction =>
      cases run
      rw [if_neg noFraction]
      rfl

/-- A timestamp whose checked time is known has that time. -/
theorem ndpParseIso8601Nanos_of_checked (run : checkedIso8601Nanos s = some n) (rest : List UInt8) :
    ndpParseIso8601Nanos s rest = .ok (Int64.ofInt n, rest) := by
  unfold checkedIso8601Nanos at run
  split at run
  · contradiction
  · next long =>
    obtain ⟨y, runY, run⟩ := Option.bind_eq_some_iff.mp run
    obtain ⟨mo, runMo, run⟩ := Option.bind_eq_some_iff.mp run
    obtain ⟨dy, runDy, run⟩ := Option.bind_eq_some_iff.mp run
    obtain ⟨hour, runHour, run⟩ := Option.bind_eq_some_iff.mp run
    obtain ⟨minute, runMinute, run⟩ := Option.bind_eq_some_iff.mp run
    obtain ⟨second, runSecond, run⟩ := Option.bind_eq_some_iff.mp run
    obtain ⟨days, runDays, run⟩ := Option.bind_eq_some_iff.mp run
    obtain ⟨sec, runSec, run⟩ := Option.bind_eq_some_iff.mp run
    obtain ⟨nanos, runNanos, run⟩ := Option.bind_eq_some_iff.mp run
    simp only [↓checked_bind_eq_some, checked_eq_some] at run
    obtain ⟨-, -, rfl⟩ := run
    unfold ndpParseIso8601Nanos
    rw [if_neg long, bind_of_ok (fourAt_of_checked runY rest), bind_of_ok (twoAt_of_checked runMo rest),
      bind_of_ok (twoAt_of_checked runDy rest), bind_of_ok (twoAt_of_checked runHour rest),
      bind_of_ok (twoAt_of_checked runMinute rest), bind_of_ok (twoAt_of_checked runSecond rest)]
    rw [bind_of_ok (ndpNanos_of_checked runNanos rest), pure_apply, daysOf_of_checked runDays,
      ← seconds_of_checked runSec, Int64.ofInt_add, Int64.ofInt_mul]
    rfl

theorem checkedDigitAt_run {d : ℕ} (small : d < 10) (isAt : s[p]? = some (digit d)) :
    checkedDigitAt s p = some (d : ℤ) := by
  unfold checkedDigitAt
  rw [bind_of_some isAt, charValue_digit small, int_eq (by omega) (by omega)]

theorem checkedTwoAt_run {n : ℕ} (small : n < 100) (first : s[p]? = some (digit (n / 10 % 10)))
    (second : s[p + 1]? = some (digit (n % 10))) : checkedTwoAt s p = some (n : ℤ) := by
  unfold checkedTwoAt
  rw [bind_of_some (checkedDigitAt_run (by omega) first), int_bind _ (by omega) (by omega),
    bind_of_some (checkedDigitAt_run (by omega) second), int_eq (by omega) (by omega)]
  congr 1
  omega

theorem checkedFourAt_run {n : ℕ} (small : n < 10000) (first : s[p]? = some (digit (n / 10 / 10 / 10 % 10)))
    (second : s[p + 1]? = some (digit (n / 10 / 10 % 10))) (third : s[p + 2]? = some (digit (n / 10 % 10)))
    (fourth : s[p + 3]? = some (digit (n % 10))) : checkedFourAt s p = some (n : ℤ) := by
  unfold checkedFourAt
  rw [bind_of_some (checkedDigitAt_run (by omega) first), int_bind _ (by omega) (by omega),
    bind_of_some (checkedDigitAt_run (by omega) second), int_bind _ (by omega) (by omega),
    int_bind _ (by omega) (by omega),
    bind_of_some (checkedDigitAt_run (by omega) third), int_bind _ (by omega) (by omega),
    int_bind _ (by omega) (by omega),
    bind_of_some (checkedDigitAt_run (by omega) fourth), int_eq (by omega) (by omega)]
  congr 1
  omega

theorem checkedAddDigit_run {d : ℕ} {sum scale : ℤ} (small : d < 10) (isAt : s[p]? = some (digit d))
    (sumRange : 0 ≤ sum ∧ sum < 1000000000) (scaleRange : 0 ≤ scale ∧ scale ≤ 100000000) :
    checkedAddDigit s p sum scale = some (sum + d * scale) := by
  have term : 0 ≤ (d : ℤ) * scale ∧ (d : ℤ) * scale ≤ 900000000 := by
    constructor
    · nlinarith
    · nlinarith
  unfold checkedAddDigit
  rw [bind_of_some (checkedDigitAt_run small isAt), int64_bind _ (by omega) (by omega), int64_eq (by omega) (by omega)]

/-- No year of four digits, month or day takes the day count out of range. -/
theorem checkedDaysOf_run {y mo dy : ℤ} (year : 1 ≤ y ∧ y < 10000) (month : 1 ≤ mo ∧ mo ≤ 12) (day : 1 ≤ dy ∧ dy ≤ 31) :
    checkedDaysOf y mo dy = some (daysOf y mo dy) := by
  obtain ⟨result, run⟩ : ∃ result, checkedDaysOf y mo dy = some result := by
    obtain ⟨early, isEarly, earlyRange⟩ : ∃ early : ℤ, (if mo ≤ 2 then 1 else 0) = early ∧ 0 ≤ early ∧ early ≤ 1 :=
      ⟨_, rfl, by split <;> omega⟩
    obtain ⟨shift, isShift, shiftRange⟩ :
        ∃ shift : ℤ, (if mo ≤ 2 then 9 else -3) = shift ∧ 0 ≤ mo + shift ∧ mo + shift ≤ 11 :=
      ⟨_, rfl, by split <;> omega⟩
    have since : y - early ≥ 0 := by omega
    unfold checkedDaysOf
    rw [isEarly, isShift, int_bind _ (by omega) (by omega), checkedEra, if_pos since, Int.tdiv_eq_ediv_of_nonneg since,
      int_bind _ (by omega) (by omega), int_bind _ (by omega) (by omega)]
    obtain ⟨yoe, isYoe, yoeRange⟩ : ∃ yoe, y - early - (y - early) / 400 * 400 = yoe ∧ 0 ≤ yoe ∧ yoe ≤ 399 :=
      ⟨_, rfl, by omega⟩
    rw [isYoe, int_bind _ (by omega) (by omega), int_bind _ (by omega) (by omega), int_bind _ (by omega) (by omega),
      int_bind _ (by omega) (by omega), Int.tdiv_eq_ediv_of_nonneg (by omega), int_bind _ (by omega) (by omega),
      int_bind _ (by omega) (by omega), int_bind _ (by omega) (by omega), Int.tdiv_eq_ediv_of_nonneg (by omega),
      int_bind _ (by omega) (by omega), Int.tdiv_eq_ediv_of_nonneg (by omega), int_bind _ (by omega) (by omega),
      int_bind _ (by omega) (by omega), int64_bind _ (by omega) (by omega), int64_bind _ (by omega) (by omega),
      int64_eq (by omega) (by omega)]
    exact ⟨_, rfl⟩
  rw [run, daysOf_of_checked run]

theorem checkedNanosFixed9_run {n : ℕ} (small : n < 1000000000) (areAt : ∀ i < 9, s[p + i]? = (padded 9 n)[i]?) :
    checkedNanosFixed9 s p = some (n : ℤ) := by
  have isDigitAt (i : ℕ) (isIn : i < 9) : ∃ d < 10, s[p + i]? = some (digit d) := by
    have inside : i < (padded 9 n).length := by rwa [length_padded]
    obtain ⟨d, isDigit, isAt⟩ := mem_padded (List.getElem_mem inside)
    exact ⟨d, isDigit, by rw [areAt i isIn, isAt, List.getElem?_eq_getElem]⟩
  obtain ⟨result, run⟩ : ∃ result, checkedNanosFixed9 s p = some result := by
    obtain ⟨d0, lt0, at0⟩ := isDigitAt 0 (by decide)
    rw [Nat.add_zero] at at0
    obtain ⟨d1, lt1, at1⟩ := isDigitAt 1 (by decide)
    obtain ⟨d2, lt2, at2⟩ := isDigitAt 2 (by decide)
    obtain ⟨d3, lt3, at3⟩ := isDigitAt 3 (by decide)
    obtain ⟨d4, lt4, at4⟩ := isDigitAt 4 (by decide)
    obtain ⟨d5, lt5, at5⟩ := isDigitAt 5 (by decide)
    obtain ⟨d6, lt6, at6⟩ := isDigitAt 6 (by decide)
    obtain ⟨d7, lt7, at7⟩ := isDigitAt 7 (by decide)
    obtain ⟨d8, lt8, at8⟩ := isDigitAt 8 (by decide)
    unfold checkedNanosFixed9
    rw [bind_of_some (checkedAddDigit_run lt0 at0 (by omega) (by omega)),
      bind_of_some (checkedAddDigit_run lt1 at1 (by omega) (by omega)),
      bind_of_some (checkedAddDigit_run lt2 at2 (by omega) (by omega)),
      bind_of_some (checkedAddDigit_run lt3 at3 (by omega) (by omega)),
      bind_of_some (checkedAddDigit_run lt4 at4 (by omega) (by omega)),
      bind_of_some (checkedAddDigit_run lt5 at5 (by omega) (by omega)),
      bind_of_some (checkedAddDigit_run lt6 at6 (by omega) (by omega)),
      bind_of_some (checkedAddDigit_run lt7 at7 (by omega) (by omega)),
      checkedAddDigit_run lt8 at8 (by omega) (by omega)]
    exact ⟨_, rfl⟩
  have read := parseNanosFixed9_of_checked run []
  rw [parseNanosFixed9_run [] small areAt] at read
  cases read
  exact run

theorem checkedNanos_momentText (moment : Moment) : checkedNanos (momentText moment) = some (moment.nanos : ℤ) := by
  unfold checkedNanos
  rw [if_pos ⟨by rw [length_momentText]; decide, momentText_back moment 0⟩]
  exact checkedNanosFixed9_run moment.nanos_lt (momentText_fraction moment)

/-- The seconds of these years are far from the ends of the type, and so are their nanoseconds. -/
theorem seconds_bounds {moment : Moment} (since : 1678 ≤ moment.date.year) (upTo : moment.date.year ≤ 2261) :
    -9223372035 ≤ moment.seconds ∧ moment.seconds ≤ 9223372034 := by
  have first := daysBeforeYear_eq 1678
  have last := daysBeforeYear_eq 2262
  have earliest := daysBeforeYear_mono since
  have latest := daysBeforeYear_mono (by omega : moment.date.year + 1 ≤ 2262)
  have inYear := moment.date.dayNumber_lt
  have ofYear : daysBeforeYear moment.date.year ≤ moment.date.dayNumber := by
    rw [Date.dayNumber]
    omega
  have hour := moment.hour_lt
  have minute := moment.minute_lt
  have second := moment.second_lt
  unfold Moment.seconds
  rw [epochDay_eq]
  omega

/-- The time of a moment of these years is computed without overflow. -/
theorem checkedIso8601Nanos_momentText {moment : Moment} (since : 1678 ≤ moment.date.year)
    (upTo : moment.date.year ≤ 2261) :
    checkedIso8601Nanos (momentText moment) = some moment.time := by
  have month := moment.date.month_le
  have hour := moment.hour_lt
  have minute := moment.minute_lt
  have second := moment.second_lt
  have nanos := moment.nanos_lt
  have day : moment.date.day ≤ 31 := moment.date.day_le.trans (monthLength_le _ _)
  have monthPos := moment.date.month_pos
  have dayPos := moment.date.day_pos
  have bounds := seconds_bounds since upTo
  have isSeconds : checkedSeconds (daysOf moment.date.year moment.date.month moment.date.day) moment.hour moment.minute
      moment.second = some moment.seconds := by
    rw [daysOf_date _ (by omega)]
    unfold Moment.seconds at bounds ⊢
    unfold checkedSeconds
    rw [int64_bind _ (by omega) (by omega), int64_bind _ (by omega) (by omega), int64_bind _ (by omega) (by omega),
      int64_bind _ (by omega) (by omega), int64_bind _ (by omega) (by omega), int64_eq (by omega) (by omega)]
  have front (i : ℕ) (isFront : i < 19) := momentText_front moment isFront
  rw [secondText_eq] at front
  unfold checkedIso8601Nanos
  rw [if_neg (by rw [length_momentText]; decide),
    bind_of_some (checkedFourAt_run (by omega) (front 0 (by decide)) (front 1 (by decide))
      (front 2 (by decide)) (front 3 (by decide))),
    bind_of_some (checkedTwoAt_run (by omega) (front 5 (by decide)) (front 6 (by decide))),
    bind_of_some (checkedTwoAt_run (by omega) (front 8 (by decide)) (front 9 (by decide))),
    bind_of_some (checkedTwoAt_run (by omega) (front 11 (by decide)) (front 12 (by decide))),
    bind_of_some (checkedTwoAt_run (by omega) (front 14 (by decide)) (front 15 (by decide))),
    bind_of_some (checkedTwoAt_run (by omega) (front 17 (by decide)) (front 18 (by decide))),
    bind_of_some (checkedDaysOf_run (by omega) (by omega) (by omega)), bind_of_some isSeconds,
    bind_of_some (checkedNanos_momentText moment), int64_bind _ (by omega) (by omega), int64_eq (by omega) (by omega)]
  rfl

end BackTester.JsonNativeDataParser
