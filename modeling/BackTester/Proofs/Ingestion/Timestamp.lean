import BackTester.Abstract.MboRecord
import BackTester.Proofs.Ingestion.NativeScan

/-! # Timestamps

The day count of the parser, which begins its years in March, is that of the calendar; so a
timestamp of the schema is read as the time that it was written for.
-/

namespace BackTester.JsonNativeDataParser

open Calendar Decimal MboRecord Scan

/-- Five months from March on have 153 days. -/
theorem daysBeforeMonth_of_march (year : ℕ) {month : ℕ} (march : 3 ≤ month) (december : month ≤ 12) :
    daysBeforeMonth year month = (153 * (month - 3) + 2) / 5 + if IsLeap year then 60 else 59 := by
  by_cases leap : IsLeap year <;> interval_cases month <;>
    simp [daysBeforeMonth, Finset.sum_Ico_succ_top, monthLength, leap]

theorem daysBeforeMonth_two (year : ℕ) : daysBeforeMonth year 2 = 31 := by
  simp [daysBeforeMonth, monthLength]

/-- The days of the years from the year 1 up to `z`, by eras of 400 years. -/
theorem days_by_eras (z : ℕ) :
    (z : ℤ) / 400 * 146097 +
    (((z : ℤ) - z / 400 * 400) * 365 + ((z : ℤ) - z / 400 * 400) / 4 - ((z : ℤ) - z / 400 * 400) / 100) =
      daysBeforeYear (z + 1) - 366 := by
  have years := daysBeforeYear_eq (z + 1)
  omega

/-- What the parser makes of a year that it counts as `z` and of a day of that year. -/
theorem daysOf_of_year {y mo dy : ℤ} {z doy : ℕ} (isYear : y - (if mo ≤ 2 then 1 else 0) = z)
    (isDay : (153 * (mo + (if mo ≤ 2 then 9 else -3)) + 2).tdiv 5 + dy - 1 = doy) :
    daysOf y mo dy = daysBeforeYear (z + 1) + doy - 719834 := by
  have nonneg : (z : ℤ) ≥ 0 := Int.natCast_nonneg z
  have positive : (0 : ℤ) ≤ z - z / 400 * 400 := by omega
  have eras := days_by_eras z
  unfold daysOf
  simp only [isYear, isDay, if_pos nonneg]
  rw [Int.tdiv_eq_ediv_of_nonneg nonneg, Int.tdiv_eq_ediv_of_nonneg positive, Int.tdiv_eq_ediv_of_nonneg positive]
  linarith only [eras]

theorem daysOf_of_march {year month day : ℕ} (march : 3 ≤ month) (december : month ≤ 12) (positive : 1 ≤ day) :
    daysOf year month day = (daysBeforeYear year + daysBeforeMonth year month + (day - 1) : ℕ) - epochDay := by
  have late : ¬(month : ℤ) ≤ 2 := by omega
  have days :=
    @daysOf_of_year year month day year ((153 * (month - 3) + 2) / 5 + (day - 1)) (by rw [if_neg late]; omega)
    (by rw [if_neg late, Int.tdiv_eq_ediv_of_nonneg (by omega)]; omega)
  rw [days, daysBeforeMonth_of_march year march december, epochDay_eq, daysBeforeYear_succ, yearLength]
  split <;> omega

theorem daysOf_of_winter {year month day : ℕ} (later : 1 ≤ year) (january : 1 ≤ month) (february : month ≤ 2)
    (positive : 1 ≤ day) :
    daysOf year month day = (daysBeforeYear year + daysBeforeMonth year month + (day - 1) : ℕ) - epochDay := by
  have early : (month : ℤ) ≤ 2 := by omega
  have before : daysBeforeMonth year month = 31 * (month - 1) := by
    interval_cases month
    · exact daysBeforeMonth_one year
    · exact daysBeforeMonth_two year
  have days :=
    @daysOf_of_year year month day (year - 1) (306 + 31 * (month - 1) + (day - 1)) (by rw [if_pos early]; omega)
    (by rw [if_pos early, Int.tdiv_eq_ediv_of_nonneg (by omega)]; omega)
  rw [days, before, epochDay_eq, Nat.sub_add_cancel later]
  omega

/-- The day count of the parser is that of the calendar. -/
theorem daysOf_date (date : Date) (later : 1 ≤ date.year) :
    daysOf date.year date.month date.day = (date.dayNumber : ℤ) - epochDay := by
  rcases Nat.lt_or_ge date.month 3 with winter | march
  · exact daysOf_of_winter later date.month_pos (by omega) date.day_pos
  · exact daysOf_of_march march date.month_le date.day_pos

theorem charValue_digit {d : ℕ} (isDigit : d < 10) : charValue (digit d) = d := by
  interval_cases d <;> rfl

variable {s : List UInt8} {p : ℕ} (rest : List UInt8)

theorem digitAt_run {d : ℕ} (isDigit : d < 10) (isAt : s[p]? = some (digit d)) :
    digitAt s p rest = .ok ((d : ℤ), rest) := by
  unfold digitAt
  rw [readAt_bind isAt, charValue_digit isDigit]
  rfl

theorem twoAt_run {n : ℕ} (small : n < 100) (first : s[p]? = some (digit (n / 10 % 10)))
    (second : s[p + 1]? = some (digit (n % 10))) : twoAt s p rest = .ok ((n : ℤ), rest) := by
  unfold twoAt
  rw [bind_of_ok (digitAt_run rest (by omega) first), bind_of_ok (digitAt_run rest (by omega) second), pure_apply]
  congr 2
  omega

theorem fourAt_run {n : ℕ} (small : n < 10000) (first : s[p]? = some (digit (n / 10 / 10 / 10 % 10)))
    (second : s[p + 1]? = some (digit (n / 10 / 10 % 10))) (third : s[p + 2]? = some (digit (n / 10 % 10)))
    (fourth : s[p + 3]? = some (digit (n % 10))) : fourAt s p rest = .ok ((n : ℤ), rest) := by
  unfold fourAt
  rw [bind_of_ok (digitAt_run rest (by omega) first), bind_of_ok (digitAt_run rest (by omega) second),
    bind_of_ok (digitAt_run rest (by omega) third), bind_of_ok (digitAt_run rest (by omega) fourth), pure_apply]
  congr 2
  omega

/-- The nine characters at an index, whatever they are, as if they were digits. -/
theorem parseNanosFixed9_eq {cs : List UInt8} (nine : cs.length = 9) (areAt : ∀ i < 9, s[p + i]? = cs[i]?) :
    parseNanosFixed9 s p rest = .ok (cs.foldl (fun nanos c => nanos * 10 + charValue c) 0, rest) := by
  obtain ⟨c0, c1, c2, c3, c4, c5, c6, c7, c8, rfl⟩ :
      ∃ c0 c1 c2 c3 c4 c5 c6 c7 c8, cs = [c0, c1, c2, c3, c4, c5, c6, c7, c8] := by
    match cs, nine with
    | [c0, c1, c2, c3, c4, c5, c6, c7, c8], _ => exact ⟨c0, c1, c2, c3, c4, c5, c6, c7, c8, rfl⟩
  have run {i : ℕ} {c : UInt8} (isAt : s[p + i]? = some c) : digitAt s (p + i) rest = .ok (charValue c, rest) := by
    unfold digitAt
    rw [readAt_bind isAt]
    rfl
  unfold parseNanosFixed9
  rw [bind_of_ok (show digitAt s p rest = _ from run (areAt 0 (by decide))), bind_of_ok (run (areAt 1 (by decide))),
    bind_of_ok (run (areAt 2 (by decide))), bind_of_ok (run (areAt 3 (by decide))),
    bind_of_ok (run (areAt 4 (by decide))),
    bind_of_ok (run (areAt 5 (by decide))), bind_of_ok (run (areAt 6 (by decide))),
    bind_of_ok (run (areAt 7 (by decide))),
    bind_of_ok (run (areAt 8 (by decide))), pure_apply]
  congr 2
  simp only [List.foldl_cons, List.foldl_nil]
  ring

/-- Digits as the parser adds them up. -/
theorem foldl_digits {ds : List ℕ} (areDigits : ∀ d ∈ ds, d < 10) :
    (ds.map digit).foldl (fun nanos c => nanos * 10 + charValue c) 0 = (Decimal.value ds : ℤ) := by
  apply foldl_map_digit (fun v => (v : ℤ)) _ _ ds areDigits 0
  intro v d small
  rw [charValue_digit small]
  push_cast
  rfl

theorem parseNanosFixed9_run {n : ℕ} (small : n < 1000000000) (areAt : ∀ i < 9, s[p + i]? = (padded 9 n)[i]?) :
    parseNanosFixed9 s p rest = .ok ((n : ℤ), rest) := by
  rw [parseNanosFixed9_eq rest (length_padded 9 n) areAt, padded, foldl_digits fun _ => fixed_lt, value_fixed,
    Nat.mod_eq_of_lt (show n < 10 ^ 9 from small)]

/-- Every time of 64 bits is in a year of four digits. -/
theorem year_of_int64 {time : ℤ} (inRange : -2 ^ 63 ≤ time ∧ time < 2 ^ 63) :
    1677 ≤ (Moment.ofTime time).date.year ∧ (Moment.ofTime time).date.year < 2263 := by
  have first := daysBeforeYear_eq 1677
  have last := daysBeforeYear_eq 2263
  norm_num at inRange
  apply Moment.year_ofTime <;>
  · unfold startOfYear
    rw [epochDay_eq]
    omega

theorem time_of_int64 {time : ℤ} (inRange : -2 ^ 63 ≤ time ∧ time < 2 ^ 63) : (Moment.ofTime time).time = time := by
  have zero : daysBeforeYear 0 = 0 := rfl
  norm_num at inRange
  apply Moment.time_ofTime
  unfold startOfYear
  rw [epochDay_eq, zero]
  omega

theorem Moment.day_lt (moment : Moment) : moment.date.day < 100 :=
  (moment.date.day_le.trans (monthLength_le _ _)).trans_lt (by decide)

theorem length_momentText (moment : Moment) : (momentText moment).length = 30 := by
  simp [momentText, secondText, length_padded]

/-- The characters of a moment in front of its fraction. -/
theorem secondText_eq (moment : Moment) : secondText moment =
    [digit (moment.date.year / 10 / 10 / 10 % 10), digit (moment.date.year / 10 / 10 % 10),
      digit (moment.date.year / 10 % 10),
      digit (moment.date.year % 10), '-', digit (moment.date.month / 10 % 10), digit (moment.date.month % 10), '-',
      digit (moment.date.day / 10 % 10), digit (moment.date.day % 10), 'T', digit (moment.hour / 10 % 10),
      digit (moment.hour % 10), ':', digit (moment.minute / 10 % 10), digit (moment.minute % 10), ':',
      digit (moment.second / 10 % 10), digit (moment.second % 10)] := by
  simp only [secondText, padded_two, padded_four, List.cons_append, List.nil_append]

theorem momentText_front (moment : Moment) (isFront : p < 19) : (momentText moment)[p]? = (secondText moment)[p]? := by
  have length : (secondText moment).length = 19 := by simp [secondText, length_padded]
  unfold momentText
  rw [List.append_assoc, List.getElem?_append_left (by omega)]

/-- The fraction of a moment and what is behind it. -/
theorem momentText_back (moment : Moment) (i : ℕ) :
    (momentText moment)[19 + i]? = (('.' : UInt8) :: padded 9 moment.nanos ++ [('Z' : UInt8)])[i]? := by
  have length : (secondText moment).length = 19 := by simp [secondText, length_padded]
  unfold momentText
  rw [List.append_assoc, List.getElem?_append_right (by omega), length, Nat.add_sub_cancel_left]

theorem momentText_fraction (moment : Moment) :
    ∀ i < 9, (momentText moment)[20 + i]? = (padded 9 moment.nanos)[i]? := by
  intro i isIn
  rw [show 20 + i = 19 + (i + 1) by omega, momentText_back, List.cons_append, List.getElem?_cons_succ,
    List.getElem?_append_left (by rwa [length_padded])]

theorem ndpNanos_momentText (moment : Moment) : ndpNanos (momentText moment) rest = .ok ((moment.nanos : ℤ), rest) := by
  unfold ndpNanos
  rw [if_pos ⟨by rw [length_momentText]; decide, momentText_back moment 0⟩]
  exact parseNanosFixed9_run rest moment.nanos_lt (momentText_fraction moment)

/-- The text of a moment is read as its time. -/
theorem ndpParseIso8601Nanos_momentText {moment : Moment} (later : 1 ≤ moment.date.year)
    (early : moment.date.year < 10000) :
    ndpParseIso8601Nanos (momentText moment) rest = .ok (Int64.ofInt moment.time, rest) := by
  have front (i : ℕ) (isFront : i < 19) := momentText_front moment isFront
  rw [secondText_eq] at front
  have year :=
    fourAt_run rest early (front 0 (by decide)) (front 1 (by decide)) (front 2 (by decide)) (front 3 (by decide))
  have month := twoAt_run rest (moment.date.month_le.trans_lt (by decide)) (front 5 (by decide)) (front 6 (by decide))
  have day := twoAt_run rest (Moment.day_lt moment) (front 8 (by decide)) (front 9 (by decide))
  have hour := twoAt_run rest (moment.hour_lt.trans (by decide)) (front 11 (by decide)) (front 12 (by decide))
  have minute := twoAt_run rest (moment.minute_lt.trans (by decide)) (front 14 (by decide)) (front 15 (by decide))
  have second := twoAt_run rest (moment.second_lt.trans (by decide)) (front 17 (by decide)) (front 18 (by decide))
  unfold ndpParseIso8601Nanos
  rw [if_neg (by rw [length_momentText]; decide), bind_of_ok year, bind_of_ok month, bind_of_ok day, bind_of_ok hour,
    bind_of_ok minute, bind_of_ok second, bind_of_ok (ndpNanos_momentText rest moment), pure_apply, daysOf_date _ later]
  have billion : (1000000000 : Int64) = Int64.ofInt 1000000000 := rfl
  rw [billion, ← Int64.ofInt_mul, ← Int64.ofInt_add]
  rfl

/-- A timestamp of the schema is read as its time. -/
theorem ndpParseIso8601Nanos_timestamp {time : ℤ} (inRange : -2 ^ 63 ≤ time ∧ time < 2 ^ 63) :
    ndpParseIso8601Nanos (timestamp time) rest = .ok (Int64.ofInt time, rest) := by
  have years := year_of_int64 inRange
  have run := ndpParseIso8601Nanos_momentText rest (by omega : 1 ≤ (Moment.ofTime time).date.year) (by omega)
  rwa [time_of_int64 inRange] at run

end BackTester.JsonNativeDataParser
