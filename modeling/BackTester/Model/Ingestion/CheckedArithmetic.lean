import BackTester.Model.Ingestion.JsonNativeDataParser
import BackTester.ToMathlib.CheckedInt

/-! # The arithmetic of the native parser, with overflow

The computations of `ndp_parseIso8601Nanos` and of the price, once more, operation by operation:
each is of the type that it has in the source, and has no result where it overflows.
-/

namespace BackTester.JsonNativeDataParser

open CheckedInt

def checkedDigitAt (s : List UInt8) (p : ℕ) : Option ℤ := do
  let c ← s[p]?
  int (charValue c)

def checkedTwoAt (s : List UInt8) (p : ℕ) : Option ℤ := do
  let d0 ← checkedDigitAt s p
  let tens ← int (d0 * 10)
  let d1 ← checkedDigitAt s (p + 1)
  int (tens + d1)

def checkedFourAt (s : List UInt8) (p : ℕ) : Option ℤ := do
  let d0 ← checkedDigitAt s p
  let thousands ← int (d0 * 1000)
  let d1 ← checkedDigitAt s (p + 1)
  let hundreds ← int (d1 * 100)
  let sum ← int (thousands + hundreds)
  let d2 ← checkedDigitAt s (p + 2)
  let tens ← int (d2 * 10)
  let sum ← int (sum + tens)
  let d3 ← checkedDigitAt s (p + 3)
  int (sum + d3)

/-- Adds what a digit of the fraction stands for. -/
def checkedAddDigit (s : List UInt8) (p : ℕ) (sum scale : ℤ) : Option ℤ := do
  let d ← checkedDigitAt s p
  let term ← int64 (d * scale)
  int64 (sum + term)

def checkedNanosFixed9 (s : List UInt8) (p : ℕ) : Option ℤ := do
  let sum ← checkedAddDigit s p 0 100000000
  let sum ← checkedAddDigit s (p + 1) sum 10000000
  let sum ← checkedAddDigit s (p + 2) sum 1000000
  let sum ← checkedAddDigit s (p + 3) sum 100000
  let sum ← checkedAddDigit s (p + 4) sum 10000
  let sum ← checkedAddDigit s (p + 5) sum 1000
  let sum ← checkedAddDigit s (p + 6) sum 100
  let sum ← checkedAddDigit s (p + 7) sum 10
  checkedAddDigit s (p + 8) sum 1

/-- `v * 10 + (c - '0')` in `int64_t`. -/
def checkedAppend (v : ℤ) (c : UInt8) : Option ℤ := do
  let shifted ← int64 (v * 10)
  let d ← int (charValue c)
  int64 (shifted + d)

def checkedFractionNanos (digits : List UInt8) : Option ℤ := do
  let nanos ← digits.foldlM checkedAppend 0
  int64 (nanos * 10 ^ (9 - digits.length))

/-- `(z >= 0 ? z : z - 399) / 400`. -/
def checkedEra (z : ℤ) : Option ℤ :=
  if z ≥ 0 then int (z.tdiv 400)
  else do
    let shifted ← int (z - 399)
    int (shifted.tdiv 400)

def checkedDaysOf (y mo dy : ℤ) : Option ℤ := do
  let z ← int (y - (if mo ≤ 2 then 1 else 0))
  let era ← checkedEra z
  let eraYears ← int (era * 400)
  let yoe ← int (z - eraYears)
  let month ← int (mo + (if mo ≤ 2 then 9 else -3))
  let monthDays ← int (153 * month)
  let monthDays ← int (monthDays + 2)
  let monthDays ← int (monthDays.tdiv 5 + dy)
  let doy ← int (monthDays - 1)
  let yearDays ← int (yoe * 365)
  let yearDays ← int (yearDays + yoe.tdiv 4)
  let yearDays ← int (yearDays - yoe.tdiv 100)
  let doe ← int (yearDays + doy)
  let eraDays ← int64 (era * 146097)
  let days ← int64 (eraDays + doe)
  int64 (days - 719468)

def checkedSeconds (days hour minute second : ℤ) : Option ℤ := do
  let daySeconds ← int64 (days * 86400)
  let hourSeconds ← int64 (hour * 3600)
  let sum ← int64 (daySeconds + hourSeconds)
  let minuteSeconds ← int64 (minute * 60)
  let sum ← int64 (sum + minuteSeconds)
  int64 (sum + second)

def checkedNanos (s : List UInt8) : Option ℤ :=
  if s.length ≥ 29 ∧ s[19]? = some ('.' : UInt8) then checkedNanosFixed9 s 20
  else if s.length > 19 ∧ s[19]? = some ('.' : UInt8) then checkedFractionNanos (((s.drop 20).take 9).takeWhile isDigit)
  else some 0

def checkedIso8601Nanos (s : List UInt8) : Option ℤ :=
  if s.length < 19 then none
  else do
    let y ← checkedFourAt s 0
    let mo ← checkedTwoAt s 5
    let dy ← checkedTwoAt s 8
    let hour ← checkedTwoAt s 11
    let minute ← checkedTwoAt s 14
    let second ← checkedTwoAt s 17
    let days ← checkedDaysOf y mo dy
    let sec ← checkedSeconds days hour minute second
    let nanos ← checkedNanos s
    let secNanos ← int64 (sec * 1000000000)
    int64 (secNanos + nanos)

/-- `n` times `frac_part *= 10`. -/
def checkedPad : ℕ → ℤ → Option ℤ
  | 0, fracPart => some fracPart
  | n + 1, fracPart => do
    let shifted ← int64 (fracPart * 10)
    checkedPad n shifted

def checkedRawPrice (text : List UInt8) : Option ℤ := do
  let inInt := fun c : UInt8 => c ≠ '.'
  let intPart ← (text.takeWhile inInt).foldlM checkedAppend 0
  let fraction := (text.dropWhile inInt).tail.take 9
  let fracPart ← fraction.foldlM checkedAppend 0
  let fracPart ← checkedPad (9 - fraction.length) fracPart
  let whole ← int64 (intPart * 1000000000)
  int64 (whole + fracPart)

def checkedPriceOf (text : List UInt8) : Option ℤ :=
  if text.head? = some ('-' : UInt8) then do
    let raw ← checkedRawPrice text.tail
    int64 (-raw)
  else checkedRawPrice text

end BackTester.JsonNativeDataParser
