import BackTester.Model.Ingestion.DataParser
import BackTester.ToMathlib.Decimal

/-! # Price numerals

Decimal numerals with a sign, leading zeros and as many digits behind the point as one likes, and
the prices that they stand for: digits behind the ninth do not count.
-/

namespace BackTester

open Decimal

structure PriceNumeral where
  negative : Bool
  whole : List ℕ
  fraction : Option (List ℕ)
  whole_ne_nil : whole ≠ []
  whole_lt : ∀ d ∈ whole, d < 10
  fraction_lt : ∀ ds ∈ fraction, ∀ d ∈ ds, d < 10

namespace PriceNumeral

variable (numeral : PriceNumeral)

/-- The digits behind the point, nine of them. -/
def nine : List ℕ :=
  let ds := (numeral.fraction.getD []).take 9
  ds ++ List.replicate (9 - ds.length) 0

/-- The distance of the price from zero. -/
def magnitude : ℕ := value numeral.whole * 1000000000 + value numeral.nine

def price : ℤ := if numeral.negative then -numeral.magnitude else numeral.magnitude

/-- The numeral without its sign. -/
def digitText : List UInt8 :=
  numeral.whole.map digit ++ numeral.fraction.elim [] fun ds => ('.' : UInt8) :: ds.map digit

def text : List UInt8 := if numeral.negative then ('-' : UInt8) :: numeral.digitText else numeral.digitText

end PriceNumeral

end BackTester
