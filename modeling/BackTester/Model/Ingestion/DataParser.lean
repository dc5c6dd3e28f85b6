import BackTester.Model.Common.MarketDataEvent

/-! # Bytes of a data file

A file is a list of bytes, and `char` is signed where a parser computes with it.
-/

namespace BackTester

instance coeChar : Coe Char UInt8 := ⟨Char.toUInt8⟩

/-- The bytes of a literal of the source. -/
def bytes (text : String) : List UInt8 := text.toList.map Char.toUInt8

-- Byte by byte of the text, and not for each of the 256 bytes there are.
instance decidableForallByte (p : UInt8 → Prop) [DecidablePred p] (text : List UInt8) : Decidable (∀ c ∈ text, p c) :=
  List.decidableBAll p text

def isDigit (c : UInt8) : Bool := '0' ≤ c && c ≤ '9'

/-- `c - '0'`. -/
def charValue (c : UInt8) : ℤ := c.toInt8.toInt - 48

/-- `static_cast<Action>`. -/
def Action.ofChar (c : UInt8) : Action :=
  if c = 'A' then .add
  else if c = 'M' then .modify
  else if c = 'C' then .cancel
  else if c = 'R' then .clear
  else if c = 'T' then .trade
  else if c = 'F' then .fill
  else if c = 'N' then .none
  else .unnamed c

/-- What both parsers make of the first character of a side. -/
def Side.ofChar (c : UInt8) : Side :=
  if c = 'B' then .buy else if c = 'S' ∨ c = 'A' then .sell else .none

end BackTester
