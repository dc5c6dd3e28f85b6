import BackTester.Model.Ingestion.DataParser
import BackTester.ToMathlib.Calendar
import BackTester.ToMathlib.Decimal

/-! # Records of a data file

A market data event written as one JSON object: the keys of the schema in any order, the nested
object among them, spaces behind commas and colons. What the schema leaves open is a layout.
-/

namespace BackTester.MboRecord

open Calendar Decimal

def spaces (n : ℕ) : List UInt8 := List.replicate n ' '

def quoted (text : List UInt8) : List UInt8 := ('"' : UInt8) :: text ++ [('"' : UInt8)]

/-- A key and its value, the spaces behind the colon, and behind the comma where one is ahead of the key. -/
structure Member where
  key : List UInt8
  value : List UInt8
  commaSpaces : ℕ
  colonSpaces : ℕ

def Member.text (member : Member) : List UInt8 :=
  quoted member.key ++ (':' : UInt8) :: spaces member.colonSpaces ++ member.value

def Member.afterComma (member : Member) : List UInt8 := (',' : UInt8) :: spaces member.commaSpaces ++ member.text

def object : List Member → List UInt8
  | [] => bytes "\x7b\x7d"
  | first :: others => ('{' : UInt8) :: first.text ++ others.flatMap Member.afterComma ++ [('}' : UInt8)]

def integer (n : ℤ) : List UInt8 := if n < 0 then ('-' : UInt8) :: text n.natAbs else text n.natAbs

/-- `YYYY-MM-DDTHH:MM:SS`. -/
def secondText (moment : Moment) : List UInt8 :=
  padded 4 moment.date.year ++ ('-' : UInt8) :: padded 2 moment.date.month ++
    ('-' : UInt8) :: padded 2 moment.date.day ++
    ('T' : UInt8) :: padded 2 moment.hour ++ (':' : UInt8) :: padded 2 moment.minute ++
    (':' : UInt8) :: padded 2 moment.second

/-- `YYYY-MM-DDTHH:MM:SS.nnnnnnnnnZ`. -/
def momentText (moment : Moment) : List UInt8 :=
  secondText moment ++ ('.' : UInt8) :: padded 9 moment.nanos ++ [('Z' : UInt8)]

def timestamp (time : NanoTime) : List UInt8 := momentText (.ofTime time)

/-- A decimal numeral with nine digits behind the point. -/
def priceText (price : ScaledPrice) : List UInt8 :=
  let digits := text (price.natAbs / 1000000000) ++ ('.' : UInt8) :: padded 9 price.natAbs
  if price < 0 then ('-' : UInt8) :: digits else digits

def actionChar : Action → UInt8
  | .add => 'A'
  | .modify => 'M'
  | .cancel => 'C'
  | .clear => 'R'
  | .trade => 'T'
  | .fill => 'F'
  | .none => 'N'
  | .unnamed code => code

/-- A sell order is marked `A` for an ask or `S` for a sale. -/
def sideChar (ask : Bool) : Side → UInt8
  | .buy => 'B'
  | .sell => if ask then 'A' else 'S'
  | .none => 'N'

inductive HdField
  | rtype
  | tsEvent
  | publisherId
  | instrumentId
deriving DecidableEq

inductive Field
  | hd
  | side
  | size
  | price
  | flags
  | action
  | symbol
  | tsRecv
  | orderId
  | sequence
  | channelId
  | tsInDelta
deriving DecidableEq

def HdField.all : List HdField := [.rtype, .tsEvent, .publisherId, .instrumentId]

def Field.all : List Field :=
  [.hd, .side, .size, .price, .flags, .action, .symbol, .tsRecv, .orderId, .sequence, .channelId, .tsInDelta]

def HdField.key : HdField → List UInt8
  | .rtype => bytes "rtype"
  | .tsEvent => bytes "ts_event"
  | .publisherId => bytes "publisher_id"
  | .instrumentId => bytes "instrument_id"

def Field.key : Field → List UInt8
  | .hd => bytes "hd"
  | .side => bytes "side"
  | .size => bytes "size"
  | .price => bytes "price"
  | .flags => bytes "flags"
  | .action => bytes "action"
  | .symbol => bytes "symbol"
  | .tsRecv => bytes "ts_recv"
  | .orderId => bytes "order_id"
  | .sequence => bytes "sequence"
  | .channelId => bytes "channel_id"
  | .tsInDelta => bytes "ts_in_delta"

/-- A place in an object: which field is there, and the spaces around it. -/
structure Place (Field : Type) where
  field : Field
  commaSpaces : ℕ
  colonSpaces : ℕ

/-- Every field has one place. -/
structure Layout where
  places : List (Place Field)
  hdPlaces : List (Place HdField)
  complete : (places.map Place.field).Perm Field.all
  hdComplete : (hdPlaces.map Place.field).Perm HdField.all
  symbol : List UInt8
  unquoted : ('"' : UInt8) ∉ symbol
  ask : Bool

variable (layout : Layout) (e : MarketDataEvent)

def HdField.value : HdField → List UInt8
  | .rtype => text e.rtype.toNat
  | .tsEvent => quoted (timestamp e.tsEvent)
  | .publisherId => text e.publisherId.toNat
  | .instrumentId => text e.instrumentId.toNat

def hdMember (place : Place HdField) : Member where
  key := place.field.key
  value := place.field.value e
  commaSpaces := place.commaSpaces
  colonSpaces := place.colonSpaces

def Field.value : Field → List UInt8
  | .hd => object (layout.hdPlaces.map (hdMember e))
  | .side => quoted [sideChar layout.ask e.side]
  | .size => text e.size.toNat
  | .price => if e.price = undefPrice then bytes "null" else quoted (priceText e.price)
  | .flags => text e.flags.toNat
  | .action => quoted [actionChar e.action]
  | .symbol => quoted layout.symbol
  | .tsRecv => quoted (timestamp e.tsRecv)
  | .orderId => quoted (text e.orderId.toNat)
  | .sequence => text e.sequence.toNat
  | .channelId => text e.channelId.toNat
  | .tsInDelta => integer e.tsInDelta

def member (place : Place Field) : Member where
  key := place.field.key
  value := place.field.value layout e
  commaSpaces := place.commaSpaces
  colonSpaces := place.colonSpaces

/-- The record of an event, without the end of its line. -/
def line : List UInt8 := object (layout.places.map (member layout e))

/-- The values that the fields of an event can have: those of their types, and an action that has a name. -/
structure InRange : Prop where
  tsRecv : -2 ^ 63 ≤ e.tsRecv ∧ e.tsRecv < 2 ^ 63
  tsEvent : -2 ^ 63 ≤ e.tsEvent ∧ e.tsEvent < 2 ^ 63
  price : -2 ^ 63 ≤ e.price ∧ e.price < 2 ^ 63
  tsInDelta : -2 ^ 31 ≤ e.tsInDelta ∧ e.tsInDelta < 2 ^ 31
  action : ∀ code, e.action ≠ .unnamed code

/-- The values that a record can stand for: times of the years 1678 to 2261, a price that is not
below the null price with its sign turned, a publisher of 16 bits. -/
structure Encodable : Prop where
  tsRecv : startOfYear 1678 ≤ e.tsRecv ∧ e.tsRecv < startOfYear 2262
  tsEvent : startOfYear 1678 ≤ e.tsEvent ∧ e.tsEvent < startOfYear 2262
  hasTime : e.tsRecv ≠ 0
  publisherId : e.publisherId.toNat < 65536
  tsInDelta : -2 ^ 31 < e.tsInDelta ∧ e.tsInDelta < 2 ^ 31
  price : |e.price| ≤ 2 ^ 63 - 1
  action : ∀ code, e.action ≠ .unnamed code

/-- A file of records, one on each line. -/
def file (records : List (Layout × MarketDataEvent)) : List UInt8 :=
  records.flatMap fun record => line record.1 record.2 ++ [('\n' : UInt8)]

theorem startOfYear_1678 : startOfYear 1678 = -9214560000000000000 := by
  have := daysBeforeYear_eq 1678
  unfold startOfYear
  rw [epochDay_eq]
  omega

theorem startOfYear_2262 : startOfYear 2262 = 9214646400000000000 := by
  have := daysBeforeYear_eq 2262
  unfold startOfYear
  rw [epochDay_eq]
  omega

variable {e}

theorem Encodable.inRange (encodable : Encodable e) : InRange e := by
  have price := abs_le.mp encodable.price
  have tsRecv := encodable.tsRecv
  have tsEvent := encodable.tsEvent
  rw [startOfYear_1678, startOfYear_2262] at tsRecv tsEvent
  refine ⟨⟨?_, ?_⟩, ⟨?_, ?_⟩, ⟨?_, ?_⟩, ⟨encodable.tsInDelta.1.le, encodable.tsInDelta.2⟩, encodable.action⟩
  · linarith only [tsRecv.1]
  · linarith only [tsRecv.2]
  · linarith only [tsEvent.1]
  · linarith only [tsEvent.2]
  · linarith only [price.1]
  · linarith only [price.2]

end BackTester.MboRecord
