import BackTester.Model.Ingestion.DataParser
import BackTester.ToMathlib.Calendar
import BackTester.ToMathlib.TextSearch

/-! # The simple parser

The line parser of `JsonSimpleDataParser.cpp`: every key is looked for in the text of the line, and
the values are read by the standard library. The conversions of the library are those of a platform
with a `long` of 64 bits. Floating point is left to a parameter: what `std::stod` and the scaling
behind it make of a text.
-/

namespace BackTester.JsonSimpleDataParser

/-- What is behind the key, its colon and the spaces there, and empty where the key does not occur. -/
def findValue (line key : List UInt8) : List UInt8 :=
  match TextSearch.behind (('"' : UInt8) :: (key ++ ('"' : UInt8) :: [(':' : UInt8)])) line with
  | none => []
  | some rest => rest.dropWhile fun c : UInt8 => c = ' '

def getString (line key : List UInt8) : Option (List UInt8) :=
  match findValue line key with
  | [] => none
  | c :: rest =>
    if c ≠ '"' then none
    else if ('"' : UInt8) ∈ rest then some (rest.takeWhile fun c : UInt8 => c ≠ '"')
    else none

def isNumeric (c : UInt8) : Bool := c = '-' ∨ isDigit c

def getNumericRaw (line key : List UInt8) : Option (List UInt8) :=
  match findValue line key with
  | [] => none
  | c :: rest => if isNumeric c then some ((c :: rest).takeWhile isNumeric) else none

/-- The number of characters up to the brace that closes the object, or none if no brace does. -/
def objectLength (depth i : ℕ) : List UInt8 → ℕ
  | [] => 0
  | c :: rest =>
    if c = '{' then objectLength (depth + 1) (i + 1) rest
    else if c = '}' then
      if depth - 1 = 0 then i + 1 else objectLength (depth - 1) (i + 1) rest
    else objectLength depth (i + 1) rest

def getObject (line key : List UInt8) : List UInt8 :=
  match findValue line key with
  | [] => []
  | c :: rest => if c ≠ '{' then [] else (c :: rest).take (objectLength 0 0 (c :: rest))

def isNull (line key : List UInt8) : Bool := (bytes "null").isPrefixOf (findValue line key)

/-- `isspace` in the C locale. -/
def isSpace (c : UInt8) : Bool := c = ' ' ∨ 9 ≤ c ∧ c ≤ 13

/-- The sign and the number at the beginning of a text, if there is a digit. -/
def magnitude (text : List UInt8) : Option (Bool × ℕ) :=
  let text := text.dropWhile isSpace
  let negative := text.head? = some ('-' : UInt8)
  let digits := (if negative ∨ text.head? = some ('+' : UInt8) then text.tail else text).takeWhile isDigit
  if digits = [] then none else some (negative, digits.foldl (fun n c => n * 10 + (c.toNat - 48)) 0)

/-- `std::stoul` and `std::stoull`, which throw their names. -/
def stoul (name text : List UInt8) : Except (List UInt8) UInt64 :=
  match magnitude text with
  | none => .error name
  | some (negative, n) => if 2 ^ 64 ≤ n then .error name else .ok (if negative then -.ofNat n else .ofNat n)

def stol (text : List UInt8) : Except (List UInt8) Int64 :=
  match magnitude text with
  | none => .error (bytes "stol")
  | some (negative, n) =>
    let value : ℤ := if negative then -n else n
    if -2 ^ 63 ≤ value ∧ value < 2 ^ 63 then .ok (.ofInt value) else .error (bytes "stol")

/-- What `strptime` reads of a time, in the numbers of the calendar. -/
structure Tm where
  year : ℕ
  month : ℕ
  day : ℕ
  hour : ℕ
  minute : ℕ
  second : ℕ

/-- The digits behind the first one: `width` of them at most, and none that cannot lead to a number in range. -/
def moreDigits (high : ℕ) : ℕ → ℕ → List UInt8 → ℕ × List UInt8
  | width + 1, n, c :: rest =>
    if n * 10 ≤ high ∧ isDigit c then moreDigits high width (n * 10 + (c.toNat - 48)) rest else (n, c :: rest)
  | _, n, rest => (n, rest)

/-- A number of a format of `strptime`, with its range. -/
def getNumber (low high width : ℕ) (text : List UInt8) : Option (ℕ × List UInt8) :=
  match text.dropWhile fun c : UInt8 => c = ' ' with
  | [] => none
  | c :: rest =>
    if isDigit c then
      let (n, rest) := moreDigits high (width - 1) (c.toNat - 48) rest
      if low ≤ n ∧ n ≤ high then some (n, rest) else none
    else none

def literal (expected : UInt8) : List UInt8 → Option (List UInt8)
  | [] => none
  | c :: rest => if c = expected then some rest else none

/-- The format `%Y-%m-%dT%H:%M:%S`. -/
def strptime (text : List UInt8) : Option (Tm × List UInt8) := do
  let (year, text) ← getNumber 0 9999 4 text
  let text ← literal '-' text
  let (month, text) ← getNumber 1 12 2 text
  let text ← literal '-' text
  let (day, text) ← getNumber 1 31 2 text
  let text ← literal 'T' text
  let (hour, text) ← getNumber 0 23 2 text
  let text ← literal ':' text
  let (minute, text) ← getNumber 0 59 2 text
  let text ← literal ':' text
  let (second, text) ← getNumber 0 61 2 text
  return (⟨year, month, day, hour, minute, second⟩, text)

/-- Seconds since the epoch in the proleptic Gregorian calendar. A day behind the end of its month
is one of the next month. -/
def timegm (tm : Tm) : ℤ :=
  ((Calendar.daysBeforeYear tm.year + Calendar.daysBeforeMonth tm.year tm.month + (tm.day - 1) : ℕ) -
    (Calendar.epochDay : ℤ)) *
    86400 + tm.hour * 3600 + tm.minute * 60 + tm.second

/-- The digits behind a point, at most nine, scaled to nanoseconds. -/
def nanosOf : List UInt8 → ℤ
  | [] => 0
  | c :: p =>
    if c = '.' then
      let digits := (p.take 9).takeWhile isDigit
      digits.foldl (fun nanos c => nanos * 10 + charValue c) 0 * 10 ^ (9 - digits.length)
    else 0

def parseIso8601Nanos (s : List UInt8) : Except (List UInt8) Int64 :=
  match strptime (s.takeWhile (· ≠ 0)) with
  | none => .error (bytes "bad timestamp: " ++ s)
  | some (tm, p) => .ok (Int64.ofInt (timegm tm) * 1000000000 + Int64.ofInt (nanosOf p))

/-- An optional value is stored if it is there. -/
def ifPresent (value : Option (List UInt8)) (e : MarketDataEvent)
    (store : List UInt8 → Except (List UInt8) MarketDataEvent) :
    Except (List UInt8) MarketDataEvent :=
  match value with
  | none => .ok e
  | some text => store text

/-- Its first character is stored, if the value is there and not empty. -/
def ifNonempty (value : Option (List UInt8)) (e : MarketDataEvent) (store : UInt8 → MarketDataEvent) :
    MarketDataEvent :=
  match value with
  | some (c :: _) => store c
  | _ => e

/-- `scaled` is what `std::stod(text) * 1e9` is as an integer. -/
def parseLine (scaled : List UInt8 → Except (List UInt8) Int64) (line : List UInt8) :
    Except (List UInt8) MarketDataEvent := do
  let e : MarketDataEvent := {}
  let hd := getObject line (bytes "hd")
  match getString line (bytes "ts_recv") with
  | none => .error (bytes "missing ts_recv")
  | some tsRecv =>
    let nanos ← parseIso8601Nanos tsRecv
    let e := { e with tsRecv := nanos.toInt }
    let e ← ifPresent (getString hd (bytes "ts_event")) e fun tsEvent => do
      return { e with tsEvent := (← parseIso8601Nanos tsEvent).toInt }
    let e ← ifPresent (getNumericRaw hd (bytes "rtype")) e fun rtype => do
      return { e with rtype := (← stoul (bytes "stoul") rtype).toUInt8 }
    let e ← ifPresent (getNumericRaw hd (bytes "publisher_id")) e fun pubId => do
      return { e with publisherId := (← stoul (bytes "stoul") pubId).toUInt32 }
    let e ← ifPresent (getNumericRaw hd (bytes "instrument_id")) e fun instId => do
      return { e with instrumentId := (← stoul (bytes "stoul") instId).toUInt32 }
    let e := ifNonempty (getString line (bytes "action")) e fun c => { e with action := .ofChar c }
    let e := ifNonempty (getString line (bytes "side")) e fun c => { e with side := .ofChar c }
    let price := if isNull line (bytes "price") then none else getString line (bytes "price")
    let e ← ifPresent price e fun price => do
      return { e with price := (← scaled price).toInt }
    let e ← ifPresent (getNumericRaw line (bytes "size")) e fun size => do
      return { e with size := (← stoul (bytes "stoul") size).toUInt32 }
    let e ← ifPresent (getNumericRaw line (bytes "channel_id")) e fun chanId => do
      return { e with channelId := (← stoul (bytes "stoul") chanId).toUInt16 }
    let e ← ifPresent (getString line (bytes "order_id")) e fun orderId => do
      return { e with orderId := ← stoul (bytes "stoull") orderId }
    let e ← ifPresent (getNumericRaw line (bytes "flags")) e fun flags => do
      return { e with flags := (← stoul (bytes "stoul") flags).toUInt8 }
    let e ← ifPresent (getNumericRaw line (bytes "ts_in_delta")) e fun delta => do
      return { e with tsInDelta := (← stol delta).toInt32.toInt }
    let e ← ifPresent (getNumericRaw line (bytes "sequence")) e fun seq => do
      return { e with sequence := (← stoul (bytes "stoul") seq).toUInt32 }
    return e

end BackTester.JsonSimpleDataParser
