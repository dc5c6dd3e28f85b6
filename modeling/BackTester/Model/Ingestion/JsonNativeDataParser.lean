import BackTester.Model.Ingestion.DataParser
import BackTester.ToMathlib.Scan

/-! # The native parser

The pointer scan of `JsonNativeDataParser.cpp`. Every loop condition and every test of the source
that looks at `p < end` first is a `peek`, `step`, `takeWhile` or `skipWhile`; where the source
reads or moves without that look, so does the model. Signed arithmetic wraps.
-/

namespace BackTester.JsonNativeDataParser

open Scan

/-- A scanner over the mapped file. What it throws is the text of the exception. -/
abbrev Scanner := Scan UInt8 (List UInt8)

def notQuote (c : UInt8) : Bool := c ≠ '"'

/-- Between the fields of an object. -/
def isSeparator (c : UInt8) : Bool := c = ' ' ∨ c = ','

/-- Between a key and its value. -/
def isColon (c : UInt8) : Bool := c = ':' ∨ c = ' '

/-- What the loop over an object or an array does with a character that it has read and moved past. -/
def skipNestedChar (depth : Int32) (c : UInt8) : Scanner (Int32 ⊕ Unit) :=
  if c = '{' ∨ c = '[' then
    return .inl (depth + 1)
  else if c = '}' ∨ c = ']' then
    if depth - 1 = 0 then return .inr () else return .inl (depth - 1)
  else if c = '"' then do
    skipWhile notQuote
    step
    return .inl depth
  else
    return .inl depth

def skipNested (depth : Int32) : Scanner (Int32 ⊕ Unit) := do
  match ← peek with
  | none => return .inr ()
  | some c =>
    advance 1
    skipNestedChar depth c

/-- Moves past a value of any type. -/
def ndpSkipVal : Scanner Unit := do
  skipWhile (· = ' ')
  match ← peek with
  | none => return ()
  | some c =>
    if c = '"' then
      advance 1
      skipWhile notQuote
      step
    else if c = '{' ∨ c = '[' then
      loop skipNested 0
    else
      skipWhile fun c => c ≠ ',' ∧ c ≠ '}' ∧ c ≠ ']'

def parseU32 : Scanner UInt32 := do
  let digits ← takeWhile isDigit
  return digits.foldl (fun v c => v * 10 + (c - '0').toUInt32) 0

def parseU64 : Scanner UInt64 := do
  let digits ← takeWhile isDigit
  return digits.foldl (fun v c => v * 10 + (c - '0').toUInt64) 0

def parseI32 : Scanner Int32 := do
  if (← peek) = some ('-' : UInt8) then
    advance 1
    let v ← parseU32
    return -v.toInt32
  else
    let v ← parseU32
    return v.toInt32

def digitAt (s : List UInt8) (p : ℕ) : Scanner ℤ := do
  let c ← readAt s p
  return charValue c

/-- The number that the two characters at `p` stand for. -/
def twoAt (s : List UInt8) (p : ℕ) : Scanner ℤ := do
  let d0 ← digitAt s p
  let d1 ← digitAt s (p + 1)
  return d0 * 10 + d1

def fourAt (s : List UInt8) (p : ℕ) : Scanner ℤ := do
  let d0 ← digitAt s p
  let d1 ← digitAt s (p + 1)
  let d2 ← digitAt s (p + 2)
  let d3 ← digitAt s (p + 3)
  return d0 * 1000 + d1 * 100 + d2 * 10 + d3

/-- The nine digits at `p`, an index into `s`. -/
def parseNanosFixed9 (s : List UInt8) (p : ℕ) : Scanner ℤ := do
  let d0 ← digitAt s p
  let d1 ← digitAt s (p + 1)
  let d2 ← digitAt s (p + 2)
  let d3 ← digitAt s (p + 3)
  let d4 ← digitAt s (p + 4)
  let d5 ← digitAt s (p + 5)
  let d6 ← digitAt s (p + 6)
  let d7 ← digitAt s (p + 7)
  let d8 ← digitAt s (p + 8)
  return d0 * 100000000 + d1 * 10000000 + d2 * 1000000 + d3 * 100000 + d4 * 10000 + d5 * 1000 + d6 * 100 + d7 * 10 + d8

/-- The digits of a shorter fraction, at most nine, scaled to nanoseconds. -/
def fractionNanos (digits : List UInt8) : ℤ :=
  digits.foldl (fun nanos c => nanos * 10 + charValue c) 0 * 10 ^ (9 - digits.length)

/-- Days since the epoch of a date of the civil calendar. `int` is wide enough for all that four
characters can stand for. -/
def daysOf (y mo dy : ℤ) : ℤ :=
  let z := y - (if mo ≤ 2 then 1 else 0)
  let era := (if z ≥ 0 then z else z - 399).tdiv 400
  let yoe := z - era * 400
  let doy := (153 * (mo + (if mo ≤ 2 then 9 else -3)) + 2).tdiv 5 + dy - 1
  let doe := yoe * 365 + yoe.tdiv 4 - yoe.tdiv 100 + doy
  era * 146097 + doe - 719468

/-- What is behind the seconds. -/
def ndpNanos (s : List UInt8) : Scanner ℤ :=
  if s.length ≥ 29 ∧ s[19]? = some ('.' : UInt8) then parseNanosFixed9 s 20
  else if s.length > 19 ∧ s[19]? = some ('.' : UInt8) then pure (fractionNanos (((s.drop 20).take 9).takeWhile isDigit))
  else pure 0

def ndpParseIso8601Nanos (s : List UInt8) : Scanner Int64 := do
  if s.length < 19 then
    throwing (bytes "bad timestamp: " ++ (s.take 63).takeWhile (· ≠ 0))
  else
    let y ← fourAt s 0
    let mo ← twoAt s 5
    let dy ← twoAt s 8
    let hour ← twoAt s 11
    let minute ← twoAt s 14
    let second ← twoAt s 17
    let sec := daysOf y mo dy * 86400 + hour * 3600 + minute * 60 + second
    let nanos ← ndpNanos s
    return Int64.ofInt sec * 1000000000 + Int64.ofInt nanos

/-- A number is stored where a digit is ahead, and any other value is skipped. -/
def ndpNumber (store : UInt32 → MarketDataEvent) (e : MarketDataEvent) : Scanner MarketDataEvent := do
  if (← peek).any isDigit then
    let v ← parseU32
    return store v
  else
    ndpSkipVal
    return e

/-- A timestamp is stored where a quote is ahead. -/
def ndpTimestamp (store : Int64 → MarketDataEvent) (e : MarketDataEvent) : Scanner MarketDataEvent := do
  if (← peek) = some ('"' : UInt8) then
    advance 1
    let text ← takeWhile notQuote
    if text.length > 0 then
      let nanos ← ndpParseIso8601Nanos text
      step
      return store nanos
    else
      step
      return e
  else
    ndpSkipVal
    return e

/-- The `switch` over the lengths of the keys of the nested object. -/
def ndpHdValue (key : List UInt8) (e : MarketDataEvent) : Scanner MarketDataEvent :=
  match key.length with
  | 5 => ndpNumber (fun v => { e with rtype := v.toUInt8 }) e
  | 8 => ndpTimestamp (fun nanos => { e with tsEvent := nanos.toInt }) e
  | 12 => ndpNumber (fun v => { e with publisherId := v.toUInt16.toUInt32 }) e
  | 13 => ndpNumber (fun v => { e with instrumentId := v }) e
  | _ => do
    ndpSkipVal
    return e

/-- Past a key, from behind its first quote, and past what separates it from its value. -/
def ndpKey : Scanner (List UInt8) := do
  let key ← takeWhile notQuote
  step
  skipWhile isColon
  return key

/-- A key and its value, from behind the first quote. -/
def ndpKeyed (value : List UInt8 → MarketDataEvent → Scanner MarketDataEvent) (e : MarketDataEvent) :
    Scanner (MarketDataEvent ⊕ MarketDataEvent) := do
  let key ← ndpKey
  let e ← value key e
  return .inl e

def ndpHdField (e : MarketDataEvent) : Scanner (MarketDataEvent ⊕ MarketDataEvent) := do
  skipWhile isSeparator
  match ← peek with
  | none => return .inr e
  | some c =>
    if c = '}' then
      advance 1
      return .inr e
    else if c ≠ '"' then
      advance 1
      return .inl e
    else
      advance 1
      ndpKeyed ndpHdValue e

def ndpParseHd (e : MarketDataEvent) : Scanner MarketDataEvent := do
  if (← peek) = some ('{' : UInt8) then
    advance 1
    loop ndpHdField e
  else
    return e

/-- The price that the characters behind the sign stand for. -/
def rawPrice (text : List UInt8) : Int64 :=
  let append := fun (v : Int64) c => v * 10 + Int64.ofInt (charValue c)
  let inInt := fun c : UInt8 => c ≠ '.'
  let intPart := (text.takeWhile inInt).foldl append 0
  let fraction := (text.dropWhile inInt).tail.take 9
  let fracPart := fraction.foldl append 0 * Int64.ofNat (10 ^ (9 - fraction.length))
  intPart * 1000000000 + fracPart

/-- The price that the characters between two quotes stand for. -/
def priceOf (text : List UInt8) : Int64 :=
  if text.head? = some ('-' : UInt8) then -rawPrice text.tail else rawPrice text

/-- The first character of a string is stored, and any other value is skipped. -/
def ndpLetter (store : UInt8 → MarketDataEvent) (e : MarketDataEvent) : Scanner MarketDataEvent := do
  if (← peek) = some ('"' : UInt8) then
    advance 1
    let c ← peek
    step
    skipWhile notQuote
    step
    return c.elim e store
  else
    ndpSkipVal
    return e

def ndpSide (e : MarketDataEvent) : Scanner MarketDataEvent := ndpLetter (fun c => { e with side := .ofChar c }) e

def ndpPrice (e : MarketDataEvent) : Scanner MarketDataEvent := do
  if (← peek) = some ('n' : UInt8) then
    -- the four characters of null, without a look at the end
    advance 4
    return e
  else if (← peek) = some ('"' : UInt8) then
    advance 1
    let text ← takeWhile notQuote
    step
    return if text.length > 0 then { e with price := (priceOf text).toInt } else e
  else
    ndpSkipVal
    return e

def ndpAction (e : MarketDataEvent) : Scanner MarketDataEvent := ndpLetter (fun c => { e with action := .ofChar c }) e

def ndpOrderId (e : MarketDataEvent) : Scanner MarketDataEvent := do
  if (← peek) = some ('"' : UInt8) then
    advance 1
    let v ← parseU64
    skipWhile notQuote
    step
    return { e with orderId := v }
  else
    ndpSkipVal
    return e

def ndpTsInDelta (e : MarketDataEvent) : Scanner MarketDataEvent := do
  if (← peek).any fun c : UInt8 => c = '-' ∨ isDigit c then
    let v ← parseI32
    return { e with tsInDelta := v.toInt }
  else
    ndpSkipVal
    return e

def ndpSkip (e : MarketDataEvent) : Scanner MarketDataEvent := do
  ndpSkipVal
  return e

/-- The `switch` over the lengths of the keys of the outer object, and what it reads of the key. -/
def ndpValue (key : List UInt8) (e : MarketDataEvent) : Scanner MarketDataEvent :=
  match key.length with
  | 2 => do
    let k0 ← readAt key 0
    if k0 = 'h' then ndpParseHd e else ndpSkip e
  | 4 => do
    let k0 ← readAt key 0
    if k0 = 's' then
      let k2 ← readAt key 2
      if k2 = 'd' then ndpSide e else ndpNumber (fun v => { e with size := v }) e
    else
      ndpSkip e
  | 5 => do
    let k0 ← readAt key 0
    if k0 = 'p' then ndpPrice e
    else if k0 = 'f' then ndpNumber (fun v => { e with flags := v.toUInt8 }) e
    else ndpSkip e
  | 6 => do
    let k0 ← readAt key 0
    if k0 = 'a' then ndpAction e else ndpSkip e
  | 7 => do
    let k0 ← readAt key 0
    if k0 = 't' then ndpTimestamp (fun nanos => { e with tsRecv := nanos.toInt }) e else ndpSkip e
  | 8 => do
    let k0 ← readAt key 0
    if k0 = 'o' then ndpOrderId e
    else if k0 = 's' then ndpNumber (fun v => { e with sequence := v }) e
    else ndpSkip e
  | 10 => do
    let k0 ← readAt key 0
    if k0 = 'c' then ndpNumber (fun v => { e with channelId := v.toUInt16 }) e else ndpSkip e
  | 11 => do
    let k0 ← readAt key 0
    if k0 = 't' then ndpTsInDelta e else ndpSkip e
  | _ => ndpSkip e

def ndpField (e : MarketDataEvent) : Scanner (MarketDataEvent ⊕ MarketDataEvent) := do
  skipWhile isSeparator
  match ← peek with
  | none => return .inr e
  | some c =>
    if c = '}' then
      return .inr e
    else if c ≠ '"' then
      advance 1
      return .inl e
    else
      advance 1
      ndpKeyed ndpValue e

/-- Behind the loop: past the brace that ended it. -/
def ndpClose : Scanner Unit := do
  if (← peek) = some ('}' : UInt8) then advance 1 else return ()

def ndpParseLine : Scanner MarketDataEvent := do
  if (← peek) = some ('{' : UInt8) then
    advance 1
    let e ← loop ndpField {}
    ndpClose
    if e.tsRecv = 0 then
      throwing (bytes "missing ts_recv")
    else
      return e
  else
    throwing (bytes "missing ts_recv")

/-- A turn of the loop over the file: where it begins to scan, where the scan ends, and what the
callback is given or what is written to the log. -/
structure Turn where
  start : List UInt8
  rest : List UInt8
  outcome : Except (List UInt8) MarketDataEvent

/-- Behind the next line end, or at the end. -/
def nextLine (rest : List UInt8) : List UInt8 := (rest.dropWhile fun c : UInt8 => c ≠ '\n').tail

/-- Where the loop goes on. -/
def Turn.next (turn : Turn) : List UInt8 :=
  match turn.outcome with
  | .ok _ => turn.rest
  | .error _ => nextLine turn.rest

def parseTurn (start : List UInt8) : Except (ScanFailure UInt8 (List UInt8)) Turn :=
  match ndpParseLine start with
  | .ok (e, rest) => .ok ⟨start, rest, .ok e⟩
  | .error (.thrown what rest) => .ok ⟨start, rest, .error what⟩
  | .error failure => .error failure

/-- The turns up to the end of the file, or up to one that leaves it. -/
structure Run where
  turns : List Turn
  failure : Option (ScanFailure UInt8 (List UInt8))

def Run.after (turn : Turn) (run : Run) : Run := { run with turns := turn :: run.turns }

def isBlank (c : UInt8) : Bool := c = '\n' ∨ c = '\r' ∨ c = ' '

def turnsFrom : ℕ → List UInt8 → Run
  | 0, _ => ⟨[], some .outOfFuel⟩
  | fuel + 1, pos =>
    match pos.dropWhile isBlank with
    | [] => ⟨[], none⟩
    | c :: line =>
      match parseTurn (c :: line) with
      | .ok turn => (turnsFrom fuel turn.next).after turn
      | .error failure => ⟨[], some failure⟩

/-- The loop of `parse_inner` over the mapped file. No turn leaves the position where it was. -/
def parseInner (file : List UInt8) : Run := turnsFrom (file.length + 1) file

/-- What the callback is given. -/
def Run.delivered (run : Run) : List MarketDataEvent := run.turns.filterMap fun turn => turn.outcome.toOption

end BackTester.JsonNativeDataParser
