import BackTester.Model.Ingestion.JsonNativeDataParser
import BackTester.Model.Ingestion.JsonSimpleDataParser

/-! # The loops over a data file

`parse_inner` of either parser, with the callback that it is given. What the callback throws is
caught like what the parsing of a line throws, and a message goes to the error output.
-/

namespace BackTester

variable {σ : Type*}

/-- What a callback makes of its state, and what it throws after that, if it throws. -/
abbrev Callback (σ : Type*) := MarketDataEvent → σ → σ × Option (List UInt8)

/-- The state of the callback, and the messages for the lines that were skipped. -/
structure FileReading (σ : Type*) where
  state : σ
  skipped : List (List UInt8) := []

namespace FileReading

variable (reading : FileReading σ)

def skip (what : List UInt8) : FileReading σ := { reading with skipped := reading.skipped ++ [what] }

/-- The callback is called, and what it throws is caught. -/
def call (f : Callback σ) (e : MarketDataEvent) : FileReading σ :=
  match f e reading.state with
  | (state, none) => { reading with state }
  | (state, some what) => { reading with state }.skip what

end FileReading

def mboJson : List UInt8 := bytes ".mbo.json"

namespace JsonSimpleDataParser

/-- `std::getline`: the text ahead of the next line end, and what is behind it. At the end of the file it fails. -/
def getline : List UInt8 → Option (List UInt8 × List UInt8)
  | [] => none
  | c :: file =>
    some ((c :: file).takeWhile fun c : UInt8 => c ≠ '\n', ((c :: file).dropWhile fun c : UInt8 => c ≠ '\n').tail)

/-- The body of the loop. -/
def readLine (scaled : List UInt8 → Except (List UInt8) Int64) (f : Callback σ) (line : List UInt8)
    (reading : FileReading σ) : FileReading σ :=
  if line = [] then reading
  else
    match parseLine scaled line with
    | .ok e => reading.call f e
    | .error what => reading.skip what

def readFrom (scaled : List UInt8 → Except (List UInt8) Int64) (f : Callback σ) :
    ℕ → List UInt8 → FileReading σ → FileReading σ
  | 0, _, reading => reading
  | fuel + 1, file, reading =>
    match getline file with
    | none => reading
    | some (line, file) => readFrom scaled f fuel file (readLine scaled f line reading)

/-- `parse_inner`. A line has at least its end, but for the last. -/
def parseFile (scaled : List UInt8 → Except (List UInt8) Int64) (path : List UInt8)
    (opened : Option (List UInt8)) (f : Callback σ) (state : σ) : Except (List UInt8) (FileReading σ) :=
  if ¬mboJson <:+ path then .error (bytes "SimpleDataParser: unsupported format, expected .mbo.json file, got " ++ path)
  else
    match opened with
    | none => .error (bytes "SimpleDataParser: cannot open " ++ path)
    | some file => .ok (readFrom scaled f (file.length + 1) file { state })

end JsonSimpleDataParser

namespace JsonNativeDataParser

/-- What opening and mapping a file comes to. -/
inductive Mapping
  | cannotOpen
  | fstatFailed
  | mmapFailed
  | mapped (file : List UInt8)

/-- The loop over the mapped file. An exception of the callback, too, is one that skips to the next line. -/
def readFrom (f : Callback σ) : ℕ → List UInt8 → FileReading σ → Except (ScanFailure UInt8 (List UInt8)) (FileReading σ)
  | 0, _, _ => .error .outOfFuel
  | fuel + 1, pos, reading =>
    match pos.dropWhile isBlank with
    | [] => .ok reading
    | c :: line =>
      match parseTurn (c :: line) with
      | .error failure => .error failure
      | .ok turn =>
        match turn.outcome with
        | .error what => readFrom f fuel (nextLine turn.rest) (reading.skip what)
        | .ok e =>
          match f e reading.state with
          | (state, none) => readFrom f fuel turn.rest { reading with state }
          | (state, some what) => readFrom f fuel (nextLine turn.rest) ({ reading with state }.skip what)

/-- `parse_inner`. What it throws is a message; a scanner that leaves the file is not one of its exceptions. -/
def parseFile (path : List UInt8) (mapping : Mapping) (f : Callback σ) (state : σ) :
    Except (List UInt8) (Except (ScanFailure UInt8 (List UInt8)) (FileReading σ)) :=
  if ¬mboJson <:+ path then .error (bytes "NativeDataParser: unsupported format, expected .mbo.json file, got " ++ path)
  else
    match mapping with
    | .cannotOpen => .error (bytes "NativeDataParser: cannot open " ++ path)
    | .fstatFailed => .error (bytes "NativeDataParser: fstat failed for " ++ path)
    | .mmapFailed => .error (bytes "NativeDataParser: mmap failed for " ++ path)
    | .mapped file => .ok (if file = [] then .ok { state } else readFrom f (file.length + 1) file { state })

end JsonNativeDataParser

end BackTester
