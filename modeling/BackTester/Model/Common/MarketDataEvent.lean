import Mathlib.Tactic

/-! # Market data events

The record every component exchanges. Unsigned fields have the source's own widths. Prices and
times are `int64_t` in the source and integers here: the book compares and copies prices and the
mergers compare times, so no operation below wraps them.
-/

namespace BackTester

/-- Nanoseconds since the epoch. -/
abbrev NanoTime := ℤ

/-- One unit is `1e-9`. -/
abbrev ScaledPrice := ℤ

/-- `INT64_MAX` denotes a null price. -/
def undefPrice : ScaledPrice := 2 ^ 63 - 1

inductive Side where
  | none
  | buy
  | sell
deriving DecidableEq, Repr, Inhabited

/-- The parsers store any character they read, so a value need not name an enumerator. -/
inductive Action where
  | add
  | modify
  | cancel
  | clear
  | trade
  | fill
  | none
  | unnamed (code : UInt8)
deriving DecidableEq, Repr, Inhabited

/-- A record type is any byte; no component interprets it. -/
abbrev RType := UInt8

/-- A bit set over one byte. -/
abbrev Flags := UInt8

namespace Flags

def badTsRecv : Flags := (1 : UInt8) <<< 3
def maybeBadBook : Flags := (1 : UInt8) <<< 2

/-- Some bit of `bit` is set in `field`. -/
def hasFlag (field bit : Flags) : Bool := (field &&& bit) != 0

end Flags

structure MarketDataEvent where
  tsRecv : NanoTime := 0
  tsEvent : NanoTime := 0
  orderId : UInt64 := 0
  price : ScaledPrice := undefPrice
  instrumentId : UInt32 := 0
  publisherId : UInt32 := 0
  sequence : UInt32 := 0
  size : UInt32 := 0
  tsInDelta : ℤ := 0
  channelId : UInt16 := 0
  side : Side := .none
  rtype : RType := 0
  flags : Flags := 0
  action : Action := .none
deriving DecidableEq, Repr, Inhabited

/-- The price is not the null price. -/
def MarketDataEvent.isPriceDefined (event : MarketDataEvent) : Bool := event.price != undefPrice

inductive BookAnomaly where
  | unknownCancel
  | unknownModifyIgnored
  | unknownModifyAsAdd
  | duplicateAddReplaced
deriving DecidableEq, Repr

inductive RouterAnomaly where
  | unresolvedInstrument
deriving DecidableEq, Repr

/-- The singleton counts every call and writes one line for it; here the calls themselves are kept,
in order, and a count is the number of calls of that kind. -/
structure BookAnomalyLog where
  book : List (BookAnomaly × MarketDataEvent × String) := []
  router : List (RouterAnomaly × MarketDataEvent) := []
deriving DecidableEq, Repr, Inhabited

namespace BookAnomalyLog

def logBook (log : BookAnomalyLog) (kind : BookAnomaly) (event : MarketDataEvent)
    (component : String := "LimitOrderBook") : BookAnomalyLog :=
  { log with book := log.book ++ [(kind, event, component)] }

def logRouter (log : BookAnomalyLog) (kind : RouterAnomaly) (event : MarketDataEvent) : BookAnomalyLog :=
  { log with router := log.router ++ [(kind, event)] }

def bookCount (log : BookAnomalyLog) (kind : BookAnomaly) : ℕ :=
  log.book.countP (fun entry => entry.1 = kind)

def routerCount (log : BookAnomalyLog) (kind : RouterAnomaly) : ℕ :=
  log.router.countP (fun entry => entry.1 = kind)

end BookAnomalyLog

end BackTester
