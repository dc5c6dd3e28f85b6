import BackTester.Proofs.Ingestion.SimpleRecord
import BackTester.Soundness.NativeDecode

/-! # The two parsers

On a record of the schema the parsers return the same event, save its price, unless its publisher
needs more than 16 bits, which the native parser cuts off, or its time is 0, for which the native
parser refuses the record.
-/

namespace BackTester

open MboRecord

/-- The conversion succeeds on the numerals of prices. -/
def ReadsPrices (scaled : List UInt8 → Except (List UInt8) Int64) : Prop :=
  ∀ price : ScaledPrice, -2 ^ 63 ≤ price → price < 2 ^ 63 → ∃ value, scaled (priceText price) = .ok value

/-- Both parsers succeed on the line, with events that are equal in every field other than the price. -/
def ParsersAgree (scaled : List UInt8 → Except (List UInt8) Int64) (line : List UInt8) : Prop :=
  ∃ native rest simple, JsonNativeDataParser.ndpParseLine line = .ok (native, rest) ∧
    JsonSimpleDataParser.parseLine scaled line = .ok simple ∧ { native with price := simple.price } = simple

theorem exists_priceRead {scaled : List UInt8 → Except (List UInt8) Int64} (reads : ReadsPrices scaled)
    {e : MarketDataEvent}
    (inRange : InRange e) : ∃ price, JsonSimpleDataParser.priceRead scaled e.price = .ok price := by
  unfold JsonSimpleDataParser.priceRead
  split
  · exact ⟨_, rfl⟩
  · obtain ⟨value, read⟩ := reads e.price inRange.price.1 inRange.price.2
    exact ⟨value.toInt, by rw [read]; rfl⟩

theorem narrow_iff (publisherId : UInt32) : publisherId.toUInt16.toUInt32 = publisherId ↔
    publisherId.toNat < 65536 := by
  rw [← UInt32.toNat_inj, UInt16.toNat_toUInt32, UInt32.toNat_toUInt16]
  exact Nat.mod_eq_iff_lt (by decide)

/-- The parsers agree on a record exactly if its publisher has 16 bits and its time is not 0. -/
theorem parsersAgree_iff (scaled : List UInt8 → Except (List UInt8) Int64) (reads : ReadsPrices scaled)
    (layout : Layout) (e : MarketDataEvent) (inRange : InRange e) :
    ParsersAgree scaled (line layout e) ↔ e.publisherId.toNat < 65536 ∧ e.tsRecv ≠ 0 := by
  obtain ⟨price, read⟩ := exists_priceRead reads inRange
  have native := JsonNativeDataParser.ndpParseLine_line layout inRange []
  have simple := JsonSimpleDataParser.parseLine_line layout inRange read
  rw [List.append_nil] at native
  unfold ParsersAgree
  rw [native, simple]
  constructor
  · rintro ⟨nativeEvent, rest, simpleEvent, isNative, isSimple, same⟩
    split at isNative
    · contradiction
    · next hasTime =>
      obtain ⟨rfl, -⟩ := Prod.mk.inj (Except.ok.inj isNative)
      obtain rfl := Except.ok.inj isSimple
      refine ⟨(narrow_iff e.publisherId).mp ?_, hasTime⟩
      exact congrArg MarketDataEvent.publisherId same
  · rintro ⟨narrow, hasTime⟩
    refine ⟨JsonNativeDataParser.narrowed e, [], { e with price }, if_neg hasTime, rfl, ?_⟩
    unfold JsonNativeDataParser.narrowed
    rw [(narrow_iff e.publisherId).mpr narrow]

/-- The price as it is written. For a quarter, floating point makes the same of it. -/
def asWritten (text : List UInt8) : Except (List UInt8) Int64 := .ok (JsonNativeDataParser.priceOf text)

theorem asWritten_readsPrices : ReadsPrices asWritten :=
  fun price _ _ => ⟨JsonNativeDataParser.priceOf (priceText price), rfl⟩

def quarter : MarketDataEvent :=
  { tsRecv := 1775001621480470598, tsEvent := 1775001621480454469, price := 250000000,
    side := .sell, action := .add, publisherId := 101 }

theorem parsersAgree_iff_quarter : ParsersAgree asWritten (line JsonNativeDataParser.backwards quarter) := by
  have inRange : InRange quarter := by
    refine ⟨?_, ?_, ?_, ?_, nofun⟩ <;> decide
  exact (parsersAgree_iff asWritten asWritten_readsPrices JsonNativeDataParser.backwards quarter inRange).mpr
    ⟨by decide, by decide⟩

/-- A publisher of 17 bits. -/
def widePublisher : MarketDataEvent := { quarter with publisherId := 65536 }

theorem not_parsersAgree :
    ¬∀ scaled, ReadsPrices scaled → ∀ layout e, InRange e → ParsersAgree scaled (line layout e) := by
  intro agree
  have inRange : InRange widePublisher := by
    refine ⟨?_, ?_, ?_, ?_, nofun⟩ <;> decide
  obtain ⟨native, rest, simple, isNative, isSimple, same⟩ :=
    agree asWritten asWritten_readsPrices JsonNativeDataParser.backwards widePublisher inRange
  have read := JsonNativeDataParser.ndpParseLine_line JsonNativeDataParser.backwards inRange []
  obtain ⟨price, isPrice⟩ := exists_priceRead asWritten_readsPrices inRange
  have alsoRead := JsonSimpleDataParser.parseLine_line JsonNativeDataParser.backwards inRange isPrice
  rw [List.append_nil, isNative, if_neg (by decide)] at read
  rw [isSimple] at alsoRead
  obtain ⟨rfl, -⟩ := Prod.mk.inj (Except.ok.inj read)
  obtain rfl := Except.ok.inj alsoRead
  have publisher : widePublisher.publisherId.toUInt16.toUInt32 = widePublisher.publisherId :=
    congrArg MarketDataEvent.publisherId same
  exact absurd publisher (by decide)

end BackTester
