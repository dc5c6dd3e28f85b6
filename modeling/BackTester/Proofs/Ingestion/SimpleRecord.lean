import BackTester.Proofs.Ingestion.NativeRecord
import BackTester.Proofs.Ingestion.SimpleValues

/-! # Records by their keys

The simple parser makes of a record of the schema its event, save the price, which is what the
standard library makes of the text of the price.
-/

namespace BackTester.JsonSimpleDataParser

open JsonNativeDataParser (Readable readable_hdMember readable_member sideOf_sideChar actionOf_actionChar)
open Decimal MboRecord

variable {layout : Layout} {e : MarketDataEvent}

theorem exists_first {Field : Type} [DecidableEq Field] {places : List (Place Field)} {field : Field}
    (isIn : field ∈ places.map Place.field) :
    ∃ before place after, places = before ++ place :: after ∧ place.field = field ∧
    ∀ other ∈ before, other.field ≠ field := by
  induction places with
  | nil => contradiction
  | cons place places ih =>
    by_cases here : place.field = field
    · exact ⟨[], place, places, rfl, here, fun _ isIn => absurd isIn List.not_mem_nil⟩
    · rw [List.map_cons, List.mem_cons] at isIn
      obtain ⟨before, found, after, rfl, isField, others⟩ := ih (isIn.resolve_left fun same => here same.symm)
      exact ⟨place :: before, found, after, rfl, isField, List.forall_mem_cons.mpr ⟨here, others⟩⟩

theorem searchable_key (field : Field) : Searchable field.key := by
  cases field <;> exact ⟨by decide, _, _, rfl, by decide⟩

theorem searchable_hdKey (field : HdField) : Searchable field.key := by
  cases field <;> exact ⟨by decide, _, _, rfl, by decide⟩

theorem key_ne {field other : Field} (another : other ≠ field) : other.key ≠ field.key := by
  intro same
  apply another
  cases field <;> cases other <;> first | rfl | exact absurd same (by decide)

theorem hdKey_ne {field other : HdField} (another : other ≠ field) : other.key ≠ field.key := by
  intro same
  apply another
  cases field <;> cases other <;> first | rfl | exact absurd same (by decide)

theorem hdKey_ne_key (hdField : HdField) (field : Field) : hdField.key ≠ field.key := by
  cases field <;> cases hdField <;> decide

theorem unspaced_of_readable {member : Member} (readable : Readable member) : Unspaced member.value := by
  obtain ⟨c, others, isValue, notColon⟩ := readable.value
  refine ⟨c, others, isValue, ?_⟩
  rintro rfl
  contradiction

theorem passed_hdValue {key : List UInt8} (searchable : Searchable key) (place : Place HdField) :
    Passed key (hdMember e place).value := by
  obtain ⟨field, commaSpaces, colonSpaces⟩ := place
  cases field with
  | rtype | publisherId | instrumentId => exact passed_scalars scalar_text
  | tsEvent => exact passed_quoted searchable fun isIn => absurd (scalar_timestamp e.tsEvent _ isIn) (by decide)

theorem other_hdMember {key : List UInt8} (searchable : Searchable key) {place : Place HdField}
    (another : place.field.key ≠ key) :
    Other key (hdMember e place) where
  another := another
  unquoted := (searchable_hdKey place.field).unquoted
  value := passed_hdValue searchable place

theorem passed_value {key : List UInt8} (searchable : Searchable key) (notHd : ∀ field : HdField, field.key ≠ key)
    (action : ∀ code, e.action ≠ .unnamed code) (place : Place Field) :
    Passed key (MboRecord.member layout e place).value := by
  have scalars {value : List UInt8} (areScalars : ∀ c ∈ value, c ∈ scalarChars) : Passed key (quoted value) :=
    passed_quoted searchable fun isIn => absurd (areScalars _ isIn) (by decide)
  obtain ⟨field, commaSpaces, colonSpaces⟩ := place
  dsimp only [MboRecord.member]
  cases field with
  | hd =>
    apply passed_object searchable
    intro member isIn
    obtain ⟨place, -, rfl⟩ := List.mem_map.mp isIn
    exact other_hdMember searchable (notHd place.field)
  | side => exact passed_quoted searchable (by cases e.side <;> cases layout.ask <;> decide)
  | size | flags | sequence | channelId => exact passed_scalars scalar_text
  | price =>
    dsimp only [Field.value]
    split
    · exact passed_of_not_mem (by decide)
    · exact scalars (scalar_priceText e.price)
  | action =>
    apply passed_quoted searchable
    cases isAction : e.action with
    | unnamed code => exact absurd isAction (action code)
    | add | modify | cancel | clear | trade | fill | none => decide
  | symbol => exact passed_quoted searchable layout.unquoted
  | tsRecv => exact scalars (scalar_timestamp e.tsRecv)
  | orderId => exact scalars scalar_text
  | tsInDelta => exact passed_scalars (scalar_integer e.tsInDelta)

/-- Every field is found in the line. -/
theorem findValue_line (action : ∀ code, e.action ≠ .unnamed code) (field : Field) :
    ∃ behind, Ends behind ∧ findValue (line layout e) field.key = field.value layout e ++ behind := by
  have isIn : field ∈ layout.places.map Place.field := layout.complete.mem_iff.mpr (by cases field <;> decide)
  obtain ⟨before, place, after, split, rfl, others⟩ := exists_first isIn
  have searchable := searchable_key place.field
  have ahead : ∀ other ∈ before.map (MboRecord.member layout e), Other place.field.key other := by
    intro other isIn
    obtain ⟨otherPlace, isPlace, rfl⟩ := List.mem_map.mp isIn
    exact ⟨key_ne (others otherPlace isPlace), (searchable_key otherPlace.field).unquoted,
      passed_value searchable (fun field => hdKey_ne_key field place.field) action otherPlace⟩
  have unspaced := unspaced_of_readable (readable_member layout e place)
  have found := @findValue_object (MboRecord.member layout e place) (before.map (MboRecord.member layout e))
    (after.map (MboRecord.member layout e)) searchable ahead unspaced []
  rwa [← List.map_cons, ← List.map_append, ← split, List.append_nil] at found

theorem findValue_hd (layout : Layout) (e : MarketDataEvent) (field : HdField) :
    ∃ behind, Ends behind ∧ findValue (object (layout.hdPlaces.map (hdMember e))) field.key =
      field.value e ++ behind := by
  have isIn : field ∈ layout.hdPlaces.map Place.field := layout.hdComplete.mem_iff.mpr (by cases field <;> decide)
  obtain ⟨before, place, after, split, rfl, others⟩ := exists_first isIn
  have searchable := searchable_hdKey place.field
  have ahead : ∀ other ∈ before.map (hdMember e), Other place.field.key other := by
    intro other isIn
    obtain ⟨otherPlace, isPlace, rfl⟩ := List.mem_map.mp isIn
    exact other_hdMember searchable (hdKey_ne (others otherPlace isPlace))
  have unspaced := unspaced_of_readable (readable_hdMember e place)
  have found :=
    @findValue_object (hdMember e place) (before.map (hdMember e)) (after.map (hdMember e)) searchable ahead unspaced []
  rwa [← List.map_cons, ← List.map_append, ← split, List.append_nil] at found

variable (layout)

theorem getString_line (action : ∀ code, e.action ≠ .unnamed code) (field : Field) {text : List UInt8}
    (isQuoted : field.value layout e = quoted text) (unquoted : ('"' : UInt8) ∉ text) :
    getString (line layout e) field.key = some text := by
  obtain ⟨behind, -, found⟩ := @findValue_line layout e action field
  rw [isQuoted] at found
  exact getString_of_quoted unquoted found

theorem getNumericRaw_line (action : ∀ code, e.action ≠ .unnamed code) (field : Field) {n : ℕ}
    (isText : field.value layout e = text n) : getNumericRaw (line layout e) field.key = some (text n) := by
  obtain ⟨behind, ends, found⟩ := @findValue_line layout e action field
  rw [isText] at found
  exact getNumericRaw_of_text ends found

theorem getObject_line (action : ∀ code, e.action ≠ .unnamed code) :
    getObject (line layout e) (bytes "hd") = object (layout.hdPlaces.map (hdMember e)) := by
  obtain ⟨behind, -, found⟩ := @findValue_line layout e action .hd
  have unbracedMembers : ∀ member ∈ layout.hdPlaces.map (hdMember e),
      (∀ c ∈ member.key, c ≠ '{' ∧ c ≠ '}') ∧ ∀ c ∈ member.value, c ≠ '{' ∧ c ≠ '}' := by
    intro member isIn
    obtain ⟨place, -, rfl⟩ := List.mem_map.mp isIn
    exact forall_hdMember (p := fun c => c ≠ '{' ∧ c ≠ '}') (fun field =>
      by cases field <;> decide) (by decide) (by decide) e place
  obtain ⟨between, isObject, unbraced⟩ := exists_inside (p := fun c => c ≠ '{' ∧ c ≠ '}') (by decide) unbracedMembers
  rw [Field.value, isObject] at found
  rw [isObject]
  exact getObject_of_braces unbraced found

theorem getNumericRaw_hd (e : MarketDataEvent) (field : HdField) {n : ℕ} (isText : field.value e = text n) :
    getNumericRaw (object (layout.hdPlaces.map (hdMember e))) field.key = some (text n) := by
  obtain ⟨behind, ends, found⟩ := findValue_hd layout e field
  rw [isText] at found
  exact getNumericRaw_of_text ends found

theorem isNull_line (action : ∀ code, e.action ≠ .unnamed code) :
    isNull (line layout e) (bytes "price") = decide (e.price = undefPrice) := by
  obtain ⟨behind, ends, found⟩ := @findValue_line layout e action .price
  have isFound : findValue (line layout e) (bytes "price") = Field.value layout e .price ++ behind := found
  unfold isNull
  rw [isFound, Field.value]
  by_cases undefined : e.price = undefPrice
  · rw [if_pos undefined, decide_eq_true undefined]
    exact List.isPrefixOf_iff_prefix.mpr (List.prefix_append _ _)
  · rw [if_neg undefined, decide_eq_false undefined]
    rfl

/-- What the standard library makes of the price of a record. -/
def priceRead (scaled : List UInt8 → Except (List UInt8) Int64) (price : ScaledPrice) :
    Except (List UInt8) ScaledPrice :=
  if price = undefPrice then .ok undefPrice else (scaled (priceText price)).map Int64.toInt

theorem parseLine_line {scaled : List UInt8 → Except (List UInt8) Int64} {price : ScaledPrice} (inRange : InRange e)
    (read : priceRead scaled e.price = .ok price) : parseLine scaled (line layout e) = .ok { e with price } := by
  have scalars {text : List UInt8} (areScalars : ∀ c ∈ text, c ∈ scalarChars) : ('"' : UInt8) ∉ text :=
    fun isIn => absurd (areScalars _ isIn) (by decide)
  have action := inRange.action
  have number (n : ℕ) (small : n < 2 ^ 64) := stoul_text (n := n) (bytes "stoul") small
  have tsRecv : getString (line layout e) (bytes "ts_recv") = some (timestamp e.tsRecv) :=
    getString_line layout action .tsRecv rfl (scalars (scalar_timestamp e.tsRecv))
  have tsEvent : getString (object (layout.hdPlaces.map (hdMember e))) (bytes "ts_event") =
      some (timestamp e.tsEvent) := by
    obtain ⟨behind, -, found⟩ := findValue_hd layout e .tsEvent
    exact getString_of_quoted (scalars (scalar_timestamp e.tsEvent)) found
  have rtype : getNumericRaw (object (layout.hdPlaces.map (hdMember e))) (bytes "rtype") = some (text e.rtype.toNat) :=
    getNumericRaw_hd layout e .rtype rfl
  have publisherId : getNumericRaw (object (layout.hdPlaces.map (hdMember e))) (bytes "publisher_id") =
      some (text e.publisherId.toNat) := getNumericRaw_hd layout e .publisherId rfl
  have instrumentId : getNumericRaw (object (layout.hdPlaces.map (hdMember e))) (bytes "instrument_id") =
      some (text e.instrumentId.toNat) := getNumericRaw_hd layout e .instrumentId rfl
  have isAction : getString (line layout e) (bytes "action") = some [actionChar e.action] := by
    apply getString_line layout action .action rfl
    cases named : e.action with
    | unnamed code => exact absurd named (action code)
    | add | modify | cancel | clear | trade | fill | none => decide
  have side : getString (line layout e) (bytes "side") = some [sideChar layout.ask e.side] :=
    getString_line layout action .side rfl (by cases e.side <;> cases layout.ask <;> decide)
  have size : getNumericRaw (line layout e) (bytes "size") = some (text e.size.toNat) :=
    getNumericRaw_line layout action .size rfl
  have channelId : getNumericRaw (line layout e) (bytes "channel_id") = some (text e.channelId.toNat) :=
    getNumericRaw_line layout action .channelId rfl
  have orderId : getString (line layout e) (bytes "order_id") = some (text e.orderId.toNat) :=
    getString_line layout action .orderId rfl (scalars scalar_text)
  have flags : getNumericRaw (line layout e) (bytes "flags") = some (text e.flags.toNat) :=
    getNumericRaw_line layout action .flags rfl
  have sequence : getNumericRaw (line layout e) (bytes "sequence") = some (text e.sequence.toNat) :=
    getNumericRaw_line layout action .sequence rfl
  have tsInDelta : getNumericRaw (line layout e) (bytes "ts_in_delta") = some (integer e.tsInDelta) := by
    obtain ⟨behind, ends, found⟩ := @findValue_line layout e action .tsInDelta
    exact getNumericRaw_of_integer ends found
  have number {n : ℕ} (name : List UInt8) (small : n < 2 ^ 64) : stoul name (text n) = .ok (.ofNat n) :=
    stoul_text name small
  have smallRtype : e.rtype.toNat < 2 ^ 64 := (UInt8.toNat_lt e.rtype).trans (by decide)
  have smallPublisher : e.publisherId.toNat < 2 ^ 64 := (UInt32.toNat_lt e.publisherId).trans (by decide)
  have smallInstrument : e.instrumentId.toNat < 2 ^ 64 := (UInt32.toNat_lt e.instrumentId).trans (by decide)
  have smallSize : e.size.toNat < 2 ^ 64 := (UInt32.toNat_lt e.size).trans (by decide)
  have smallChannel : e.channelId.toNat < 2 ^ 64 := (UInt16.toNat_lt e.channelId).trans (by decide)
  have smallFlags : e.flags.toNat < 2 ^ 64 := (UInt8.toNat_lt e.flags).trans (by decide)
  have smallSequence : e.sequence.toNat < 2 ^ 64 := (UInt32.toNat_lt e.sequence).trans (by decide)
  have delta : stol (integer e.tsInDelta) = .ok (.ofInt e.tsInDelta) := by
    have low := inRange.tsInDelta.1
    have high := inRange.tsInDelta.2
    exact stol_integer ⟨by linarith only [low], by linarith only [high]⟩
  have ok_bind {α β : Type} (a : α) (f : α → Except (List UInt8) β) : (Except.ok a >>= f) = f a := rfl
  unfold parseLine
  simp only [getObject_line layout action, tsRecv, tsEvent, rtype, publisherId, instrumentId,
    isAction, side, size, channelId, orderId,
    flags, sequence, tsInDelta, ifPresent, ifNonempty, parseIso8601Nanos_timestamp inRange.tsRecv,
    parseIso8601Nanos_timestamp inRange.tsEvent, number _ smallRtype, number _ smallPublisher, number _ smallInstrument,
    number _ smallSize, number _ smallChannel, number _ smallFlags, number _ smallSequence,
    number _ (UInt64.toNat_lt e.orderId), delta,
    ok_bind, pure_bind, isNull_line layout action]
  have isRtype : (UInt64.ofNat e.rtype.toNat).toUInt8 = e.rtype := by simp
  have isPublisher : (UInt64.ofNat e.publisherId.toNat).toUInt32 = e.publisherId := by simp
  have isInstrument : (UInt64.ofNat e.instrumentId.toNat).toUInt32 = e.instrumentId := by simp
  have isSize : (UInt64.ofNat e.size.toNat).toUInt32 = e.size := by simp
  have isChannel : (UInt64.ofNat e.channelId.toNat).toUInt16 = e.channelId := by simp
  have isFlags : (UInt64.ofNat e.flags.toNat).toUInt8 = e.flags := by simp
  have isSequence : (UInt64.ofNat e.sequence.toNat).toUInt32 = e.sequence := by simp
  have isDelta : (Int64.ofInt e.tsInDelta).toInt32.toInt = e.tsInDelta := by
    rw [Int64.toInt32_ofInt, Int32.toInt_ofInt_of_le inRange.tsInDelta.1 inRange.tsInDelta.2]
  have isOrder : UInt64.ofNat e.orderId.toNat = e.orderId := UInt64.ofNat_toNat
  have isTsRecv : (Int64.ofInt e.tsRecv).toInt = e.tsRecv := Int64.toInt_ofInt_of_le inRange.tsRecv.1 inRange.tsRecv.2
  have isTsEvent : (Int64.ofInt e.tsEvent).toInt = e.tsEvent :=
    Int64.toInt_ofInt_of_le inRange.tsEvent.1 inRange.tsEvent.2
  simp only [isRtype, isPublisher, isInstrument, isSize, isChannel, isFlags, isSequence,
    isDelta, isOrder, isTsRecv, isTsEvent, sideOf_sideChar, actionOf_actionChar action]
  unfold priceRead at read
  by_cases undefined : e.price = undefPrice
  · rw [if_pos undefined] at read
    rw [decide_eq_true undefined, if_pos rfl, ← Except.ok.inj read]
    rfl
  · have isPrice : getString (line layout e) (bytes "price") = some (priceText e.price) :=
      getString_line layout action .price (if_neg undefined) (scalars (scalar_priceText e.price))
    rw [if_neg undefined] at read
    rw [decide_eq_false undefined, if_neg Bool.false_ne_true, isPrice]
    dsimp only
    cases ran : scaled (priceText e.price) with
    | error failure =>
      rw [ran] at read
      cases read
    | ok value =>
      rw [ran] at read
      rw [← Except.ok.inj read]
      rfl

end BackTester.JsonSimpleDataParser
