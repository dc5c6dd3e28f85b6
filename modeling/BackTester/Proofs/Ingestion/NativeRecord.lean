import BackTester.Proofs.Ingestion.NativeValues

/-! # Records

The loops over the two objects of a record take its fields one after the other, whatever their
order. Every field has been taken in the end, so the event is the one that was written, with the
publisher cut to the width that the parser has for it.
-/

namespace BackTester.JsonNativeDataParser

open Decimal MboRecord Scan

theorem isColon_spaces {n : ℕ} {c : UInt8} (isIn : c ∈ (':' : UInt8) :: spaces n) : isColon c = true := by
  rcases List.mem_cons.mp isIn with rfl | space
  · rfl
  · rw [List.eq_of_mem_replicate space]
    rfl

theorem isSeparator_spaces {n : ℕ} {c : UInt8} (isIn : c ∈ (',' : UInt8) :: spaces n) : isSeparator c = true := by
  rcases List.mem_cons.mp isIn with rfl | space
  · rfl
  · rw [List.eq_of_mem_replicate space]
    rfl

/-- A key without quotes and a value that does not begin like what is ahead of it. -/
structure Readable (member : Member) : Prop where
  key : ∀ c ∈ member.key, notQuote c = true
  value : ∃ c others, member.value = c :: others ∧ isColon c = false

variable {rest left separators : List UInt8} {acc after : MarketDataEvent} {member : Member}

/-- The text of a member, from behind its first quote. -/
theorem ndpKeyed_run {value : List UInt8 → MarketDataEvent → Scanner MarketDataEvent} (readable : Readable member)
    (takes : value member.key acc (member.value ++ rest) = .ok (after, rest)) :
    ndpKeyed value acc (member.key ++
      ('"' : UInt8) :: ((':' : UInt8) :: spaces member.colonSpaces ++ (member.value ++ rest))) =
      .ok (.inl after, rest) := by
  obtain ⟨c, others, isValue, notColon⟩ := readable.value
  have stops (first : UInt8) (isHead : (member.value ++ rest).head? = some first) : isColon first = false := by
    rw [isValue] at isHead
    rwa [← Option.some.inj isHead]
  unfold ndpKeyed ndpKey
  rw [bind_assoc, bind_of_ok (takeWhile_quoted readable.key _), bind_assoc, step_bind, List.tail_cons, bind_assoc,
    bind_of_ok (skipWhile_run (fun _ => isColon_spaces) stops), pure_bind, bind_of_ok takes]
  rfl

theorem skips_separators {α : Type} (separate : ∀ c ∈ separators, isSeparator c = true) (member : Member)
    (f : Unit → Scanner α) :
    (skipWhile isSeparator >>= f) (separators ++ (member.text ++ rest)) = f () (member.text ++ rest) := by
  apply bind_of_ok
  apply skipWhile_run separate
  intro c isHead
  rw [text_append] at isHead
  rw [← Option.some.inj isHead]
  rfl

theorem ndpField_member (readable : Readable member) (separate : ∀ c ∈ separators, isSeparator c = true)
    (takes : ndpValue member.key acc (member.value ++ rest) = .ok (after, rest)) :
    ndpField acc (separators ++ (member.text ++ rest)) = .ok (.inl after, rest) := by
  unfold ndpField
  rw [skips_separators separate, text_append, peek_bind, List.head?_cons]
  dsimp only
  rw [if_neg (by decide), if_neg (by decide), advance_one_bind]
  exact ndpKeyed_run readable takes

theorem ndpHdField_member (readable : Readable member) (separate : ∀ c ∈ separators, isSeparator c = true)
    (takes : ndpHdValue member.key acc (member.value ++ rest) = .ok (after, rest)) :
    ndpHdField acc (separators ++ (member.text ++ rest)) = .ok (.inl after, rest) := by
  unfold ndpHdField
  rw [skips_separators separate, text_append, peek_bind, List.head?_cons]
  dsimp only
  rw [if_neg (by decide), if_neg (by decide), advance_one_bind]
  exact ndpKeyed_run readable takes

variable {ι : Type} {item : ι → Member} {body : MarketDataEvent → Scanner (MarketDataEvent ⊕ MarketDataEvent)}
  {store : ι → MarketDataEvent → MarketDataEvent}

/-- The members behind the first one are taken one after the other. -/
theorem loop_afterComma (advances : Advances body)
    (takes : ∀ place acc separators rest, Ends rest → (∀ c ∈ separators, isSeparator c = true) →
      body acc (separators ++ ((item place).text ++ rest)) = .ok (.inl (store place acc), rest))
    (closes : ∀ acc, body acc (('}' : UInt8) :: rest) = .ok (.inr acc, left)) (places : List ι)
    (acc : MarketDataEvent) :
    loop body acc ((places.map item).flatMap Member.afterComma ++ ('}' : UInt8) :: rest) =
      .ok (places.foldl (fun acc place => store place acc) acc, left) := by
  induction places generalizing acc with
  | nil => exact loop_leave (closes acc)
  | cons place places ih =>
    rw [List.map_cons, List.flatMap_cons, List.append_assoc, Member.afterComma, List.append_assoc]
    rw [loop_continue advances (takes place acc _ _ (ends_afterComma _ rest) fun _ => isSeparator_spaces)]
    exact ih _

theorem loop_interior (advances : Advances body)
    (takes : ∀ place acc separators rest, Ends rest → (∀ c ∈ separators, isSeparator c = true) →
      body acc (separators ++ ((item place).text ++ rest)) = .ok (.inl (store place acc), rest))
    (closes : ∀ acc, body acc (('}' : UInt8) :: rest) = .ok (.inr acc, left)) (places : List ι)
    (acc : MarketDataEvent) :
    loop body acc (interior (places.map item) ++ rest) =
      .ok (places.foldl (fun acc place => store place acc) acc, left) := by
  cases places with
  | nil => exact loop_leave (closes acc)
  | cons place places =>
    have others := loop_afterComma advances takes closes places (store place acc)
    rw [List.map_cons, MboRecord.interior, List.append_assoc, List.append_assoc, List.singleton_append]
    have first :=
      takes place acc [] _ (ends_afterComma (places.map item) rest) (fun c isIn => absurd isIn List.not_mem_nil)
    rw [List.nil_append] at first
    rw [loop_continue advances first]
    exact others

variable (layout : Layout) {e : MarketDataEvent}

theorem readable_text (key : List UInt8) (isKey : ∀ c ∈ key, notQuote c = true) (n commaSpaces colonSpaces : ℕ) :
    Readable ⟨key, text n, commaSpaces, colonSpaces⟩ := by
  obtain ⟨d, others, small, isText⟩ := exists_text_eq_cons n
  refine ⟨isKey, digit d, others, isText, ?_⟩
  interval_cases d <;> rfl

theorem notQuote_hdKey (field : HdField) : ∀ c ∈ field.key, notQuote c = true := by
  cases field <;> decide

theorem readable_hdMember (e : MarketDataEvent) (place : Place HdField) : Readable (hdMember e place) := by
  obtain ⟨field, commaSpaces, colonSpaces⟩ := place
  have isKey := notQuote_hdKey field
  cases field with
  | rtype | publisherId | instrumentId => exact readable_text _ isKey _ _ _
  | tsEvent => exact ⟨isKey, _, _, rfl, rfl⟩

/-- What the parser stores for a field of the nested object. -/
def hdStore (e : MarketDataEvent) (place : Place HdField) (acc : MarketDataEvent) : MarketDataEvent :=
  match place.field with
  | .rtype => { acc with rtype := e.rtype }
  | .tsEvent => { acc with tsEvent := e.tsEvent }
  | .publisherId => { acc with publisherId := e.publisherId.toUInt16.toUInt32 }
  | .instrumentId => { acc with instrumentId := e.instrumentId }

theorem ndpHdValue_field (inRange : InRange e) (field : HdField) (commaSpaces colonSpaces : ℕ) (acc : MarketDataEvent)
    (ends : Ends rest) :
    ndpHdValue field.key acc (field.value e ++ rest) = .ok (hdStore e ⟨field, commaSpaces, colonSpaces⟩ acc, rest) := by
  cases field with
  | rtype =>
    have run := ndpNumber_text (fun v => { acc with rtype := v.toUInt8 }) acc e.rtype.toNat ends
    rwa [show (UInt32.ofNat e.rtype.toNat).toUInt8 = e.rtype by simp] at run
  | tsEvent =>
    have run := ndpTimestamp_quoted (fun nanos => { acc with tsEvent := nanos.toInt }) acc inRange.tsEvent rest
    rwa [Int64.toInt_ofInt_of_le inRange.tsEvent.1 inRange.tsEvent.2] at run
  | publisherId =>
    have run := ndpNumber_text (fun v => { acc with publisherId := v.toUInt16.toUInt32 }) acc e.publisherId.toNat ends
    rwa [UInt32.ofNat_toNat] at run
  | instrumentId =>
    have run := ndpNumber_text (fun v => { acc with instrumentId := v }) acc e.instrumentId.toNat ends
    rwa [UInt32.ofNat_toNat] at run

theorem ndpParseHd_object (inRange : InRange e) (places : List (Place HdField))
    (acc : MarketDataEvent) (rest : List UInt8) :
    ndpParseHd acc (object (places.map (hdMember e)) ++ rest) =
      .ok (places.foldl (fun acc place => hdStore e place acc) acc, rest) := by
  rw [object_eq, List.cons_append]
  unfold ndpParseHd
  rw [peek_bind, List.head?_cons, if_pos rfl, advance_one_bind]
  apply loop_interior advances_ndpHdField
  · intro place acc separators rest ends separate
    exact ndpHdField_member (readable_hdMember e place) separate
      (ndpHdValue_field inRange place.field place.commaSpaces place.colonSpaces acc ends)
  · exact fun _ => rfl

/-- What the fields that have been taken so far make of an event. -/
def hdTaken (e : MarketDataEvent) (taken : HdField → Prop) [DecidablePred taken] (acc : MarketDataEvent) :
    MarketDataEvent :=
  { acc with
    rtype := if taken .rtype then e.rtype else acc.rtype
    tsEvent := if taken .tsEvent then e.tsEvent else acc.tsEvent
    publisherId := if taken .publisherId then e.publisherId.toUInt16.toUInt32 else acc.publisherId
    instrumentId := if taken .instrumentId then e.instrumentId else acc.instrumentId }

theorem foldl_hdStore (e : MarketDataEvent) (places : List (Place HdField)) (acc : MarketDataEvent) :
    places.foldl (fun acc place => hdStore e place acc) acc = hdTaken e (· ∈ places.map Place.field) acc := by
  induction places using List.reverseRecOn with
  | nil => rfl
  | append_singleton places place ih =>
    rw [List.foldl_append, ih, List.foldl_cons, List.foldl_nil]
    obtain ⟨field, commaSpaces, colonSpaces⟩ := place
    cases field <;> simp [hdStore, hdTaken]

theorem hdTaken_all (e acc : MarketDataEvent) {fields : List HdField} (complete : fields.Perm HdField.all) :
    hdTaken e (· ∈ fields) acc =
      { acc with
        rtype := e.rtype
        tsEvent := e.tsEvent
        publisherId := e.publisherId.toUInt16.toUInt32
        instrumentId := e.instrumentId } := by
  simp [hdTaken, complete.mem_iff, HdField.all]

theorem notQuote_key (field : Field) : ∀ c ∈ field.key, notQuote c = true := by
  cases field <;> decide

theorem readable_member (e : MarketDataEvent) (place : Place Field) : Readable (MboRecord.member layout e place) := by
  obtain ⟨field, commaSpaces, colonSpaces⟩ := place
  have isKey := notQuote_key field
  cases field with
  | size | flags | sequence | channelId => exact readable_text _ isKey _ _ _
  | side | action | symbol | tsRecv | orderId => exact ⟨isKey, _, _, rfl, rfl⟩
  | hd => exact ⟨isKey, _, _, object_eq _, rfl⟩
  | price =>
    refine ⟨isKey, ?_⟩
    dsimp only [MboRecord.member, Field.value]
    split
    · exact ⟨_, _, rfl, rfl⟩
    · exact ⟨_, _, rfl, rfl⟩
  | tsInDelta =>
    refine ⟨isKey, ?_⟩
    dsimp only [MboRecord.member, Field.value, integer]
    split
    · exact ⟨_, _, rfl, rfl⟩
    · exact (readable_text _ isKey e.tsInDelta.natAbs commaSpaces colonSpaces).value

/-- What the parser stores for a field of the outer object. -/
def fieldStore (e : MarketDataEvent) (place : Place Field) (acc : MarketDataEvent) : MarketDataEvent :=
  match place.field with
  | .hd =>
    { acc with
      rtype := e.rtype
      tsEvent := e.tsEvent
      publisherId := e.publisherId.toUInt16.toUInt32
      instrumentId := e.instrumentId }
  | .side => { acc with side := e.side }
  | .size => { acc with size := e.size }
  | .price => if e.price = undefPrice then acc else { acc with price := e.price }
  | .flags => { acc with flags := e.flags }
  | .action => { acc with action := e.action }
  | .symbol => acc
  | .tsRecv => { acc with tsRecv := e.tsRecv }
  | .orderId => { acc with orderId := e.orderId }
  | .sequence => { acc with sequence := e.sequence }
  | .channelId => { acc with channelId := e.channelId }
  | .tsInDelta => { acc with tsInDelta := e.tsInDelta }

theorem sideOf_sideChar (ask : Bool) (side : Side) : Side.ofChar (sideChar ask side) = side := by
  cases side <;> cases ask <;> rfl

theorem actionOf_actionChar {action : Action} (named : ∀ code, action ≠ .unnamed code) :
    Action.ofChar (actionChar action) = action := by
  cases action with
  | unnamed code => exact absurd rfl (named code)
  | add | modify | cancel | clear | trade | fill | none => rfl

theorem ndpValue_key (acc : MarketDataEvent) (field : Field) : ndpValue field.key acc = fieldScanner acc field := by
  cases field <;> rfl

theorem ndpValue_field (inRange : InRange e) (field : Field) (commaSpaces colonSpaces : ℕ) (acc : MarketDataEvent)
    (ends : Ends rest) :
    ndpValue field.key acc (field.value layout e ++ rest) =
      .ok (fieldStore e ⟨field, commaSpaces, colonSpaces⟩ acc, rest) := by
  rw [ndpValue_key]
  cases field with
  | hd =>
    have run := ndpParseHd_object inRange layout.hdPlaces acc rest
    rwa [foldl_hdStore, hdTaken_all e acc layout.hdComplete] at run
  | side =>
    have run := ndpLetter_quoted (fun c => { acc with side := .ofChar c }) acc (sideChar layout.ask e.side) rest
    rwa [sideOf_sideChar] at run
  | size =>
    have run := ndpNumber_text (fun v => { acc with size := v }) acc e.size.toNat ends
    rwa [UInt32.ofNat_toNat] at run
  | price =>
    dsimp only [Field.value, fieldStore]
    split
    · exact ndpPrice_null acc rest
    · exact ndpPrice_quoted acc inRange.price rest
  | flags =>
    have run := ndpNumber_text (fun v => { acc with flags := v.toUInt8 }) acc e.flags.toNat ends
    rwa [show (UInt32.ofNat e.flags.toNat).toUInt8 = e.flags by simp] at run
  | action =>
    have run := ndpLetter_quoted (fun c => { acc with action := .ofChar c }) acc (actionChar e.action) rest
    rwa [actionOf_actionChar inRange.action] at run
  | symbol => exact ndpSkip_quoted acc (notQuote_of_not_mem layout.unquoted) rest
  | tsRecv =>
    have run := ndpTimestamp_quoted (fun nanos => { acc with tsRecv := nanos.toInt }) acc inRange.tsRecv rest
    rwa [Int64.toInt_ofInt_of_le inRange.tsRecv.1 inRange.tsRecv.2] at run
  | orderId =>
    have run := ndpOrderId_quoted acc e.orderId.toNat rest
    rwa [UInt64.ofNat_toNat] at run
  | sequence =>
    have run := ndpNumber_text (fun v => { acc with sequence := v }) acc e.sequence.toNat ends
    rwa [UInt32.ofNat_toNat] at run
  | channelId =>
    have run := ndpNumber_text (fun v => { acc with channelId := v.toUInt16 }) acc e.channelId.toNat ends
    rwa [show (UInt32.ofNat e.channelId.toNat).toUInt16 = e.channelId by simp] at run
  | tsInDelta => exact ndpTsInDelta_integer acc inRange.tsInDelta ends

def fieldsTaken (e : MarketDataEvent) (taken : Field → Prop) [DecidablePred taken] : MarketDataEvent where
  tsRecv := if taken .tsRecv then e.tsRecv else 0
  tsEvent := if taken .hd then e.tsEvent else 0
  orderId := if taken .orderId then e.orderId else 0
  price := if taken .price then e.price else undefPrice
  instrumentId := if taken .hd then e.instrumentId else 0
  publisherId := if taken .hd then e.publisherId.toUInt16.toUInt32 else 0
  sequence := if taken .sequence then e.sequence else 0
  size := if taken .size then e.size else 0
  tsInDelta := if taken .tsInDelta then e.tsInDelta else 0
  channelId := if taken .channelId then e.channelId else 0
  side := if taken .side then e.side else .none
  rtype := if taken .hd then e.rtype else 0
  flags := if taken .flags then e.flags else 0
  action := if taken .action then e.action else .none

theorem foldl_fieldStore (e : MarketDataEvent) (places : List (Place Field)) :
    places.foldl (fun acc place => fieldStore e place acc) {} = fieldsTaken e (· ∈ places.map Place.field) := by
  induction places using List.reverseRecOn with
  | nil => rfl
  | append_singleton places place ih =>
    rw [List.foldl_append, ih, List.foldl_cons, List.foldl_nil]
    obtain ⟨field, commaSpaces, colonSpaces⟩ := place
    cases field with
    | price =>
      by_cases undefined : e.price = undefPrice <;> simp [fieldStore, fieldsTaken, undefined]
    | hd | side | size | flags | action | symbol | tsRecv | orderId | sequence | channelId | tsInDelta =>
      simp [fieldStore, fieldsTaken]

/-- The event with its publisher as the parser has it. -/
def narrowed (e : MarketDataEvent) : MarketDataEvent := { e with publisherId := e.publisherId.toUInt16.toUInt32 }

theorem fieldsTaken_all (e : MarketDataEvent) {fields : List Field} (complete : fields.Perm Field.all) :
    fieldsTaken e (· ∈ fields) = narrowed e := by
  simp [fieldsTaken, narrowed, complete.mem_iff, Field.all]

/-- A record is read as its event, up to its closing brace, and refused if it has no time. -/
theorem ndpParseLine_line (inRange : InRange e) (rest : List UInt8) : ndpParseLine (line layout e ++ rest) =
    if e.tsRecv = 0 then .error (.thrown (bytes "missing ts_recv") rest) else .ok (narrowed e, rest) := by
  have runs : loop ndpField {} (interior (layout.places.map (MboRecord.member layout e)) ++ rest) =
      .ok (narrowed e, ('}' : UInt8) :: rest) := by
    rw [← fieldsTaken_all e layout.complete, ← foldl_fieldStore]
    apply loop_interior advances_ndpField
    · intro place acc separators rest ends separate
      exact ndpField_member (readable_member layout e place) separate
        (ndpValue_field layout inRange place.field place.commaSpaces place.colonSpaces acc ends)
    · exact fun _ => rfl
  have closes : ndpClose (('}' : UInt8) :: rest) = .ok ((), rest) := by
    unfold ndpClose
    rw [peek_bind, List.head?_cons, if_pos rfl, ← bind_pure (advance 1), advance_one_bind]
    rfl
  rw [line, object_eq, List.cons_append]
  unfold ndpParseLine
  rw [peek_bind, List.head?_cons, if_pos rfl, advance_one_bind, bind_of_ok runs, bind_of_ok closes]
  change (if e.tsRecv = 0 then throwing (bytes "missing ts_recv")
    else pure (narrowed e) : Scanner MarketDataEvent) rest = _
  split <;> rfl

end BackTester.JsonNativeDataParser
