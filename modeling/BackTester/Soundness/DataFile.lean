import BackTester.Model.Ingestion.DataFile
import BackTester.Soundness.ParserAgreement

/-! # Files through either parser

The simple parser deals with every line by itself, whatever the other lines contain. On a file of
records both parsers call back once for each line, save that the native parser refuses a record of
time 0, and a callback that throws loses no line.
-/

namespace BackTester

open MboRecord

variable {σ : Type*} {scaled : List UInt8 → Except (List UInt8) Int64} {f : Callback σ}
  {reading : FileReading σ} {layout : Layout} {e : MarketDataEvent} {text : List UInt8}

namespace JsonSimpleDataParser

theorem getline_append (isLine : ('\n' : UInt8) ∉ text) (more : List UInt8) :
    getline (text ++ ('\n' : UInt8) :: more) = some (text, more) := by
  have inside : ∀ c ∈ text, decide (c ≠ ('\n' : UInt8)) = true :=
    fun c isIn => decide_eq_true fun same => isLine (same ▸ isIn)
  unfold getline
  split
  · next isFile => exact absurd isFile (List.append_ne_nil_of_right_ne_nil _ (List.cons_ne_nil _ _))
  · next c rest isFile =>
    rw [← isFile, List.takeWhile_append_of_pos inside, List.dropWhile_append_of_pos inside]
    simp

theorem getline_last (isLine : ('\n' : UInt8) ∉ text) (nonempty : text ≠ []) : getline text = some (text, []) := by
  have inside : ∀ c ∈ text, decide (c ≠ ('\n' : UInt8)) = true :=
    fun c isIn => decide_eq_true fun same => isLine (same ▸ isIn)
  unfold getline
  split
  · contradiction
  · rw [List.takeWhile_eq_self_iff.mpr inside, List.dropWhile_eq_nil_iff.mpr inside]
    rfl

theorem readFrom_nil (fuel : ℕ) : readFrom scaled f fuel [] reading = reading := by
  cases fuel <;> rfl

/-- With more turns than bytes, the loop reads every line, each by itself. -/
theorem readFrom_eq {fuel : ℕ} {file : List UInt8} (enough : file.length < fuel) (reading : FileReading σ) :
    readFrom scaled f fuel file reading =
      (file.splitOn ('\n' : UInt8)).foldl (fun reading line => readLine scaled f line reading) reading := by
  induction fuel generalizing file reading with
  | zero => contradiction
  | succ fuel ih =>
    by_cases ends : ('\n' : UInt8) ∈ file
    · obtain ⟨line, more, rfl, isLine⟩ := List.eq_append_cons_of_mem ends
      rw [List.length_append, List.length_cons] at enough
      rw [List.splitOn_append_cons_self_of_not_mem isLine, List.foldl_cons, ← ih (by omega),
        readFrom, getline_append isLine]
    · rw [List.splitOn_eq_singleton ends, List.foldl_cons, List.foldl_nil]
      rcases eq_or_ne file [] with rfl | nonempty
      · rfl
      · rw [readFrom, getline_last ends nonempty]
        exact readFrom_nil fuel

/-- What the parser does with a file it does with the lines of the file, one by one and each by
itself: what one line contains is nothing to the others. -/
theorem parseFile_lines (path file : List UInt8) (state : σ) : parseFile scaled path (some file) f state =
    if mboJson <:+ path then
      .ok ((file.splitOn ('\n' : UInt8)).foldl (fun reading line => readLine scaled f line reading) { state })
    else .error (bytes "SimpleDataParser: unsupported format, expected .mbo.json file, got " ++ path) := by
  unfold parseFile
  by_cases isJson : mboJson <:+ path
  · rw [if_neg (not_not_intro isJson), if_pos isJson]
    dsimp only
    rw [readFrom_eq (Nat.lt_succ_self _)]
  · rw [if_pos isJson, if_neg isJson]

theorem readLine_line {price : ScaledPrice} (inRange : InRange e) (read : priceRead scaled e.price = .ok price) :
    readLine scaled f (line layout e) reading = reading.call f { e with price } := by
  unfold readLine
  rw [if_neg (by rw [line, object_eq]; exact List.cons_ne_nil _ _), parseLine_line layout inRange read]

end JsonSimpleDataParser

/-- A record is one line, if its symbol is. -/
theorem oneLine (action : ∀ code, e.action ≠ .unnamed code) (symbol : ('\n' : UInt8) ∉ layout.symbol) :
    ('\n' : UInt8) ∉ line layout e := by
  have others :=
    @printable_line layout e (fun c => c ≠ '\n') action (fun c printable isEnd => by subst isEnd; contradiction)
    fun c isIn isEnd => symbol (isEnd ▸ isIn)
  exact fun isIn => others _ isIn rfl

/-- A text of records, one on each line; the last line may lack its end. -/
def IsFile (records : List (Layout × MarketDataEvent)) (text : List UInt8) : Prop :=
  text = file records ∨ text = (file records).dropLast

theorem isFile_nil : IsFile [] text ↔ text = [] := or_self_iff

/-- The text of the other records is behind the end of the first line, if it has an end. -/
theorem IsFile.split {record : Layout × MarketDataEvent} {records : List (Layout × MarketDataEvent)}
    (isFile : IsFile (record :: records) text) : ∃ rest, text = line record.1 record.2 ++ rest ∧
      (rest = [] ∨ ∃ more, rest = ('\n' : UInt8) :: more) ∧ IsFile records rest.tail := by
  have whole : file (record :: records) = line record.1 record.2 ++ ('\n' : UInt8) :: file records := by simp [file]
  rcases isFile with rfl | rfl
  · exact ⟨('\n' : UInt8) :: file records, whole, .inr ⟨_, rfl⟩, .inl rfl⟩
  · rw [whole, List.dropLast_append_of_ne_nil (List.cons_ne_nil _ _)]
    cases records with
    | nil => exact ⟨[], rfl, .inl rfl, .inl rfl⟩
    | cons next records =>
      have more : file (next :: records) ≠ [] := by simp [file]
      rw [List.dropLast_cons_of_ne_nil more]
      exact ⟨_, rfl, .inr ⟨_, rfl⟩, .inr rfl⟩

namespace JsonNativeDataParser

/-- Blanks ahead of a turn make no difference. -/
theorem readFrom_congr (fuel : ℕ) {pos other : List UInt8} (same : pos.dropWhile isBlank = other.dropWhile isBlank) :
    readFrom f fuel pos reading = readFrom f fuel other reading := by
  cases fuel with
  | zero => rfl
  | succ fuel =>
    rw [readFrom, same]
    rfl

/-- A turn that begins at a record takes it, or refuses it for want of a time. -/
theorem parseTurn_inRange (layout : Layout) (inRange : InRange e) (rest : List UInt8) :
    parseTurn (line layout e ++ rest) =
    .ok ⟨line layout e ++ rest, rest, if e.tsRecv = 0 then .error (bytes "missing ts_recv") else .ok (narrowed e)⟩ := by
  unfold parseTurn
  rw [ndpParseLine_line layout inRange]
  by_cases noTime : e.tsRecv = 0
  · rw [if_pos noTime, if_pos noTime]
  · rw [if_neg noTime, if_neg noTime]

/-- What the native parser does with a record. -/
def readRecord (f : Callback σ) (e : MarketDataEvent) (reading : FileReading σ) : FileReading σ :=
  if e.tsRecv = 0 then reading.skip (bytes "missing ts_recv") else reading.call f (narrowed e)

/-- A turn takes one line with its end, also after an exception. -/
theorem readFrom_line (layout : Layout) (inRange : InRange e) {rest : List UInt8}
    (ends : rest = [] ∨ ∃ more, rest = ('\n' : UInt8) :: more) (fuel : ℕ) (reading : FileReading σ) :
    readFrom f (fuel + 1) (line layout e ++ rest) reading = readFrom f fuel rest.tail (readRecord f e reading) := by
  have turn := parseTurn_inRange layout inRange rest
  have isStart := @dropWhile_line layout e rest
  have goesOn (reading : FileReading σ) : readFrom f fuel rest reading = readFrom f fuel rest.tail reading := by
    rcases ends with rfl | ⟨more, rfl⟩
    · rfl
    · exact readFrom_congr fuel (List.dropWhile_cons_of_pos rfl)
  have nextLine : nextLine rest = rest.tail := by
    rcases ends with rfl | ⟨more, rfl⟩ <;> rfl
  rw [line, object_eq, List.cons_append] at isStart turn ⊢
  rw [readFrom, isStart]
  dsimp only
  rw [turn, readRecord, FileReading.call]
  by_cases noTime : e.tsRecv = 0
  · simp only [if_pos noTime, nextLine]
  · simp only [if_neg noTime]
    rcases f (narrowed e) reading.state with ⟨state, _ | what⟩
    · exact goesOn _
    · simp only [nextLine]

/-- With more turns than bytes, the loop reads every record. -/
theorem readFrom_file {records : List (Layout × MarketDataEvent)} (inRange : ∀ record ∈ records, InRange record.2)
    (isFile : IsFile records text) {fuel : ℕ} (enough : text.length < fuel) (reading : FileReading σ) :
    readFrom f fuel text reading =
      .ok (records.foldl (fun reading record => readRecord f record.2 reading) reading) := by
  induction records generalizing text fuel reading with
  | nil =>
    obtain rfl := isFile_nil.mp isFile
    obtain ⟨fuel, rfl⟩ := Nat.exists_eq_succ_of_ne_zero (Nat.ne_zero_of_lt enough)
    rfl
  | cons record records ih =>
    obtain ⟨fuel, rfl⟩ := Nat.exists_eq_succ_of_ne_zero (Nat.ne_zero_of_lt enough)
    obtain ⟨rest, rfl, ends, isRest⟩ := isFile.split
    rw [readFrom_line record.1 (inRange record List.mem_cons_self) ends, List.foldl_cons]
    refine ih (fun record isIn => inRange record (List.mem_cons_of_mem _ isIn)) isRest ?_ _
    rw [line, object_eq, List.length_append, List.length_cons] at enough
    rw [List.length_tail]
    omega

end JsonNativeDataParser

namespace JsonSimpleDataParser

/-- The first line, and the lines behind its end. -/
theorem foldl_line (isLine : ('\n' : UInt8) ∉ text) {rest : List UInt8}
    (ends : rest = [] ∨ ∃ more, rest = ('\n' : UInt8) :: more) (reading : FileReading σ) :
    ((text ++ rest).splitOn ('\n' : UInt8)).foldl (fun reading line => readLine scaled f line reading) reading =
      (rest.tail.splitOn ('\n' : UInt8)).foldl (fun reading line => readLine scaled f line reading)
        (readLine scaled f text reading) := by
  rcases ends with rfl | ⟨more, rfl⟩
  · rw [List.append_nil, List.splitOn_eq_singleton isLine]
    rfl
  · rw [List.splitOn_append_cons_self_of_not_mem isLine, List.foldl_cons, List.tail_cons]

/-- The lines of a file of records, one by one. -/
theorem foldl_file {records : List (Layout × MarketDataEvent)} (inRange : ∀ record ∈ records, InRange record.2)
    (symbols : ∀ record ∈ records, ('\n' : UInt8) ∉ record.1.symbol) {price : ScaledPrice → ScaledPrice}
    (reads : ∀ record ∈ records, priceRead scaled record.2.price = .ok (price record.2.price))
    (isFile : IsFile records text) (reading : FileReading σ) :
    (text.splitOn ('\n' : UInt8)).foldl (fun reading line => readLine scaled f line reading) reading =
      records.foldl (fun reading record => reading.call f { record.2 with price := price record.2.price }) reading := by
  induction records generalizing text reading with
  | nil =>
    obtain rfl := isFile_nil.mp isFile
    rfl
  | cons record records ih =>
    obtain ⟨rest, rfl, ends, isRest⟩ := isFile.split
    have isLine := oneLine (inRange record List.mem_cons_self).action (symbols record List.mem_cons_self)
    rw [foldl_line isLine ends, List.foldl_cons,
      readLine_line (inRange record List.mem_cons_self) (reads record List.mem_cons_self)]
    exact ih (fun record isIn => inRange record (List.mem_cons_of_mem _ isIn))
      (fun record isIn => symbols record (List.mem_cons_of_mem _ isIn))
      (fun record isIn => reads record (List.mem_cons_of_mem _ isIn)) isRest _

end JsonSimpleDataParser

/-- On every file of records, with or without an end of the last line, and whatever the callback
does, the simple parser calls it for each record, with the price that floating point makes of it,
and the native parser for each with a time, with the exact price and 16 bits of the publisher. -/
theorem parseFile_records (records : List (Layout × MarketDataEvent)) (inRange : ∀ record ∈ records, InRange record.2)
    (symbols : ∀ record ∈ records, ('\n' : UInt8) ∉ record.1.symbol) (price : ScaledPrice → ScaledPrice)
    (reads : ∀ record ∈ records, JsonSimpleDataParser.priceRead scaled record.2.price = .ok (price record.2.price))
    (path : List UInt8) (isJson : mboJson <:+ path) (text : List UInt8) (isFile : IsFile records text)
    (f : Callback σ) (state : σ) :
    JsonSimpleDataParser.parseFile scaled path (some text) f state =
        .ok (records.foldl
          (fun reading record => reading.call f { record.2 with price := price record.2.price }) { state }) ∧
      JsonNativeDataParser.parseFile path (.mapped text) f state =
        .ok (.ok (records.foldl (fun reading record =>
          if record.2.tsRecv = 0 then reading.skip (bytes "missing ts_recv")
          else reading.call f { record.2 with publisherId := record.2.publisherId.toUInt16.toUInt32 }) { state })) := by
  constructor
  · rw [JsonSimpleDataParser.parseFile_lines, if_pos isJson,
      JsonSimpleDataParser.foldl_file inRange symbols reads isFile]
  · have reads := @JsonNativeDataParser.readFrom_file σ f text records inRange isFile _ (Nat.lt_succ_self _) { state }
    unfold JsonNativeDataParser.parseFile
    rw [if_neg (not_not_intro isJson)]
    dsimp only
    split
    · next isEmpty =>
      rw [isEmpty] at reads
      exact congrArg Except.ok reads
    · rw [reads]
      rfl

/-- A callback that counts and throws every time. -/
def refusing : Callback ℕ := fun _ calls => (calls + 1, some (bytes "refused"))

def untimed : List (Layout × MarketDataEvent) :=
  [(JsonNativeDataParser.backwards, quarter), (JsonNativeDataParser.backwards, { quarter with tsRecv := 0 }),
    (JsonNativeDataParser.backwards, { quarter with publisherId := 65536 })]

/-- The last line has no end. -/
theorem parseFile_records_untimed :
    JsonSimpleDataParser.parseFile asWritten (bytes "day.mbo.json") (some (file untimed).dropLast) refusing 0 =
        .ok ⟨3, [bytes "refused", bytes "refused", bytes "refused"]⟩ ∧
      JsonNativeDataParser.parseFile (bytes "day.mbo.json") (.mapped (file untimed).dropLast) refusing 0 =
        .ok (.ok ⟨2, [bytes "refused", bytes "missing ts_recv", bytes "refused"]⟩) := by
  refine parseFile_records untimed ?_ ?_ (fun price => (JsonNativeDataParser.priceOf (priceText price)).toInt) ?_
    (bytes "day.mbo.json") (by decide) _ (.inr rfl) refusing 0
  · simp only [untimed, List.mem_cons, List.not_mem_nil, or_false]
    rintro record (rfl | rfl | rfl)
    all_goals refine ⟨?_, ?_, ?_, ?_, fun code isAction => by contradiction⟩ <;> decide
  · decide
  · simp only [untimed, List.mem_cons, List.not_mem_nil, or_false]
    rintro record (rfl | rfl | rfl) <;> rfl

end BackTester
