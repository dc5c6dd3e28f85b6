import BackTester.Proofs.Ingestion.NativeRecord
import BackTester.Soundness.NativeSafety

/-! # Reading what was written

The native parser calls back once for each line of a file of records, with the event of the line.
-/

namespace BackTester.JsonNativeDataParser

open MboRecord Scan

variable {layout : Layout} {e : MarketDataEvent}

/-- Blanks ahead of a turn make no difference. -/
theorem turnsFrom_congr (fuel : ℕ) {pos other : List UInt8} (same : pos.dropWhile isBlank = other.dropWhile isBlank) :
    turnsFrom fuel pos = turnsFrom fuel other := by
  cases fuel with
  | zero => rfl
  | succ fuel =>
    unfold turnsFrom
    rw [same]

theorem narrowed_eq (narrow : e.publisherId.toNat < 65536) : narrowed e = e := by
  have same : e.publisherId.toUInt16.toUInt32 = e.publisherId := by
    apply UInt32.toNat_inj.mp
    rw [UInt16.toNat_toUInt32, UInt32.toNat_toUInt16]
    exact Nat.mod_eq_of_lt narrow
  unfold narrowed
  rw [same]

/-- A turn that begins at a record takes it. -/
theorem parseTurn_line (layout : Layout) (encodable : Encodable e) (rest : List UInt8) :
    parseTurn (line layout e ++ rest) = .ok ⟨line layout e ++ rest, rest, .ok e⟩ := by
  unfold parseTurn
  rw [ndpParseLine_line layout encodable.inRange, if_neg encodable.hasTime, narrowed_eq encodable.publisherId]

theorem dropWhile_line (rest : List UInt8) : (line layout e ++ rest).dropWhile isBlank = line layout e ++ rest := by
  rw [line, object_eq, List.cons_append, List.dropWhile_cons_of_neg (by decide)]

/-- With more turns than bytes, there is one turn for each record. -/
theorem turnsFrom_file (records : List (Layout × MarketDataEvent)) (encodable : ∀ record ∈ records, Encodable record.2)
    (fuel : ℕ) (enough : (file records).length < fuel) :
    (turnsFrom fuel (file records)).failure = none ∧
      (turnsFrom fuel (file records)).turns.map Turn.outcome = records.map fun record => .ok record.2 := by
  induction records generalizing fuel with
  | nil =>
    obtain ⟨fuel, rfl⟩ := Nat.exists_eq_succ_of_ne_zero (Nat.ne_zero_of_lt enough)
    exact ⟨rfl, rfl⟩
  | cons record records ih =>
    obtain ⟨fuel, rfl⟩ := Nat.exists_eq_succ_of_ne_zero (Nat.ne_zero_of_lt enough)
    have shape : file (record :: records) = line record.1 record.2 ++ ('\n' : UInt8) :: file records := by
      simp [file]
    have first := parseTurn_line record.1 (encodable record List.mem_cons_self) (('\n' : UInt8) :: file records)
    have isStart := @dropWhile_line record.1 record.2 (('\n' : UInt8) :: file records)
    rw [shape, List.length_append, List.length_cons] at enough
    obtain ⟨completes, outcomes⟩ :=
      ih (fun record isIn => encodable record (List.mem_cons_of_mem _ isIn)) fuel (by omega)
    rw [shape]
    rw [line, object_eq, List.cons_append] at isStart first ⊢
    unfold turnsFrom
    rw [isStart]
    dsimp only
    rw [first]
    have next : turnsFrom fuel (('\n' : UInt8) :: file records) = turnsFrom fuel (file records) :=
      turnsFrom_congr fuel (List.dropWhile_cons_of_pos rfl)
    dsimp only [Turn.next, Run.after]
    rw [next]
    exact ⟨completes, by rw [List.map_cons, outcomes]; rfl⟩

/-- The callback is called once for each line, in their order, with the event that the line was written for. -/
theorem parseInner_file (records : List (Layout × MarketDataEvent))
    (encodable : ∀ record ∈ records, Encodable record.2) :
    (parseInner (file records)).failure = none ∧
      (parseInner (file records)).turns.map Turn.outcome = records.map fun record => .ok record.2 :=
  turnsFrom_file records encodable _ (Nat.lt_succ_self _)

/-- The fields the other way round, with a space behind every comma. -/
def backwards : Layout where
  places := Field.all.reverse.map fun field => ⟨field, 1, 0⟩
  hdPlaces := HdField.all.reverse.map fun field => ⟨field, 1, 0⟩
  complete := by decide
  hdComplete := by decide
  symbol := bytes "FCEU SI"
  unquoted := by decide
  ask := true

/-- A sell order of the year 2026, and one without a price. -/
def twoRecords : List (Layout × MarketDataEvent) :=
  [(backwards,
      { tsRecv := 1775001621480470598, tsEvent := 1775001621480454469, orderId := 1, price := -250000000,
        side := .sell, action := .add, publisherId := 101 }),
    (backwards, { tsRecv := 1775001621480541935, action := .clear })]

theorem parseInner_file_twoRecords : (parseInner (file twoRecords)).failure = none ∧
    (parseInner (file twoRecords)).turns.map Turn.outcome = twoRecords.map fun record => .ok record.2 := by
  apply parseInner_file twoRecords
  intro record isIn
  simp only [twoRecords, List.mem_cons, List.not_mem_nil, or_false] at isIn
  rcases isIn with rfl | rfl
  · refine ⟨?_, ?_, by decide, by decide, by decide, by decide, nofun⟩ <;> rw [startOfYear_1678, startOfYear_2262]
    · decide
    · decide
  · refine ⟨?_, ?_, by decide, by decide, by decide, by decide, nofun⟩ <;> rw [startOfYear_1678, startOfYear_2262]
    · decide
    · decide

end BackTester.JsonNativeDataParser
