import BackTester.Proofs.Ingestion.NativeStops
import BackTester.Proofs.Ingestion.RecordText
import BackTester.Soundness.NativeDecode
import Mathlib.Data.List.TakeWhile

/-! # Records among other lines

A record is delivered, whatever stands on the lines behind it, exactly if every object that begins
on the lines ahead of it is closed or refused there. An object that is left open goes on over the
end of its line and takes the record for a part of itself.
-/

namespace BackTester.JsonNativeDataParser

open MboRecord Scan

/-- With more turns than bytes, more turns make no difference. -/
theorem turnsFrom_eq {fuel other : ℕ} {pos : List UInt8} (enough : pos.length < fuel) (alike : pos.length < other) :
    turnsFrom fuel pos = turnsFrom other pos := by
  induction fuel generalizing other pos with
  | zero => contradiction
  | succ fuel ih =>
    obtain ⟨other, rfl⟩ := Nat.exists_eq_succ_of_ne_zero (Nat.ne_zero_of_lt alike)
    unfold turnsFrom
    have shorter := (List.dropWhile_suffix isBlank : pos.dropWhile isBlank <:+ pos).length_le
    cases isStart : pos.dropWhile isBlank with
    | nil => rfl
    | cons c line =>
      dsimp only
      rw [isStart] at shorter
      cases ran : parseTurn (c :: line) with
      | error failure => rfl
      | ok turn =>
        have less := (parseTurn_spec (List.cons_ne_nil c line) ran).2.2.2
        have same : turnsFrom fuel turn.next = turnsFrom other turn.next := ih (by omega) (by omega)
        dsimp only
        rw [same]

variable {pos line before after more : List UInt8} {c : UInt8} {turn : Turn}

theorem parseInner_turn (isStart : pos.dropWhile isBlank = c :: line) (ran : parseTurn (c :: line) = .ok turn) :
    parseInner pos = (parseInner turn.next).after turn := by
  have shorter := (List.dropWhile_suffix isBlank : pos.dropWhile isBlank <:+ pos).length_le
  have less := (parseTurn_spec (List.cons_ne_nil c line) ran).2.2.2
  rw [isStart] at shorter
  unfold parseInner
  rw [turnsFrom, isStart]
  dsimp only
  rw [ran]
  dsimp only
  rw [turnsFrom_eq (by omega) (Nat.lt_succ_self _)]

theorem parseInner_failure {failure : ScanFailure UInt8 (List UInt8)} (isStart : pos.dropWhile isBlank = c :: line)
    (ran : parseTurn (c :: line) = .error failure) : parseInner pos = ⟨[], some failure⟩ := by
  unfold parseInner
  rw [turnsFrom, isStart]
  dsimp only
  rw [ran]

theorem start_suffix (isIn : turn ∈ (parseInner pos).turns) : turn.start <:+ pos := (inside_turnsFrom _ pos turn isIn).1

/-- Every scan that begins in the text comes to a stop in it, ahead of its end. -/
def Closed (text : List UInt8) : Prop :=
  ∀ pos c line, TurnsAt text pos → pos.dropWhile isBlank = c :: line →
    ∃ rest, stop (ndpParseLine (c :: line)) = some rest ∧ rest ≠ []

/-- Empty, or up to the end of a line. -/
def EndsLine (text : List UInt8) : Prop := ∀ c, text.getLast? = some c → c = '\n'

theorem EndsLine.suffix (ends : EndsLine before) (suffix : pos <:+ before) : EndsLine pos := by
  obtain ⟨ahead, rfl⟩ := suffix
  intro c isLast
  apply ends c
  rw [List.getLast?_append, isLast]
  rfl

theorem EndsLine.mem (ends : EndsLine before) (nonempty : before ≠ []) : ('\n' : UInt8) ∈ before := by
  have isLast := List.getLast?_eq_some_getLast nonempty
  rw [← ends _ isLast]
  exact List.getLast_mem nonempty

theorem nextLine_append (ends : EndsLine before) (nonempty : before ≠ []) :
    nextLine (before ++ more) = nextLine before ++ more := by
  have stops : before.dropWhile (fun c : UInt8 => c ≠ '\n') ≠ [] := by
    intro isEnd
    have := List.dropWhile_eq_nil_iff.mp isEnd _ (ends.mem nonempty)
    simp at this
  unfold nextLine
  rw [List.dropWhile_append, if_neg (by rwa [List.isEmpty_iff]), List.tail_append_of_ne_nil stops]

theorem next_suffix {start : List UInt8} (nonempty : start ≠ []) (ran : parseTurn start = .ok turn) :
    turn.next <:+ start := by
  have rest := (parseTurn_spec nonempty ran).2.2.1
  unfold Turn.next
  split
  · exact rest
  · exact (nextLine_suffix _).trans rest

/-- A turn that stops ahead of the end of its text does the same with more behind. -/
theorem parseTurn_append {start rest : List UInt8} (more : List UInt8) (ends : EndsLine start)
    (stops : stop (ndpParseLine start) = some rest) (apart : rest ≠ []) : ∃ turn, parseTurn start = .ok turn ∧
      ∃ longer, parseTurn (start ++ more) = .ok longer ∧ longer.start = start ++ more ∧
      longer.next = turn.next ++ more := by
  have same := local_ndpParseLine.within start more rest stops apart
  have suffix := local_ndpParseLine.suffix start rest stops
  unfold parseTurn
  rw [same]
  match run : ndpParseLine start with
  | .ok (e, left) => exact ⟨_, rfl, _, rfl, rfl, rfl⟩
  | .error (.thrown what left) =>
    rw [run] at stops
    obtain rfl := Option.some.inj stops
    exact ⟨_, rfl, _, rfl, rfl, nextLine_append (ends.suffix suffix) apart⟩
  | .error .outside => rw [run] at stops; contradiction
  | .error .outOfFuel => rw [run] at stops; contradiction

/-- A scan that comes to the end of its text does not stop right behind it, at the beginning of a record. -/
theorem next_of_open {start : List UInt8} {others : List UInt8} (nonempty : start ≠ []) (ends : EndsLine start)
    (isOpen : ∀ rest, stop (ndpParseLine start) = some rest → rest = [])
    (ran : parseTurn (start ++ ('{' : UInt8) :: others) = .ok turn) :
    turn.next.length < (('{' : UInt8) :: others).length := by
  obtain ⟨-, stops, -, -⟩ := parseTurn_spec (List.append_ne_nil_of_left_ne_nil nonempty _) ran
  have inside := local_ndpParseLine.across start (('{' : UInt8) :: others) isOpen turn.rest stops
  have apart : turn.rest ≠ ('{' : UInt8) :: others := by
    intro isRecord
    rw [isRecord] at stops
    rcases stops_ndpParseLine stops with ⟨-, same⟩ | atQuote | behindBrace
    · have lengths := congrArg List.length same
      have := List.length_pos_of_ne_nil nonempty
      rw [List.length_append] at lengths
      omega
    · rcases atQuote with isEnd | isQuote
      · contradiction
      · exact absurd (Option.some.inj isQuote) (by decide)
    · -- what is ahead of the record is the end of a line, not a brace
      obtain ⟨init, isLast⟩ : ∃ init, start = init ++ [('\n' : UInt8)] :=
        ⟨start.dropLast, by
          rw [← ends _ (List.getLast?_eq_some_getLast nonempty), List.dropLast_append_getLast nonempty]⟩
      have lineEnd : ('\n' : UInt8) :: ('{' : UInt8) :: others <:+ start ++ ('{' : UInt8) :: others :=
        ⟨init, by simp [isLast]⟩
      have same := (List.suffix_of_suffix_length_le behindBrace lineEnd le_rfl).eq_of_length rfl
      exact absurd (List.cons.inj same).1 (by decide)
  have less : turn.rest.length < (('{' : UInt8) :: others).length := by
    refine Nat.lt_of_le_of_ne inside.length_le fun lengths => apart (inside.eq_of_length lengths)
  have later : turn.next.length ≤ turn.rest.length := by
    unfold Turn.next
    split
    · exact le_rfl
    · exact (nextLine_suffix _).length_le
  omega

theorem closed_next (closed : Closed pos) (isStart : pos.dropWhile isBlank = c :: line)
    (ran : parseTurn (c :: line) = .ok turn) :
    Closed turn.next :=
  fun last c' line' turns => closed last c' line' (.next isStart ran turns)

theorem dropWhile_append_start (isStart : pos.dropWhile isBlank = c :: line) :
    (pos ++ more).dropWhile isBlank = c :: line ++ more := by
  rw [List.dropWhile_append, isStart]
  rfl

theorem dropWhile_append_blank {others : List UInt8} (isEnd : pos.dropWhile isBlank = []) :
    (pos ++ ('{' : UInt8) :: others).dropWhile isBlank = ('{' : UInt8) :: others := by
  rw [List.dropWhile_append, isEnd]
  rfl

/-- The turns behind a text that is closed are those of what is behind it. -/
theorem turns_of_closed (others : List UInt8) (closed : Closed pos) (ends : EndsLine pos) :
    ∃ turns, (∀ turn ∈ turns, (('{' : UInt8) :: others).length < turn.start.length) ∧
      (parseInner (pos ++ ('{' : UInt8) :: others)).turns = turns ++ (parseInner (('{' : UInt8) :: others)).turns := by
  induction length : pos.length using Nat.strong_induction_on generalizing pos with
  | _ length ih =>
    have suffix : pos.dropWhile isBlank <:+ pos := List.dropWhile_suffix isBlank
    cases isStart : pos.dropWhile isBlank with
    | nil =>
      refine ⟨[], fun _ isIn => absurd isIn List.not_mem_nil, ?_⟩
      rw [List.nil_append, parseInner, parseInner, @turnsFrom_congr _ _ (('{' : UInt8) :: others)]
      · rw [@turnsFrom_eq _ ((('{' : UInt8) :: others).length + 1) _ _ (Nat.lt_succ_self _)]
        rw [List.length_append]
        omega
      · rw [dropWhile_append_blank isStart]
        rfl
    | cons c line =>
      rw [isStart] at suffix
      obtain ⟨rest, stops, apart⟩ := closed pos c line (.start pos) isStart
      obtain ⟨turn, ran, longer, ranLonger, start, next⟩ :=
        parseTurn_append (('{' : UInt8) :: others) (ends.suffix suffix) stops apart
      have shorter := (parseTurn_spec (List.cons_ne_nil c line) ran).2.2.2
      have nextSuffix := (next_suffix (List.cons_ne_nil c line) ran).trans suffix
      have less := suffix.length_le
      obtain ⟨turns, ahead, same⟩ :=
        ih turn.next.length (by omega) (closed_next closed isStart ran) (ends.suffix nextSuffix) rfl
      refine ⟨longer :: turns, ?_, ?_⟩
      · intro turn' isIn
        rcases List.mem_cons.mp isIn with rfl | later
        · rw [start, List.length_append, List.length_cons]
          omega
        · exact ahead turn' later
      · rw [parseInner_turn (dropWhile_append_start isStart) ranLonger, next, Run.after, same]
        rfl

/-- Behind a text that is not closed no turn begins at a record. -/
theorem turns_of_open {others : List UInt8} (isOpen : ¬Closed pos) (ends : EndsLine pos) :
    ∀ turn ∈ (parseInner (pos ++ ('{' : UInt8) :: others)).turns, turn.start ≠ ('{' : UInt8) :: others := by
  induction length : pos.length using Nat.strong_induction_on generalizing pos with
  | _ length ih =>
    have suffix : pos.dropWhile isBlank <:+ pos := List.dropWhile_suffix isBlank
    cases isStart : pos.dropWhile isBlank with
    | nil =>
      refine absurd (fun last c line turns isLine => ?_) isOpen
      cases turns with
      | start => exact absurd (isStart.symm.trans isLine) (List.cons_ne_nil c line).symm
      | next isStart' => exact absurd (isStart.symm.trans isStart') (List.cons_ne_nil _ _).symm
    | cons c line =>
      rw [isStart] at suffix
      have less := suffix.length_le
      have longerStart : (('{' : UInt8) :: others).length < (c :: line ++ ('{' : UInt8) :: others).length := by
        rw [List.length_append, List.length_cons (a := c)]
        omega
      by_cases stopsAhead : ∃ rest, stop (ndpParseLine (c :: line)) = some rest ∧ rest ≠ []
      · obtain ⟨rest, stops, apart⟩ := stopsAhead
        obtain ⟨turn, ran, longer, ranLonger, start, next⟩ :=
          parseTurn_append (('{' : UInt8) :: others) (ends.suffix suffix) stops apart
        have shorter := (parseTurn_spec (List.cons_ne_nil c line) ran).2.2.2
        have nextSuffix := (next_suffix (List.cons_ne_nil c line) ran).trans suffix
        have nextOpen : ¬Closed turn.next := by
          intro closed
          apply isOpen
          intro last c' line' turns isLine
          cases turns with
          | start =>
            obtain ⟨rfl, rfl⟩ := List.cons.inj (isStart.symm.trans isLine)
            exact ⟨rest, stops, apart⟩
          | next isStart' ran' later =>
            obtain ⟨rfl, rfl⟩ := List.cons.inj (isStart.symm.trans isStart')
            obtain rfl := Except.ok.inj (ran.symm.trans ran')
            exact closed last c' line' later isLine
        rw [parseInner_turn (dropWhile_append_start isStart) ranLonger, next]
        intro turn' isIn
        rcases List.mem_cons.mp isIn with rfl | later
        · intro same
          rw [start] at same
          exact absurd (congrArg List.length same) (Nat.ne_of_gt longerStart)
        · exact ih turn.next.length (by omega) nextOpen (ends.suffix nextSuffix) rfl turn' later
      · have openEnd (rest : List UInt8) (stops : stop (ndpParseLine (c :: line)) = some rest) : rest = [] := by
          by_contra apart
          exact stopsAhead ⟨rest, stops, apart⟩
        match ran : parseTurn (c :: line ++ ('{' : UInt8) :: others) with
        | .error failure =>
          rw [parseInner_failure (dropWhile_append_start isStart) ran]
          intro turn isIn
          contradiction
        | .ok turn =>
          have behind := next_of_open (List.cons_ne_nil c line) (ends.suffix suffix) openEnd ran
          have isFirst := (parseTurn_spec (List.cons_ne_nil _ _) ran).1
          rw [parseInner_turn (dropWhile_append_start isStart) ran]
          intro turn' isIn same
          rcases List.mem_cons.mp isIn with rfl | later
          · rw [isFirst] at same
            exact absurd (congrArg List.length same) (Nat.ne_of_gt longerStart)
          · have := (start_suffix later).length_le
            rw [same] at this
            omega

/-- A line of a file, what is ahead of it and what is behind it. -/
structure LineOf (file before line after : List UInt8) : Prop where
  split : file = before ++ (line ++ after)
  ahead : EndsLine before
  within : ('\n' : UInt8) ∉ line
  behind : after = [] ∨ after.head? = some ('\n' : UInt8)

/-- A record of the schema that has a time. -/
def SchemaRecord (line : List UInt8) : Prop := ∃ layout e, InRange e ∧ e.tsRecv ≠ 0 ∧ line = MboRecord.line layout e

/-- The turns that begin in the line. -/
def Run.turnsIn (run : Run) (line after : List UInt8) : List Turn :=
  run.turns.filter fun turn => after.length < turn.start.length ∧ turn.start.length ≤ (line ++ after).length

/-- One turn begins in the line, at its first byte, and delivers the event that is delivered for the line alone. -/
def Delivered (file line after : List UInt8) : Prop :=
  ∃ e, (parseInner line).delivered = [e] ∧ (parseInner file).turnsIn line after = [⟨line ++ after, after, .ok e⟩]

/-- Every record is delivered, whatever is on the other lines. -/
def Isolated (file : List UInt8) : Prop :=
  ∀ before line after, LineOf file before line after → SchemaRecord line → Delivered file line after

/-- Ahead of every record, all that begins is closed or refused before the record begins. -/
def ClosedAhead (file : List UInt8) : Prop :=
  ∀ before line after, LineOf file before line after → SchemaRecord line → Closed before

theorem parseTurn_record {line : List UInt8} (isRecord : SchemaRecord line) :
    (∃ others, line = ('{' : UInt8) :: others) ∧
    ∃ e, ∀ rest, parseTurn (line ++ rest) = .ok ⟨line ++ rest, rest, .ok e⟩ := by
  obtain ⟨layout, e, inRange, hasTime, rfl⟩ := isRecord
  refine ⟨⟨_, object_eq _⟩, narrowed e, fun rest => ?_⟩
  unfold parseTurn
  rw [ndpParseLine_line layout inRange, if_neg hasTime]

theorem delivered_iff {file : List UInt8} (isLine : LineOf file before line after) (isRecord : SchemaRecord line) :
    Delivered file line after ↔ Closed before := by
  obtain ⟨⟨others, begins⟩, e, takes⟩ := parseTurn_record isRecord
  have startsAt (rest : List UInt8) : (line ++ rest).dropWhile isBlank = ('{' : UInt8) :: (others ++ rest) := by
    rw [begins]
    rfl
  have runs (rest : List UInt8) : parseInner (line ++ rest) = (parseInner rest).after ⟨line ++ rest, rest, .ok e⟩ := by
    apply parseInner_turn (startsAt rest)
    rw [← takes rest, begins]
    rfl
  have alone : (parseInner line).delivered = [e] := by
    have run := runs []
    rw [List.append_nil] at run
    rw [run]
    rfl
  have whole : file = before ++ ('{' : UInt8) :: (others ++ after) := by
    rw [isLine.split, begins]
    rfl
  have isStart : ('{' : UInt8) :: (others ++ after) = line ++ after := by
    rw [begins]
    rfl
  constructor
  · rintro ⟨e', -, only⟩
    by_contra isOpen
    have isIn : ⟨line ++ after, after, .ok e'⟩ ∈ (parseInner file).turnsIn line after := by
      rw [only]
      exact List.mem_singleton_self _
    rw [whole] at isIn
    exact turns_of_open isOpen isLine.ahead _ (List.mem_filter.mp isIn).1 isStart.symm
  · intro closed
    refine ⟨e, alone, ?_⟩
    obtain ⟨turns, ahead, same⟩ := turns_of_closed (others ++ after) closed isLine.ahead
    rw [← whole, isStart, runs after, Run.after] at same
    rw [isStart] at ahead
    unfold Run.turnsIn
    rw [same, List.filter_append, List.filter_cons_of_pos]
    · have noneAhead : turns.filter (fun turn => after.length < turn.start.length ∧
          turn.start.length ≤ (line ++ after).length) = [] := by
        apply List.filter_eq_nil_iff.mpr
        intro turn isIn
        have := ahead turn isIn
        simp only [decide_eq_true_eq]
        omega
      have noneBehind : (parseInner after).turns.filter (fun turn => after.length < turn.start.length ∧
          turn.start.length ≤ (line ++ after).length) = [] := by
        apply List.filter_eq_nil_iff.mpr
        intro turn isIn
        have := (start_suffix isIn).length_le
        simp only [decide_eq_true_eq]
        omega
      rw [noneAhead, noneBehind]
      rfl
    · have := List.length_pos_of_ne_nil (begins ▸ List.cons_ne_nil _ _ : line ≠ [])
      rw [List.length_append]
      simp only [decide_eq_true_eq]
      omega

/-- The records of a file are delivered exactly if nothing that begins ahead of one of them is left open. -/
theorem isolated_iff (file : List UInt8) : Isolated file ↔ ClosedAhead file := by
  constructor
  · intro isolated before line after isLine isRecord
    exact (delivered_iff isLine isRecord).mp (isolated before line after isLine isRecord)
  · intro closed before line after isLine isRecord
    exact (delivered_iff isLine isRecord).mpr (closed before line after isLine isRecord)

/-- A line that ends in a string, ahead of a record. -/
def openLine : List UInt8 := bytes "\x7b\"action\":\"A\n"

def sale : MarketDataEvent := { tsRecv := 1775001621480470598, side := .sell, action := .add }

theorem not_isolated : ¬∀ file, Isolated file := by
  intro isolated
  have isRecord : SchemaRecord (MboRecord.line backwards sale) := by
    refine ⟨backwards, sale, ⟨?_, ?_, ?_, ?_, nofun⟩, ?_, rfl⟩ <;> decide
  have oneLine : ∀ c ∈ MboRecord.line backwards sale, c ≠ '\n' := by
    refine printable_line nofun (fun c printable => ?_) (by decide)
    rintro rfl
    exact absurd printable (by decide)
  have isLine :
      LineOf (openLine ++ (MboRecord.line backwards sale ++ [])) openLine (MboRecord.line backwards sale) [] :=
    ⟨rfl, fun c isLast => (Option.some.inj isLast).symm, fun isIn => oneLine _ isIn rfl, .inl rfl⟩
  have closed := (delivered_iff isLine isRecord).mp (isolated _ _ _ _ isLine isRecord)
  obtain ⟨rest, stops, apart⟩ := closed openLine _ _ (.start openLine) rfl
  have runsOut : stop (ndpParseLine openLine) = some [] := by decide +kernel
  exact apart (Option.some.inj (stops.symm.trans runsOut))

end BackTester.JsonNativeDataParser
