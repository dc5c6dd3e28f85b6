import BackTester.Model.Main.Main
import BackTester.Proofs.OrderBook.AggregateSize
import BackTester.Soundness.Pipeline
import BackTester.Soundness.RouterOutput
import BackTester.Soundness.Snapshot

/-! # What `main` prints

Whatever the schedule, the dispatcher applies one merge of the events that the producers hand over,
and the io thread prints the snapshots of it: one for every 5 000 000 counted events, each of the
books as they are at that event.
-/

namespace BackTester

open SimpleOrderBookRouter

section Text

variable {BookType : Type}

theorem exists_printBooks {lines : UInt32 → BookType → Option String} {books : Iteration BookType}
    (each : ∀ X book, ⟨X, book⟩ ∈ books → ∃ text, lines X book = some text) :
    ∃ text, printBooks lines books = some text := by
  induction books with
  | nil => exact ⟨_, printBooks_nil⟩
  | cons entry books ih =>
    obtain ⟨first, isFirst⟩ := each entry.1 entry.2 List.mem_cons_self
    obtain ⟨rest, isRest⟩ := ih fun X book isIn => each X book (List.mem_cons_of_mem _ isIn)
    have alone : printBooks lines [entry] = some (String.join [first]) := by
      simp [printBooks, isFirst]
    refine ⟨String.join [first] ++ rest, ?_⟩
    rw [← List.singleton_append, printBooks_append, alone, isRest]
    rfl

theorem exists_printSide {levels : List (ScaledPrice × ℤ)} {groupByLevels : UInt64} (some' : 1 ≤ groupByLevels)
    (noWrap : levels.length + groupByLevels.toNat - 1 < 2 ^ 64) (side : Side) :
    ∃ text, Snapshot.printSide side levels groupByLevels = some text := by
  rcases eq_or_ne levels [] with rfl | nonempty
  · exact ⟨_, rfl⟩
  · obtain ⟨groups, printed, -⟩ := Snapshot.printSide_slices nonempty some' noWrap side
    exact ⟨_, printed⟩

variable {events : List MarketDataEvent} {books : Iteration AbseilOrderBook} {groupByLevels : UInt64}

theorem length_delivered_le (X : UInt32) (events : List MarketDataEvent) :
    (delivered X events).length ≤ events.length := by
  induction events using List.reverseRecOn with
  | nil => exact Nat.le_refl _
  | append_singleton events e ih =>
    rw [delivered_append_singleton, List.length_append, List.length_append, List.length_singleton]
    split
    · exact Nat.succ_le_succ ih
    · exact Nat.le_succ_of_le ih

/-- A snapshot of the routed books is always printed, unless there are about as many events as a `size_t` can count. -/
theorem exists_snapshotAsString (few : events.length + groupByLevels.toNat - 1 < 2 ^ 64) (some' : 1 ≤ groupByLevels)
    (meets : (run events : MainRouter).Meets books) : ∃ text, snapshotAsString groupByLevels books = some text := by
  refine exists_printBooks fun X book isIn => ?_
  obtain ⟨-, rfl⟩ := (mem_of_meets meets).mp isIn
  have levels (side : Side) : (((OrderBook.fed AbseilOrderBook (delivered X events)).sideLevels side).length +
      groupByLevels.toNat - 1 < 2 ^ 64) := by
    have fewer := AbseilOrderBook.length_sideLevels_run (delivered X events) side
    have routed := length_delivered_le X events
    unfold AbseilOrderBook.run at fewer
    omega
  obtain ⟨bids, isBids⟩ := exists_printSide some' (levels .buy) .buy
  obtain ⟨asks, isAsks⟩ := exists_printSide some' (levels .sell) .sell
  unfold snapshotLines
  simp only [BookAnswers.bestPrice, BookAnswers.sideLevels, Snapshot.printSnapshot, isBids, isAsks, Option.bind_eq_bind,
    Option.bind_some, Option.pure_def]
  split
  · exact ⟨_, rfl⟩
  · exact ⟨_, rfl⟩

theorem exists_printBestBidAsk (books : Iteration AbseilOrderBook) : ∃ text, printBestBidAsk books = some text := by
  have line (book : AbseilOrderBook) (side : Side) (title : String) (best : Option ScaledPrice) :
      ∃ text, bestLine book side title best = some text := by
    cases best with
    | none => exact ⟨_, rfl⟩
    | some price => exact ⟨_, rfl⟩
  obtain ⟨text, printed⟩ : ∃ text, printBooks bestBidAskLines books = some text := by
    refine exists_printBooks fun X book _ => ?_
    obtain ⟨bid, isBid⟩ := line book .buy "Best Bid" (book.bestPrice .buy)
    obtain ⟨ask, isAsk⟩ := line book .sell "Best Ask" (book.bestPrice .sell)
    unfold bestBidAskLines
    simp only [BookAnswers.bestPrice, isBid, isAsk, Option.bind_eq_bind, Option.bind_some, Option.pure_def]
    split
    · exact ⟨_, rfl⟩
    · exact ⟨_, rfl⟩
  exact ⟨_, by rw [printBestBidAsk, printed]; rfl⟩

end Text

namespace Main

open ProcessNetwork Pipeline
open ProcessMarketDataEvent (report)

/-- The events that the sink counts. -/
def counted (events : List MarketDataEvent) : ℕ := events.countP fun e => decide (e.tsRecv > 0)

/-- The messages on a sequence of events: one whenever the count reaches a multiple of
`REPORT_AFTER_EACH_N_EVENTS`, with a snapshot of the books as they are then, met in some order. -/
structure Reports (events : List MarketDataEvent) (messages : List String) : Prop where
  length : messages.length = counted events / reportAfterEachNEvents.toNat
  each : ∀ (k : ℕ) (message : String), messages[k]? = some message →
    ∃ before e books text, before ++ [e] <+: events ∧ e.tsRecv > 0 ∧
    counted (before ++ [e]) = reportAfterEachNEvents.toNat * (k + 1) ∧ (run (before ++ [e]) : MainRouter).Meets books ∧
      snapshotAsString 5 books = some text ∧ message = report (UInt64.ofNat (counted (before ++ [e]))) text

variable {before events : List MarketDataEvent} {e : MarketDataEvent} {messages : List String} {text : String}

theorem counted_append_singleton (before : List MarketDataEvent) (e : MarketDataEvent) :
    counted (before ++ [e]) = counted before + if e.tsRecv > 0 then 1 else 0 := by
  simp [counted, List.countP_append, List.countP_singleton]

theorem counted_le (events : List MarketDataEvent) : counted events ≤ events.length := List.countP_le_length

theorem reports_nil : Reports [] [] where
  length := (Nat.zero_div _).symm
  each k message found := by simp at found

/-- The event brings the count to where a report is due. -/
def Due (before : List MarketDataEvent) (e : MarketDataEvent) : Prop :=
  e.tsRecv > 0 ∧ reportAfterEachNEvents.toNat ∣ counted (before ++ [e])

theorem Reports.silent (reports : Reports before messages) (notDue : ¬Due before e) :
    Reports (before ++ [e]) messages where
  length := by
    rw [reports.length, counted_append_singleton]
    split
    · next isCounted =>
      refine (Nat.succ_div_of_not_dvd fun divides => notDue ⟨isCounted, ?_⟩).symm
      rwa [counted_append_singleton, if_pos isCounted]
    · rfl
  each k message found := by
    obtain ⟨earlier, e', books, text, isPrefix, rest⟩ := reports.each k message found
    exact ⟨earlier, e', books, text, isPrefix.trans (List.prefix_append _ _), rest⟩

theorem Reports.report (reports : Reports before messages) (due : Due before e) {books : Iteration AbseilOrderBook}
    (meets : (run (before ++ [e]) : MainRouter).Meets books) (isText : snapshotAsString 5 books = some text) :
    Reports (before ++ [e]) (messages ++ [report (UInt64.ofNat (counted (before ++ [e]))) text]) := by
  have next : counted (before ++ [e]) = counted before + 1 := by rw [counted_append_singleton, if_pos due.1]
  have quotient : counted (before ++ [e]) / reportAfterEachNEvents.toNat = messages.length + 1 := by
    rw [next, Nat.succ_div_of_dvd (next ▸ due.2), reports.length]
  constructor
  · rw [List.length_append, List.length_singleton, quotient]
  · intro k message found
    rw [List.getElem?_append] at found
    split at found
    · obtain ⟨earlier, e', books, text, isPrefix, rest⟩ := reports.each k message found
      exact ⟨earlier, e', books, text, isPrefix.trans (List.prefix_append _ _), rest⟩
    · next behind =>
      rw [List.getElem?_singleton] at found
      split at found
      · next isFirst =>
        obtain rfl := Option.some.inj found
        have last : k = messages.length := by omega
        refine ⟨before, e, books, text, List.prefix_refl _, due.1, ?_, meets, isText, rfl⟩
        rw [last, ← quotient, Nat.mul_div_cancel' due.2]
      · contradiction

/-- The sink after these events. -/
def sinkAfter (events : List MarketDataEvent) : ProcessMarketDataEvent := ⟨UInt64.ofNat (counted events), run events⟩

theorem mod_reportAfter_iff {n : ℕ} (few : n < 2 ^ 64) :
    UInt64.ofNat n % reportAfterEachNEvents = 0 ↔ reportAfterEachNEvents.toNat ∣ n := by
  rw [← UInt64.toNat_inj, UInt64.toNat_mod, UInt64.toNat_ofNat_of_lt' few, Nat.dvd_iff_mod_eq_zero]
  rfl

theorem count_next (isCounted : e.tsRecv > 0) (before : List MarketDataEvent) :
    UInt64.ofNat (counted before) + 1 = UInt64.ofNat (counted (before ++ [e])) := by
  rw [counted_append_singleton, if_pos isCounted, UInt64.ofNat_add]
  rfl

theorem process_of_due (few : (before ++ [e]).length < 2 ^ 64) {books : MainRouter → Iteration AbseilOrderBook}
    (due : Due before e) (isText : snapshotAsString 5 (books (run (before ++ [e]))) = some text) :
    (sinkAfter before).process books e =
      some (sinkAfter (before ++ [e]), some (report (UInt64.ofNat (counted (before ++ [e]))) text)) := by
  have isDue := (mod_reportAfter_iff ((counted_le (before ++ [e])).trans_lt few)).mpr due.2
  rw [run_append_singleton] at isText
  simp only [ProcessMarketDataEvent.process, sinkAfter, count_next due.1, if_pos due.1,
    if_pos isDue, isText, run_append_singleton]
  rfl

theorem process_of_not_due (few : (before ++ [e]).length < 2 ^ 64)
    {books : MainRouter → Iteration AbseilOrderBook} (notDue : ¬Due before e) :
    (sinkAfter before).process books e = some (sinkAfter (before ++ [e]), none) := by
  by_cases isCounted : e.tsRecv > 0
  · have isNotDue :=
      mt (mod_reportAfter_iff ((counted_le (before ++ [e])).trans_lt few)).mp fun divides => notDue ⟨isCounted, divides⟩
    simp only [ProcessMarketDataEvent.process, sinkAfter, count_next isCounted, if_pos isCounted,
      if_neg isNotDue, run_append_singleton]
  · simp only [ProcessMarketDataEvent.process, sinkAfter, if_neg isCounted, run_append_singleton,
      counted_append_singleton, Nat.add_zero]

variable {N : ℕ} {Heap : Type*} [PriorityQueue Heap (FlatMerger.cmp (N := N))]
  {order : List MarketDataEvent → MainRouter → Iteration AbseilOrderBook} {inputs : Channel N → List Item}
  {closed : Channel N → Bool}

def reader : Channel N → Thread N :=
  Sum.elim (fun channel => .upstream (FlatMerger.reader channel)) fun _ => .io

def writer : Channel N → Thread N :=
  Sum.elim (fun channel => .upstream (FlatMerger.writer channel)) fun _ => .upstream .consumer

theorem writer_eq_consumer_iff (channel : Channel N) : writer channel = .upstream .consumer ↔ channel = printQueue := by
  rcases channel with channel | _
  · cases channel <;> simp [writer, printQueue, FlatMerger.writer]
  · simp [writer, printQueue]

theorem act_dispatching (sink : ProcessMarketDataEvent) (applied : List MarketDataEvent) :
    act order (.dispatching sink applied : Local N Heap) =
      .pop (.inl .output) fun value => dispatch order sink applied (value.bind Sum.getLeft?) := rfl

theorem act_reporting (message : String) (sink : ProcessMarketDataEvent) (applied : List MarketDataEvent) :
    act order (.reporting message sink applied : Local N Heap) =
      .push printQueue (.inr message) (.dispatching sink applied) := rfl

/-- The dispatcher run alone. -/
abbrev RunsDispatcher (order : List MarketDataEvent → MainRouter → Iteration AbseilOrderBook) (state : Local N Heap)
    (inputs : Channel N → List Item) (closed : Channel N → Bool) (messages : List String)
    (steps : ℕ) (final : Local N Heap) : Prop :=
  Act.Runs (act order) (reader · = .upstream .consumer) (writer · = .upstream .consumer) state inputs closed
    (Function.update (fun _ => []) printQueue (messages.map .inr)) steps final

/-- Run alone on the rest of the events, the dispatcher puts the rest of the messages into the print queue. -/
theorem runs_dispatching (meets : ∀ applied (router : MainRouter), router.Meets (order applied router))
    {applied : List MarketDataEvent}
    (reports : Reports applied messages) (few : (applied ++ events).length + 4 < 2 ^ 64) {bests : String}
    (isBests : printBestBidAsk (order (applied ++ events) (run (applied ++ events))) = some bests)
    (isInput : inputs (.inl .output) = events.map .inl) (opened : closed printQueue = false) :
    ∃ more steps, Reports (applied ++ events) (messages ++ more) ∧
      RunsDispatcher order (.dispatching (sinkAfter applied) applied : Local N Heap) inputs closed more steps
        (.dispatched bests (sinkAfter (applied ++ events)) (applied ++ events)) := by
  have own : reader (N := N) (.inl .output) = .upstream .consumer := rfl
  have ownPrint : writer (N := N) printQueue = .upstream .consumer := rfl
  induction events generalizing applied messages inputs with
  | nil =>
    rw [List.append_nil] at isBests ⊢
    refine ⟨[], 2, by rwa [List.append_nil], ?_⟩
    rw [RunsDispatcher, List.map_nil, Function.update_eq_self]
    have isFinish : dispatch order (sinkAfter applied) applied none =
        (.closing bests (sinkAfter applied) applied : Local N Heap) := by
      simp only [dispatch, sinkAfter, isBests]
    refine Act.Runs.exhausted (act_dispatching _ _) own isInput ?_
    rw [Option.bind_none, isFinish]
    refine Act.Runs.close rfl ownPrint (Act.Runs.done rfl fun channel isOwn => ?_)
    rw [(writer_eq_consumer_iff channel).mp isOwn, Function.update_self]
  | cons e events ih =>
    have joined : applied ++ e :: events = (applied ++ [e]) ++ events := List.append_cons _ _ _
    rw [joined] at few isBests ⊢
    have fewer : (applied ++ [e]).length + 4 < 2 ^ 64 := by
      rw [List.length_append] at few
      omega
    have isLeft : Function.update inputs (.inl .output) (events.map .inl) (.inl .output) = events.map .inl :=
      Function.update_self _ _ _
    by_cases due : Due applied e
    · obtain ⟨text, isText⟩ := @exists_snapshotAsString _ _ 5 fewer (by decide) (meets (applied ++ [e]) _)
      obtain ⟨more, steps, reported, rest⟩ := ih (reports.report due (meets _ _) isText) few isBests isLeft
      rw [List.append_assoc messages] at reported
      refine ⟨_, steps + 2, reported, ?_⟩
      have isMessage : dispatch order (sinkAfter applied) applied (some e) =
          (.reporting (report (UInt64.ofNat (counted (applied ++ [e]))) text)
            (sinkAfter (applied ++ [e])) (applied ++ [e]) : Local N Heap) := by
        simp only [dispatch, process_of_due (Nat.lt_of_add_right_lt fewer) due isText]
      refine Act.Runs.pop (act_dispatching _ _) own isInput ?_
      change Act.Runs _ _ _ (dispatch order (sinkAfter applied) applied (some e)) _ _ _ _ _
      rw [isMessage]
      have pushed :=
        Act.Runs.push (act_reporting (report (UInt64.ofNat (counted (applied ++ [e]))) text) _ _) ownPrint opened rest
      rw [Function.update_self, Function.update_idem] at pushed
      exact pushed
    · obtain ⟨more, steps, reported, rest⟩ := ih (reports.silent due) few isBests isLeft
      refine ⟨more, steps + 1, reported, ?_⟩
      have isNext : dispatch order (sinkAfter applied) applied (some e) =
          (.dispatching (sinkAfter (applied ++ [e])) (applied ++ [e]) : Local N Heap) := by
        simp only [dispatch, process_of_not_due (Nat.lt_of_add_right_lt fewer) due]
      refine Act.Runs.pop (act_dispatching _ _) own isInput ?_
      change Act.Runs _ _ _ (dispatch order (sinkAfter applied) applied (some e)) _ _ _ _ _
      rw [isNext]
      exact rest

section Network

variable {files : Fin N → List MarketDataEvent} {merged : List MarketDataEvent}

/-- The complete contents of the queues. -/
def contents (files : Fin N → List MarketDataEvent) (merged : List MarketDataEvent) (messages : List String) :
    Channel N → List Item :=
  Act.widenContents (FlatMerger.contents files merged) fun _ => messages.map .inr

def rank : Thread N → ℕ
  | .upstream thread => FlatMerger.rank thread
  | .io => 3

def final (merged : List MarketDataEvent) (messages : List String) (bests : String) : Thread N → Local N Heap
  | .upstream .consumer => .dispatched bests (sinkAfter merged) merged
  | .upstream thread => .upstream (Pipeline.final merged thread)
  | .io => .printed messages

/-- The threads before the dispatcher run as in the pipeline. -/
theorem runs_upstream (order : List MarketDataEvent → MainRouter → Iteration AbseilOrderBook)
    (emits : Emits Heap files merged)
    (messages : List String) {thread : FlatMerger.Thread N} (before : thread ≠ .consumer) :
    ∃ outputs steps, Act.Runs (act order) (reader · = .upstream thread) (writer · = .upstream thread)
      (.upstream ((Pipeline.network Heap files).start thread))
      (contents (fun i => wholeBatches batchSize (files i)) merged messages)
      (fun _ => false) outputs steps (.upstream (Pipeline.final merged thread)) ∧
      ∀ channel, writer channel = .upstream thread →
        outputs channel = contents (fun i => wholeBatches batchSize (files i)) merged messages channel := by
  obtain ⟨outputs, steps, run, writes⟩ := Pipeline.runs_alone emits thread
  have isOnly (channel : Channel N) (isOwn : writer channel = .upstream thread) :
      ∃ own, FlatMerger.writer own = thread ∧ .inl own = channel := by
    rcases channel with channel | _
    · exact ⟨channel, Thread.upstream.inj isOwn, rfl⟩
    · exact absurd (Thread.upstream.inj isOwn).symm before
  have widened : Act.Runs (act order) (reader · = .upstream thread) (writer · = .upstream thread) _ _ _ _ _ _ :=
    run.widen Local.upstream (fun _ => rfl) (fun _ isOwn => congrArg Thread.upstream isOwn) (fun _ isOwn =>
      congrArg Thread.upstream isOwn)
      isOnly (fun _ => messages.map .inr) fun _ => false
  refine ⟨_, steps, widened.congr (fun _ _ => rfl) (fun channel _ => ?_), fun channel isOwn => ?_⟩
  · cases channel <;> rfl
  · obtain ⟨own, isWriter, rfl⟩ := isOnly channel isOwn
    exact congrArg (List.map Sum.inl) (writes own isWriter)

/-- Run alone, the io thread prints what is in the print queue. -/
theorem runs_printing (isInput : inputs printQueue = messages.map .inr) (printed : List String) :
    Act.Runs (act order) (reader · = .io) (writer · = .io) (.printing printed : Local N Heap)
      inputs closed (fun _ => [])
      (messages.length + 1) (.printed (printed ++ messages)) := by
  have isPop (printed : List String) : act order (.printing printed : Local N Heap) =
      .pop printQueue fun value => print printed (value.bind Sum.getRight?) := rfl
  have silent (channel : Channel N) : writer channel ≠ .io := by
    rcases channel with channel | _ <;> exact fun same => by contradiction
  induction messages generalizing printed inputs with
  | nil =>
    rw [List.append_nil]
    exact .exhausted (isPop printed) rfl isInput (.done rfl fun channel isOwn => absurd isOwn (silent channel))
  | cons message messages ih =>
    have rest := ih (Function.update_self printQueue (messages.map .inr) inputs) (printed ++ [message])
    rw [List.append_assoc] at rest
    exact .pop (isPop printed) rfl isInput rest

/-- The io thread, and what it has printed. -/
def Shows (printed : List String) (state : Local N Heap) : Prop := state = .printing printed ∨ state = .printed printed

/-- What is printed stays. -/
theorem shows_final {reads writes : Channel N → Prop} {state final : Local N Heap}
    {outputs : Channel N → List Item} {steps : ℕ}
    (run : Act.Runs (act order) reads writes state inputs closed outputs steps final) {printed all : List String}
    (shows : Shows printed state) (ends : final = .printed all) : printed <+: all := by
  induction run generalizing printed with
  | done =>
    subst ends
    rcases shows with isShown | isShown
    · contradiction
    · exact Local.printed.inj isShown ▸ List.prefix_refl _
  | push isAct | pushBatch isAct | close isAct | isClosed isAct => rcases shows with rfl | rfl <;> contradiction
  | exhausted isPop _ _ _ ih =>
    rcases shows with rfl | rfl
    · obtain ⟨rfl, rfl⟩ := Act.pop.inj isPop
      exact ih (.inr rfl) ends
    · contradiction
  | @pop _ _ _ value _ _ _ _ _ _ isPop _ _ _ ih =>
    rcases shows with rfl | rfl
    · obtain ⟨rfl, rfl⟩ := Act.pop.inj isPop
      cases value with
      | inl e => exact ih (.inr rfl) ends
      | inr message => exact (List.prefix_append printed [message]).trans (ih (.inl rfl) ends)
    · contradiction

theorem exists_lower (thread : Thread N) (channel : Channel N) (reads : reader channel = thread) :
    ∃ other, writer channel = other ∧ rank other < rank thread := by
  subst reads
  refine ⟨writer channel, rfl, ?_⟩
  rcases channel with channel | _
  · obtain ⟨_, rfl, lower⟩ := Pipeline.exists_lower _ channel rfl
    exact lower
  · exact Nat.lt_succ_self 2

/-- The whole network, when the merger emits `merged` and the dispatcher puts `messages` into the print queue. -/
def solution {bests : String} (emits : Emits Heap files merged)
    (dispatches : ∃ steps, RunsDispatcher order (.dispatching (sinkAfter []) [] : Local N Heap)
      (contents (fun i => wholeBatches batchSize (files i)) merged messages) (fun _ => false) messages steps
        (.dispatched bests (sinkAfter merged) merged)) :
    (network order Heap files).Solution (contents (fun i => wholeBatches batchSize (files i)) merged messages) where
  reads thread channel := reader channel = thread
  writes thread channel := writer channel = thread
  oneReader _ _ _ mine yours := mine.symm.trans yours
  oneWriter _ _ _ mine yours := mine.symm.trans yours
  unwritten channel nobody := absurd rfl (nobody (writer channel))
  rank := rank
  lower := exists_lower
  final := final merged messages bests
  runs thread := by
    rcases thread with thread | _
    · cases thread with
      | producer i => exact runs_upstream order emits messages (by simp)
      | merger => exact runs_upstream order emits messages (by simp)
      | consumer =>
        obtain ⟨steps, run⟩ := dispatches
        refine ⟨_, steps, run, fun channel isOwn => ?_⟩
        rw [(writer_eq_consumer_iff channel).mp isOwn, Function.update_self]
        rfl
    · refine ⟨_, _, runs_printing rfl [], fun channel isOwn => ?_⟩
      rcases channel with channel | _ <;> contradiction

/-- What `main` comes to: a merge of the events that are handed over, its reports and its best prices. -/
structure Outcome (order : List MarketDataEvent → MainRouter → Iteration AbseilOrderBook) (Heap : Type*)
    [PriorityQueue Heap (FlatMerger.cmp (N := N))] (Queue : Type*) [FifoQueue Queue Item]
    (files : Fin N → List MarketDataEvent)
    (merged : List MarketDataEvent) (messages : List String) (bests : String) : Prop where
  merges : Merges MarketDataEvent.tsRecv (fun i => wholeBatches batchSize (files i)) merged
  reports : Reports merged messages
  best : ∃ books, (run merged : MainRouter).Meets books ∧ printBestBidAsk books = some bests
  /-- The print queue is given the reports in order, every schedule can be completed, and none goes on for ever. -/
  delivers : (network order Heap files).Delivers Queue printQueue (messages.map .inr)
  /-- At no time is anything else printed. -/
  prints : ∀ config, ((network order Heap files).system Queue).Reachable config →
    ∀ printed, Shows printed (config.locals .io) →
    printed <+: messages
  /-- In the end all reports are printed, and the dispatcher has applied and counted all that was merged. -/
  ends : ∀ config, ((network order Heap files).system Queue).Reachable config →
    (network order Heap files).Complete config →
    config.locals .io = .printed messages ∧
      config.locals (.upstream .consumer) = .dispatched bests ⟨UInt64.ofNat (counted merged), run merged⟩ merged

theorem length_wholeBatches_le (events : List MarketDataEvent) :
    (wholeBatches batchSize events).length ≤ events.length := by
  rw [wholeBatches, List.length_take]
  exact Nat.min_le_right _ _

/-- Whatever the schedule, `main` comes to the same. -/
theorem exists_outcome (Heap : Type*) [PriorityQueue Heap (FlatMerger.cmp (N := N))]
    (Queue : Type*) [FifoQueue Queue Item]
    (meets : ∀ applied (router : MainRouter), router.Meets (order applied router))
    (files : Fin N → List MarketDataEvent) (few : ∑ i, (files i).length + 4 < 2 ^ 64) :
    ∃ merged messages bests, Outcome order Heap Queue files merged messages bests := by
  obtain ⟨merged, merges, emits⟩ := FlatMerger.exists_emitted Heap fun i => wholeBatches batchSize (files i)
  have short : merged.length ≤ ∑ i, (files i).length := by
    rw [merges.interleaves.perm.length_eq, List.length_flatten, List.map_ofFn, List.sum_ofFn]
    exact Finset.sum_le_sum fun i _ => length_wholeBatches_le (files i)
  obtain ⟨bests, isBests⟩ := exists_printBestBidAsk (order merged (run merged))
  let given : Channel N → List Item := contents (fun i => wholeBatches batchSize (files i)) merged []
  have fewMerged : ([] ++ merged : List MarketDataEvent).length + 4 < 2 ^ 64 :=
    Nat.lt_of_le_of_lt (Nat.add_le_add_right short 4) few
  have isInput : given (.inl .output) = merged.map .inl := rfl
  obtain ⟨messages, steps, reports, run⟩ :=
    @runs_dispatching merged [] N Heap _ order given (fun _ => false) meets [] reports_nil
    fewMerged bests isBests isInput rfl
  have dispatches : RunsDispatcher order (.dispatching (sinkAfter []) [] : Local N Heap)
      (contents (fun i => wholeBatches batchSize (files i)) merged messages) (fun _ => false) messages steps
        (.dispatched bests (sinkAfter merged) merged) := by
    refine run.congr (fun channel isOwn => ?_) fun _ _ => rfl
    rcases channel with channel | _
    · rfl
    · contradiction
  let whole := solution emits ⟨steps, dispatches⟩
  refine ⟨merged, messages, bests, merges, reports, ⟨_, meets merged _, isBests⟩,
    whole.delivers Queue ⟨.upstream .consumer, rfl⟩, ?_, ?_⟩
  · intro config reached printed shows
    obtain ⟨cost, holds⟩ := agrees_reachable whole reached
    obtain ⟨_, run, _⟩ := holds.runs .io
    exact shows_final run shows rfl
  · intro config reached complete
    obtain ⟨cost, holds⟩ := agrees_reachable whole reached
    exact ⟨holds.locals_of_complete complete .io, holds.locals_of_complete complete (.upstream .consumer)⟩

/-- One file of one batch. -/
theorem exists_outcome_oneBatch : ∃ merged messages bests, Outcome (fun _ router => router.orderBooks.entries)
    (BinaryHeap (FlatMerger.cmp (N := 1))) (BlockingQueue Item)
    (fun _ => List.replicate 256 { tsRecv := 1 }) merged messages bests :=
  exists_outcome _ _ (fun _ _ => List.Perm.refl _) _ (by rw [Fin.sum_univ_one, List.length_replicate]; decide)

end Network

end Main

end BackTester
