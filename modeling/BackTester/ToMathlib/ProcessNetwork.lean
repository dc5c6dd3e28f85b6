import BackTester.ToMathlib.FifoQueue
import BackTester.ToMathlib.TransitionSystem
import Mathlib.Algebra.BigOperators.Fin
import Mathlib.Data.List.Infix

/-! # Networks of threads and queues

Threads that share nothing but first-in first-out queues, each queue written by one thread and read
by one. A thread can be run alone, on the complete contents of the queues it reads. If the queues
have contents for which every thread, run alone, writes what they say, then every interleaving of
the threads writes exactly these contents, no interleaving gets stuck before all threads are done,
and none runs for ever. So what a network computes does not depend on the schedule, and it is found
by looking at one thread at a time.
-/

/-- What a thread does next, and the state that it goes on in. -/
inductive Act (Channel Value Local : Type*)
  | push (channel : Channel) (value : Value) (next : Local)
  | pushBatch (channel : Channel) (values : List Value) (next : Local)
  | pop (channel : Channel) (next : Option Value → Local)
  | close (channel : Channel) (next : Local)
  | isClosed (channel : Channel) (next : Bool → Local)
  | done

namespace Act

/-- The same act of a thread that has its state as a part of another. -/
def map {Channel Value Local Other : Type*} (f : Local → Other) : Act Channel Value Local → Act Channel Value Other
  | .push channel value next => .push channel value (f next)
  | .pushBatch channel values next => .pushBatch channel values (f next)
  | .pop channel next => .pop channel fun value => f (next value)
  | .close channel next => .close channel (f next)
  | .isClosed channel next => .isClosed channel fun closed => f (next closed)
  | .done => .done

variable {Channel Value Local : Type*} [DecidableEq Channel]

/-- The act is one on a queue of the thread's own, and puts nothing into a closed one. -/
def Own (reads writes : Channel → Prop) (closed : Channel → Bool) : Act Channel Value Local → Prop
  | .push channel _ _ | .pushBatch channel _ _ => writes channel ∧ closed channel = false
  | .pop channel _ => reads channel
  | .close channel _ | .isClosed channel _ => writes channel
  | .done => True

/-- A thread can go on in this state after the act. -/
def Next : Act Channel Value Local → Local → Prop
  | .push _ _ next, state | .pushBatch _ _ next, state | .close _ next, state => state = next
  | .pop _ next, state => ∃ value, state = next value
  | .isClosed _ next, state => ∃ closed, state = next closed
  | .done, _ => False

/-- A thread run alone: it reads the queues that `reads` says from complete contents and writes
those that `writes` says, some of them closed by now. `Runs … outputs steps final` says what it
writes until it is done, with all its queues closed, in how many steps, and the state it is done in.
-/
inductive Runs (act : Local → Act Channel Value Local) (reads writes : Channel → Prop) :
    Local → (Channel → List Value) → (Channel → Bool) → (Channel → List Value) → ℕ → Local → Prop
  | push {state next channel value inputs closed outputs steps final} (isPush : act state = .push channel value next)
      (own : writes channel) (opened : closed channel = false)
      (rest : Runs act reads writes next inputs closed outputs steps final) :
      Runs act reads writes state inputs closed (Function.update outputs channel (value :: outputs channel))
        (steps + 1) final
  | pushBatch {state next channel values inputs closed outputs steps final}
      (isPush : act state = .pushBatch channel values next) (own : writes channel) (opened : closed channel = false)
      (rest : Runs act reads writes next inputs closed outputs steps final) :
      Runs act reads writes state inputs closed (Function.update outputs channel (values ++ outputs channel))
        (steps + 1) final
  | pop {state next channel value left inputs closed outputs steps final} (isPop : act state = .pop channel next)
      (own : reads channel) (first : inputs channel = value :: left)
      (rest : Runs act reads writes (next (some value)) (Function.update inputs channel left)
        closed outputs steps final) :
      Runs act reads writes state inputs closed outputs (steps + 1) final
  | exhausted {state next channel inputs closed outputs steps final} (isPop : act state = .pop channel next)
      (own : reads channel) (none : inputs channel = [])
      (rest : Runs act reads writes (next Option.none) inputs closed outputs steps final) :
      Runs act reads writes state inputs closed outputs (steps + 1) final
  | close {state next channel inputs closed outputs steps final} (isClose : act state = .close channel next)
      (own : writes channel)
      (rest : Runs act reads writes next inputs (Function.update closed channel true) outputs steps final) :
      Runs act reads writes state inputs closed outputs (steps + 1) final
  | isClosed {state next channel inputs closed outputs steps final} (asks : act state = .isClosed channel next)
      (own : writes channel) (rest : Runs act reads writes (next (closed channel)) inputs closed outputs steps final) :
      Runs act reads writes state inputs closed outputs (steps + 1) final
  | done {state inputs closed} (isDone : act state = .done) (all : ∀ channel, writes channel → closed channel) :
      Runs act reads writes state inputs closed (fun _ => []) 0 state

namespace Runs

variable {act : Local → Act Channel Value Local} {reads writes : Channel → Prop} {state final : Local}
  {inputs outputs : Channel → List Value} {closed : Channel → Bool} {steps : ℕ} {channel : Channel}

/-- A thread sees only its own queues. -/
theorem congr (run : Runs act reads writes state inputs closed outputs steps final) {inputs' : Channel → List Value}
    {closed' : Channel → Bool} (same : ∀ channel, reads channel → inputs' channel = inputs channel)
    (flags : ∀ channel, writes channel → closed' channel = closed channel) :
    Runs act reads writes state inputs' closed' outputs steps final := by
  induction run generalizing inputs' closed' with
  | push isPush own opened _ ih => exact .push isPush own ((flags _ own).trans opened) (ih same flags)
  | pushBatch isPush own opened _ ih => exact .pushBatch isPush own ((flags _ own).trans opened) (ih same flags)
  | pop isPop own first _ ih =>
    apply Runs.pop isPop own ((same _ own).trans first)
    apply ih _ flags
    intro channel reading
    simp only [Function.update_apply]
    split
    · rfl
    · exact same channel reading
  | exhausted isPop own none _ ih => exact .exhausted isPop own ((same _ own).trans none) (ih same flags)
  | close isClose own _ ih =>
    apply Runs.close isClose own
    apply ih same
    intro channel writing
    simp only [Function.update_apply]
    split
    · rfl
    · exact flags channel writing
  | isClosed asks own _ ih =>
    apply Runs.isClosed asks own
    rw [flags _ own]
    exact ih same flags
  | done isDone all => exact .done isDone fun channel writing => (flags channel writing).trans (all channel writing)

/-- Nothing is written to a closed queue. -/
theorem outputs_of_closed (run : Runs act reads writes state inputs closed outputs steps final)
    (isClosed : closed channel) :
    outputs channel = [] := by
  induction run with
  | push _ _ opened _ ih | pushBatch _ _ opened _ ih =>
    rw [Function.update_of_ne]
    · exact ih isClosed
    · rintro rfl
      rw [opened] at isClosed
      contradiction
  | pop _ _ _ _ ih | exhausted _ _ _ _ ih | isClosed _ _ _ ih => exact ih isClosed
  | close _ _ _ ih =>
    apply ih
    rw [Function.update_apply]
    split
    · rfl
    · exact isClosed
  | done => rfl

theorem own (run : Runs act reads writes state inputs closed outputs steps final) :
    (act state).Own reads writes closed := by
  cases run with
  | push isPush own opened | pushBatch isPush own opened =>
    rw [isPush]
    exact ⟨own, opened⟩
  | pop isPop own | exhausted isPop own =>
    rw [isPop]
    exact own
  | close isClose own =>
    rw [isClose]
    exact own
  | isClosed asks own =>
    rw [asks]
    exact own
  | done isDone =>
    rw [isDone]
    trivial

theorem of_done (run : Runs act reads writes state inputs closed outputs steps final) (isDone : act state = .done) :
    (∀ channel, writes channel → closed channel) ∧ (∀ channel, outputs channel = []) ∧ state = final := by
  cases run with
  | done _ all => exact ⟨all, fun _ => rfl, rfl⟩
  | push other | pushBatch other | pop other | exhausted other | close other | isClosed other =>
    rw [isDone] at other
    contradiction

/-- Of a state that is not done only the act matters. -/
theorem of_act_eq (run : Runs act reads writes state inputs closed outputs steps final) {other : Local}
    (same : act other = act state) (working : act state ≠ .done) :
    Runs act reads writes other inputs closed outputs steps final := by
  cases run with
  | push isPush own opened rest => exact .push (same.trans isPush) own opened rest
  | pushBatch isPush own opened rest => exact .pushBatch (same.trans isPush) own opened rest
  | pop isPop own first rest => exact .pop (same.trans isPop) own first rest
  | exhausted isPop own none rest => exact .exhausted (same.trans isPop) own none rest
  | close isClose own rest => exact .close (same.trans isClose) own rest
  | isClosed asks own rest => exact .isClosed (same.trans asks) own rest
  | done isDone => exact absurd isDone working

/-- A thread that goes through the acts of another runs like it. -/
theorem map {Other : Type*} {act' : Other → Act Channel Value Other} (f : Local → Other)
    (same : ∀ state, act' (f state) = (act state).map f)
    (run : Runs act reads writes state inputs closed outputs steps final) :
    Runs act' reads writes (f state) inputs closed outputs steps (f final) := by
  have acts {state : Local} {next : Act Channel Value Local} (isNext : act state = next) :
      act' (f state) = next.map f := by
    rw [same, isNext]
  induction run with
  | push isPush own opened _ ih => exact .push (acts isPush) own opened ih
  | pushBatch isPush own opened _ ih => exact .pushBatch (acts isPush) own opened ih
  | pop isPop own first _ ih => exact .pop (acts isPop) own first ih
  | exhausted isPop own none _ ih => exact .exhausted (acts isPop) own none ih
  | close isClose own _ ih => exact .close (acts isClose) own ih
  | isClosed asks own _ ih => exact .isClosed (acts asks) own ih
  | done isDone all => exact .done (acts isDone) all

/-- A thread that puts values into its only queue one by one and closes it. -/
theorem feed (states : List Value → Local)
    (pushes : ∀ value values, act (states (value :: values)) = .push channel value (states values))
    (closes : act (states []) = .close channel final) (isDone : act final = .done)
    (own : ∀ other, writes other ↔ other = channel) (opened : closed channel = false) (values : List Value) :
    Runs act reads writes (states values) inputs closed (Function.update (fun _ => []) channel values)
      (values.length + 1) final := by
  induction values with
  | nil =>
    rw [Function.update_eq_self]
    apply Runs.close closes ((own channel).mpr rfl)
    apply Runs.done isDone
    intro other isOwn
    rw [(own other).mp isOwn, Function.update_self]
  | cons value values ih =>
    have first := Runs.push (pushes value values) ((own channel).mpr rfl) opened ih
    rw [Function.update_self, Function.update_idem] at first
    exact first

/-- A thread that writes nothing and collects what is in a queue until it is told that the queue is closed. -/
theorem collect (channel : Channel) (states finals : List Value → Local) {next : List Value → Option Value → Local}
    (pops : ∀ received, act (states received) = .pop channel (next received))
    (more : ∀ received value, next received (some value) = states (received ++ [value]))
    (stops : ∀ received, next received none = finals received) (isDone : ∀ received, act (finals received) = .done)
    (own : reads channel) (silent : ∀ other, ¬writes other) (received : List Value) :
    Runs act reads writes (states received) inputs closed (fun _ => []) ((inputs channel).length + 1)
      (finals (received ++ inputs channel)) := by
  induction isInput : inputs channel generalizing received inputs with
  | nil =>
    apply Runs.exhausted (pops received) own isInput
    rw [stops, List.append_nil]
    exact Runs.done (isDone received) fun other isOwn => absurd isOwn (silent other)
  | cons value values ih =>
    apply Runs.pop (pops received) own isInput
    rw [more]
    have rest := ih (received ++ [value]) (Function.update_self channel values inputs)
    rw [List.append_assoc] at rest
    exact rest

end Runs

end Act

/-- What each thread does in each of its states, and where it starts. -/
structure ProcessNetwork (Thread Channel Value Local : Type*) where
  act : Local → Act Channel Value Local
  start : Thread → Local

namespace ProcessNetwork

/-- Where every thread stands and what every queue holds, with all that was put into it and taken out of it so far. -/
structure Config (Thread Channel Queue Value Local : Type*) where
  locals : Thread → Local
  queues : Channel → Queue
  sent : Channel → List Value
  taken : Channel → List Value

open FifoQueue

variable {Thread Channel Queue Value Local : Type*} [DecidableEq Channel] [FifoQueue Queue Value]

section Steps

variable [DecidableEq Thread]

/-- A thread has put values into a queue and left it as `queue`. -/
def Config.sends (config : Config Thread Channel Queue Value Local) (thread : Thread) (next : Local) (channel : Channel)
    (queue : Queue) (values : List Value) : Config Thread Channel Queue Value Local where
  locals := Function.update config.locals thread next
  queues := Function.update config.queues channel queue
  sent := Function.update config.sent channel (config.sent channel ++ values)
  taken := config.taken

/-- A thread has taken a value out of a queue, or found it closed, and left it as `queue`. -/
def Config.receives (config : Config Thread Channel Queue Value Local) (thread : Thread)
    (next : Local) (channel : Channel)
    (queue : Queue) (value : Option Value) : Config Thread Channel Queue Value Local where
  locals := Function.update config.locals thread next
  queues := Function.update config.queues channel queue
  sent := config.sent
  taken := Function.update config.taken channel (config.taken channel ++ value.toList)

/-- The next step of a thread, if it need not wait and is not refused. -/
def step (network : ProcessNetwork Thread Channel Value Local) (config : Config Thread Channel Queue Value Local)
    (thread : Thread) : Option (Config Thread Channel Queue Value Local) :=
  match network.act (config.locals thread) with
  | .push channel value next =>
    (push (config.queues channel) value).map fun queue => config.sends thread next channel queue [value]
  | .pushBatch channel values next =>
    (pushBatch (config.queues channel) values).map fun queue => config.sends thread next channel queue values
  | .pop channel next =>
    (pop (config.queues channel)).map fun (value, queue) => config.receives thread (next value) channel queue value
  | .close channel next => some (config.sends thread next channel (close (config.queues channel)) [])
  | .isClosed channel next =>
    some { config with
      locals := Function.update config.locals thread (next (isClosed (config.queues channel))) }
  | .done => none

/-- Every thread at its start, every queue empty. -/
def initial (network : ProcessNetwork Thread Channel Value Local) : Config Thread Channel Queue Value Local where
  locals := network.start
  queues _ := empty
  sent _ := []
  taken _ := []

/-- The network under every interleaving of its threads. -/
def system (Queue : Type*) [FifoQueue Queue Value] (network : ProcessNetwork Thread Channel Value Local) :
    TransitionSystem (Config Thread Channel Queue Value Local) :=
  .ofMoves network.initial network.step

section Effect

variable {network : ProcessNetwork Thread Channel Value Local}
  {config after : Config Thread Channel Queue Value Local} {thread : Thread}

/-- What a step of a thread changes: only that thread's state, and what was put into a queue only if it pushes to it. -/
theorem effect_of_step (step : network.step config thread = some after) :
    (network.act (config.locals thread)).Next (after.locals thread) ∧
      (∀ other ≠ thread, after.locals other = config.locals other) ∧
      ∀ channel, after.sent channel = config.sent channel ∨
        (∃ value next, network.act (config.locals thread) = .push channel value next) ∨
        ∃ values next, network.act (config.locals thread) = .pushBatch channel values next := by
  unfold ProcessNetwork.step at step
  cases isAct : network.act (config.locals thread) with
  | push channel value next =>
    rw [isAct] at step
    obtain ⟨queue, _, rfl⟩ := Option.map_eq_some_iff.mp step
    refine ⟨Function.update_self _ _ _, fun other apart => Function.update_of_ne apart _ _, fun target => ?_⟩
    rcases eq_or_ne target channel with rfl | apart
    · exact .inr (.inl ⟨value, next, rfl⟩)
    · exact .inl (Function.update_of_ne apart _ _)
  | pushBatch channel values next =>
    rw [isAct] at step
    obtain ⟨queue, _, rfl⟩ := Option.map_eq_some_iff.mp step
    refine ⟨Function.update_self _ _ _, fun other apart => Function.update_of_ne apart _ _, fun target => ?_⟩
    rcases eq_or_ne target channel with rfl | apart
    · exact .inr (.inr ⟨values, next, rfl⟩)
    · exact .inl (Function.update_of_ne apart _ _)
  | pop channel next =>
    rw [isAct] at step
    obtain ⟨⟨value, queue⟩, _, rfl⟩ := Option.map_eq_some_iff.mp step
    exact ⟨⟨value, Function.update_self _ _ _⟩, fun other apart => Function.update_of_ne apart _ _,
      fun target => .inl rfl⟩
  | close channel next =>
    rw [isAct] at step
    obtain rfl := Option.some.inj step
    refine ⟨Function.update_self _ _ _, fun other apart => Function.update_of_ne apart _ _, fun target => .inl ?_⟩
    rcases eq_or_ne target channel with rfl | apart
    · exact (Function.update_self _ _ _).trans (List.append_nil _)
    · exact Function.update_of_ne apart _ _
  | isClosed channel next =>
    rw [isAct] at step
    obtain rfl := Option.some.inj step
    exact ⟨⟨_, Function.update_self _ _ _⟩, fun other apart => Function.update_of_ne apart _ _, fun target => .inl rfl⟩
  | done =>
    rw [isAct] at step
    contradiction

end Effect

end Steps

def Complete (network : ProcessNetwork Thread Channel Value Local)
    (config : Config Thread Channel Queue Value Local) : Prop :=
  ∀ thread, network.act (config.locals thread) = .done

/-- At most one writer and one reader for each queue, writers ranked below readers, and contents of
the queues that every thread writes when it is run alone on them. -/
structure Solution (network : ProcessNetwork Thread Channel Value Local) (contents : Channel → List Value) where
  reads : Thread → Channel → Prop
  writes : Thread → Channel → Prop
  oneReader : ∀ thread other channel, reads thread channel → reads other channel → thread = other
  oneWriter : ∀ thread other channel, writes thread channel → writes other channel → thread = other
  unwritten : ∀ channel, (∀ thread, ¬writes thread channel) → contents channel = []
  rank : Thread → ℕ
  lower : ∀ thread channel, reads thread channel → ∃ writer, writes writer channel ∧ rank writer < rank thread
  final : Thread → Local
  runs : ∀ thread, ∃ outputs steps, Act.Runs network.act (reads thread) (writes thread) (network.start thread) contents
    (fun _ => false) outputs steps (final thread) ∧
    ∀ channel, writes thread channel → outputs channel = contents channel

variable {network : ProcessNetwork Thread Channel Value Local} {contents : Channel → List Value}
  {config after : Config Thread Channel Queue Value Local} {cost : Thread → ℕ} {thread : Thread} {channel : Channel}

/-- What is still to be taken out of each queue. -/
def left (contents : Channel → List Value) (config : Config Thread Channel Queue Value Local)
    (channel : Channel) : List Value :=
  (contents channel).drop (config.taken channel).length

def closed (config : Config Thread Channel Queue Value Local) (channel : Channel) : Bool :=
  isClosed (config.queues channel)

/-- Every thread, run alone on what is left, writes what is missing, in `cost` steps. -/
structure Agrees (solution : network.Solution contents) (config : Config Thread Channel Queue Value Local)
    (cost : Thread → ℕ) : Prop where
  fifo : ∀ channel, config.sent channel = config.taken channel ++ items (config.queues channel)
  unwritten : ∀ channel, (∀ thread, ¬solution.writes thread channel) → config.sent channel = [] ∧
    closed config channel = false
  runs : ∀ thread, ∃ outputs, Act.Runs network.act (solution.reads thread) (solution.writes thread)
    (config.locals thread) (left contents config) (closed config) outputs (cost thread) (solution.final thread) ∧
      ∀ channel, solution.writes thread channel → config.sent channel ++ outputs channel = contents channel

variable {solution : network.Solution contents}

theorem exists_agrees_initial (Queue : Type*) [FifoQueue Queue Value] (solution : network.Solution contents) :
    ∃ cost, Agrees solution (network.initial : Config Thread Channel Queue Value Local) cost := by
  choose outputs cost runs writes using solution.runs
  refine ⟨cost, fun channel => ?_, fun channel _ => ⟨rfl, isClosed_empty⟩, fun thread =>
    ⟨outputs thread, ?_, writes thread⟩⟩
  · simp [initial, items_empty]
  · apply (runs thread).congr
    · exact fun _ _ => rfl
    · exact fun _ _ => isClosed_empty

namespace Agrees

theorem take_sent (holds : Agrees solution config cost) (channel : Channel) : ∃ more,
    config.sent channel ++ more = contents channel ∧
    left contents config channel = items (config.queues channel) ++ more := by
  obtain ⟨more, whole⟩ : ∃ more, config.sent channel ++ more = contents channel := by
    by_cases written : ∃ thread, solution.writes thread channel
    · obtain ⟨thread, own⟩ := written
      obtain ⟨outputs, _, writes⟩ := holds.runs thread
      exact ⟨outputs channel, writes channel own⟩
    · rw [not_exists] at written
      exact ⟨[], by rw [(holds.unwritten channel written).1, solution.unwritten channel written, List.append_nil]⟩
  refine ⟨more, whole, ?_⟩
  rw [left, ← whole, holds.fifo, List.append_assoc, List.drop_left]

theorem sent_of_closed (holds : Agrees solution config cost) (isClosed : closed config channel) :
    config.sent channel = contents channel := by
  by_cases written : ∃ thread, solution.writes thread channel
  · obtain ⟨thread, own⟩ := written
    obtain ⟨outputs, run, writes⟩ := holds.runs thread
    rw [← writes channel own, run.outputs_of_closed isClosed, List.append_nil]
  · rw [not_exists] at written
    rw [(holds.unwritten channel written).2] at isClosed
    contradiction

/-- What a thread is about to do it does to a queue of its own. -/
theorem own (holds : Agrees solution config cost) (thread : Thread) :
    (network.act (config.locals thread)).Own (solution.reads thread) (solution.writes thread) (closed config) := by
  obtain ⟨outputs, run, _⟩ := holds.runs thread
  exact run.own

/-- A pop answers with the next of the contents, or with nothing once they are used up. -/
theorem answer (holds : Agrees solution config cost) {value : Option Value} {queue : Queue}
    (popped : pop (config.queues channel) = some (value, queue)) :
    value = (left contents config channel).head? ∧ items (config.queues channel) = value.toList ++ items queue ∧
      isClosed queue = closed config channel := by
  obtain ⟨more, whole, isLeft⟩ := holds.take_sent channel
  cases held : items (config.queues channel) with
  | nil =>
    cases shut : isClosed (config.queues channel) with
    | false =>
      rw [pop_of_open held shut] at popped
      contradiction
    | true =>
      -- a closed queue was given all its contents, so none are missing
      have none : more = [] := by
        rw [holds.sent_of_closed shut] at whole
        exact List.append_right_eq_self.mp whole
      obtain ⟨after, answers, isEmpty, stays⟩ := pop_of_closed held shut
      rw [answers, Option.some_inj, Prod.mk.injEq] at popped
      obtain ⟨rfl, rfl⟩ := popped
      rw [isLeft, held, none, isEmpty]
      exact ⟨rfl, rfl, stays.trans shut.symm⟩
  | cons first rest =>
    obtain ⟨after, answers, isRest, stays⟩ := pop_of_cons held
    rw [answers, Option.some_inj, Prod.mk.injEq] at popped
    obtain ⟨rfl, rfl⟩ := popped
    rw [isLeft, held, isRest]
    exact ⟨rfl, rfl, stays⟩

variable [DecidableEq Thread]

/-- A step of one thread is one step of its run, when it touches its own queues only. -/
theorem advance (holds : Agrees solution config cost) (after : Config Thread Channel Queue Value Local)
    {next : Local} {steps : ℕ} (locals : after.locals = Function.update config.locals thread next)
    (fifo : ∀ channel, after.sent channel = after.taken channel ++ items (after.queues channel))
    (kept : ∀ channel, ¬solution.reads thread channel → after.taken channel = config.taken channel)
    (same : ∀ channel, ¬solution.writes thread channel →
      closed after channel = closed config channel ∧ after.sent channel = config.sent channel)
    {outputs : Channel → List Value}
    (run : Act.Runs network.act (solution.reads thread) (solution.writes thread) next (left contents after)
      (closed after) outputs steps (solution.final thread))
    (writes : ∀ channel, solution.writes thread channel → after.sent channel ++ outputs channel = contents channel) :
    Agrees solution after (Function.update cost thread steps) where
  fifo := fifo
  unwritten channel nobody := by
    obtain ⟨flag, sent⟩ := same channel (nobody thread)
    rw [flag, sent]
    exact holds.unwritten channel nobody
  runs other := by
    rw [locals]
    by_cases isThread : other = thread
    · subst isThread
      rw [Function.update_self, Function.update_self]
      exact ⟨outputs, run, writes⟩
    · rw [Function.update_of_ne isThread, Function.update_of_ne isThread]
      obtain ⟨outputs, run, writes⟩ := holds.runs other
      refine ⟨outputs, run.congr ?_ ?_, ?_⟩
      · intro channel own
        rw [left, left, kept channel fun mine => isThread (solution.oneReader other thread channel own mine)]
      · intro channel own
        exact (same channel fun mine => isThread (solution.oneWriter other thread channel own mine)).1
      · intro channel own
        rw [(same channel fun mine => isThread (solution.oneWriter other thread channel own mine)).2]
        exact writes channel own

/-- A thread puts values into a queue of its own, or closes it. -/
theorem sends (holds : Agrees solution config cost) {next : Local} {steps : ℕ} {values : List Value} {queue : Queue}
    {outputs : Channel → List Value} (own : solution.writes thread channel)
    (isItems : items queue = items (config.queues channel) ++ values)
    (run : Act.Runs network.act (solution.reads thread) (solution.writes thread) next (left contents config)
      (Function.update (closed config) channel (isClosed queue)) outputs steps (solution.final thread))
    (writes : ∀ other, solution.writes thread other →
      config.sent other ++ Function.update outputs channel (values ++ outputs channel) other = contents other) :
    Agrees solution (config.sends thread next channel queue values) (Function.update cost thread steps) := by
  have flags : closed (config.sends thread next channel queue values) =
      Function.update (closed config) channel (isClosed queue) := by
    funext other
    simp only [closed, Config.sends, Function.update_apply]
    split <;> rfl
  apply holds.advance (config.sends thread next channel queue values) rfl _ (fun _ _ => rfl)
  · intro other foreign
    have apart : other ≠ channel := by
      rintro rfl
      exact foreign own
    rw [flags, Function.update_of_ne apart]
    exact ⟨rfl, Function.update_of_ne apart _ _⟩
  · rw [flags]
    exact run
  · intro other mine
    have whole := writes other mine
    simp only [Config.sends, Function.update_apply] at whole ⊢
    split
    · next isChannel =>
      rw [if_pos isChannel, isChannel] at whole
      rw [isChannel, List.append_assoc]
      exact whole
    · next apart =>
      rw [if_neg apart] at whole
      exact whole
  · intro other
    simp only [Config.sends, Function.update_apply]
    split
    · next isChannel => rw [isChannel, isItems, holds.fifo, List.append_assoc]
    · exact holds.fifo other

/-- What a pop answers is the thread's next input. -/
theorem receives (holds : Agrees solution config cost) {next : Local} {steps : ℕ} {value : Option Value} {queue : Queue}
    {outputs : Channel → List Value} (own : solution.reads thread channel)
    (isItems : items (config.queues channel) = value.toList ++ items queue)
    (stays : isClosed queue = closed config channel)
    (run : Act.Runs network.act (solution.reads thread) (solution.writes thread) next
      (Function.update (left contents config) channel ((left contents config channel).drop value.toList.length))
      (closed config) outputs steps (solution.final thread))
    (writes : ∀ other, solution.writes thread other → config.sent other ++ outputs other = contents other) :
    Agrees solution (config.receives thread next channel queue value) (Function.update cost thread steps) := by
  have flags : closed (config.receives thread next channel queue value) = closed config := by
    funext other
    simp only [closed, Config.receives, Function.update_apply]
    split
    · next isChannel => rw [stays, isChannel, closed]
    · rfl
  have inputs : left contents (config.receives thread next channel queue value) =
      Function.update (left contents config) channel ((left contents config channel).drop value.toList.length) := by
    funext other
    simp only [left, Config.receives, Function.update_apply]
    split
    · next isChannel => rw [isChannel, List.length_append, List.drop_drop]
    · rfl
  apply holds.advance _ rfl _ _ (fun other _ => ⟨congrFun flags other, rfl⟩)
  · rw [flags, inputs]
    exact run
  · exact writes
  · intro other
    simp only [Config.receives, Function.update_apply]
    split
    · next isChannel => rw [isChannel, holds.fifo, isItems, List.append_assoc]
    · exact holds.fifo other
  · intro other foreign
    apply Function.update_of_ne
    rintro rfl
    exact foreign own

/-- Every step of the network takes one step off the run of its thread. -/
theorem step (holds : Agrees solution config cost) (step : network.step config thread = some after) :
    ∃ steps, cost thread = steps + 1 ∧ Agrees solution after (Function.update cost thread steps) := by
  obtain ⟨outputs, run, writes⟩ := holds.runs thread
  unfold ProcessNetwork.step at step
  generalize isCost : cost thread = total at run
  generalize isInputs : left contents config = inputs at run
  generalize isFlags : closed config = flags at run
  generalize isFinal : solution.final thread = final at run
  cases run with
  | @push _ next channel value _ _ _ steps _ isPush own opened rest =>
    subst isInputs isFlags isFinal
    obtain ⟨queue, accepted, isItems, stays⟩ := push_of_open value opened
    simp only [isPush, accepted, Option.map_some, Option.some_inj] at step
    subst step
    refine ⟨steps, rfl, holds.sends own isItems ?_ writes⟩
    rw [stays, ← opened, Function.update_eq_self]
    exact rest
  | @pushBatch _ next channel values _ _ _ steps _ isPush own opened rest =>
    subst isInputs isFlags isFinal
    obtain ⟨queue, accepted, isItems, stays⟩ := pushBatch_of_open values opened
    simp only [isPush, accepted, Option.map_some, Option.some_inj] at step
    subst step
    refine ⟨steps, rfl, holds.sends own isItems ?_ writes⟩
    rw [stays, ← opened, Function.update_eq_self]
    exact rest
  | @pop _ next channel value behind _ _ _ steps _ isPop own first rest =>
    subst isInputs isFlags isFinal
    simp only [isPop, Option.map_eq_some_iff, Prod.exists] at step
    obtain ⟨answered, queue, popped, rfl⟩ := step
    obtain ⟨isFirst, isItems, stays⟩ := holds.answer popped
    rw [first, List.head?_cons] at isFirst
    subst isFirst
    refine ⟨steps, rfl, holds.receives own isItems stays ?_ writes⟩
    rw [first]
    exact rest
  | @exhausted _ next channel _ _ _ steps _ isPop own none rest =>
    subst isInputs isFlags isFinal
    simp only [isPop, Option.map_eq_some_iff, Prod.exists] at step
    obtain ⟨answered, queue, popped, rfl⟩ := step
    obtain ⟨isNone, isItems, stays⟩ := holds.answer popped
    rw [none, List.head?_nil] at isNone
    subst isNone
    refine ⟨steps, rfl, holds.receives own isItems stays ?_ writes⟩
    rw [Option.toList_none, List.length_nil, List.drop_zero, Function.update_eq_self]
    exact rest
  | @close _ next channel _ _ _ steps _ isClose own rest =>
    subst isInputs isFlags isFinal
    simp only [isClose, Option.some_inj] at step
    subst step
    have same : items (close (config.queues channel)) = items (config.queues channel) ++ [] := by
      rw [items_close, List.append_nil]
    rw [← isClosed_close (config.queues channel)] at rest
    refine ⟨steps, rfl, holds.sends own same rest ?_⟩
    rw [List.nil_append, Function.update_eq_self]
    exact writes
  | @isClosed _ next channel _ _ _ steps _ asks own rest =>
    subst isInputs isFlags isFinal
    simp only [asks, Option.some_inj] at step
    subst step
    exact ⟨steps, rfl, holds.advance _ rfl holds.fifo (fun _ _ => rfl) (fun _ _ => ⟨rfl, rfl⟩) rest writes⟩
  | done isDone all =>
    simp only [isDone] at step
    contradiction

/-- Unless every thread is done, one can step: of those that are not, one of the lowest rank. -/
theorem progress (holds : Agrees solution config cost) (unfinished : ¬network.Complete config) :
    ∃ thread after, network.step config thread = some after := by
  obtain ⟨thread, working⟩ := not_forall.mp unfinished
  induction isRank : solution.rank thread using Nat.strong_induction_on generalizing thread with
  | _ rank ih =>
    obtain ⟨outputs, run, _⟩ := holds.runs thread
    have waits (channel : Channel) (own : solution.reads thread channel) :
        (∃ value queue, pop (config.queues channel) = some (value, queue)) ∨
          ∃ thread after, network.step config thread = some after := by
      cases held : items (config.queues channel) with
      | cons first rest =>
        obtain ⟨after, answers, _⟩ := pop_of_cons held
        exact .inl ⟨_, _, answers⟩
      | nil =>
        cases shut : isClosed (config.queues channel) with
        | true =>
          obtain ⟨after, answers, _⟩ := pop_of_closed held shut
          exact .inl ⟨_, _, answers⟩
        | false =>
          -- the writer has not closed the queue, so it is not done
          obtain ⟨writer, writes, isLower⟩ := solution.lower thread channel own
          refine .inr (ih _ (isRank ▸ isLower) writer ?_ rfl)
          intro isDone
          obtain ⟨_, writing, _⟩ := holds.runs writer
          have all := (writing.of_done isDone).1 channel writes
          rw [closed, shut] at all
          contradiction
    generalize cost thread = total at run
    generalize left contents config = inputs at run
    generalize isFlags : closed config = flags at run
    generalize solution.final thread = final at run
    cases run with
    | @push _ _ channel value _ _ _ _ _ isPush _ opened =>
      rw [← isFlags] at opened
      obtain ⟨queue, accepted, _⟩ := push_of_open value opened
      exact ⟨thread, _, by simp only [ProcessNetwork.step, isPush, accepted, Option.map_some]; rfl⟩
    | @pushBatch _ _ channel values _ _ _ _ _ isPush _ opened =>
      rw [← isFlags] at opened
      obtain ⟨queue, accepted, _⟩ := pushBatch_of_open values opened
      exact ⟨thread, _, by simp only [ProcessNetwork.step, isPush, accepted, Option.map_some]; rfl⟩
    | pop isPop own | exhausted isPop own =>
      rcases waits _ own with ⟨value, queue, answers⟩ | other
      · exact ⟨thread, _, by simp only [ProcessNetwork.step, isPop, answers, Option.map_some]; rfl⟩
      · exact other
    | close isClose => exact ⟨thread, _, by simp only [ProcessNetwork.step, isClose]; rfl⟩
    | isClosed asks => exact ⟨thread, _, by simp only [ProcessNetwork.step, asks]; rfl⟩
    | done isDone => exact absurd isDone working

end Agrees

theorem agrees_reachable [DecidableEq Thread] (solution : network.Solution contents)
    (reached : (network.system Queue).Reachable config) : ∃ cost, Agrees solution config cost := by
  apply reached.invariant
  · rintro _ rfl
    exact exists_agrees_initial Queue solution
  · rintro before after ⟨cost, holds⟩ ⟨thread, step⟩
    obtain ⟨_, _, holds⟩ := holds.step step
    exact ⟨_, holds⟩

/-- At the end every thread is where its run alone ends. -/
theorem Agrees.locals_of_complete (holds : Agrees solution config cost) (complete : network.Complete config)
    (thread : Thread) :
    config.locals thread = solution.final thread := by
  obtain ⟨_, run, _⟩ := holds.runs thread
  exact (run.of_done (complete thread)).2.2

/-- A schedule uses up as many steps of the threads' runs as it is long. -/
theorem Agrees.schedule [DecidableEq Thread] [Fintype Thread] (holds : Agrees solution config cost)
    (schedule : List Thread)
    (run : schedule.foldlM network.step config = some after) : schedule.length ≤ ∑ thread, cost thread := by
  induction schedule generalizing config cost with
  | nil => exact Nat.zero_le _
  | cons thread schedule ih =>
    rw [List.foldlM_cons] at run
    obtain ⟨between, first, rest⟩ := Option.bind_eq_some_iff.mp run
    obtain ⟨steps, isCost, holds⟩ := holds.step first
    have shorter := ih holds rest
    rw [Finset.sum_update_of_mem (Finset.mem_univ thread)] at shorter
    rw [Finset.sum_eq_add_sum_sdiff_singleton_of_mem (Finset.mem_univ thread) cost, isCost, List.length_cons]
    omega

/-- Whatever the schedule, the queue `channel` is given `expected` and closed. -/
structure Delivers [DecidableEq Thread] (Queue : Type*) [FifoQueue Queue Value]
    (network : ProcessNetwork Thread Channel Value Local) (channel : Channel) (expected : List Value) : Prop where
  /-- What was put into it is the beginning of what is expected, and all of it once it is closed. -/
  inOrder : ∀ config, (network.system Queue).Reachable config → config.sent channel <+: expected ∧
    (closed config channel → config.sent channel = expected)
  complete : ∀ config, (network.system Queue).Reachable config → network.Complete config →
    config.sent channel = expected ∧ closed config channel
  /-- Some thread can go on until all are done. -/
  progress : ∀ config, (network.system Queue).Reachable config → ¬network.Complete config →
    ∃ thread after, network.step config thread = some after
  bounded : ∃ bound, ∀ (schedule : List Thread) (config : Config Thread Channel Queue Value Local),
    schedule.foldlM network.step network.initial = some config → schedule.length ≤ bound

/-- What a schedule puts into the queue is the beginning of what is expected. -/
theorem Delivers.prefix_of_schedule [DecidableEq Thread] {expected sent : List Value}
    (delivers : network.Delivers Queue channel expected) (schedule : List Thread)
    (run : (schedule.foldlM network.step (network.initial : Config Thread Channel Queue Value Local)).map
      (·.sent channel) = some sent) :
    sent <+: expected := by
  obtain ⟨config, reaches, rfl⟩ := Option.map_eq_some_iff.mp run
  exact (delivers.inOrder config (TransitionSystem.reachable_ofMoves schedule reaches)).1

/-- Some schedule takes all threads to their end. -/
theorem Delivers.exists_complete [DecidableEq Thread] {expected : List Value}
    (delivers : network.Delivers Queue channel expected) :
    ∃ config, (network.system Queue).Reachable config ∧ network.Complete config := by
  by_contra never
  obtain ⟨bound, bounded⟩ := delivers.bounded
  have longer (n : ℕ) : ∃ (schedule : List Thread) (config : Config Thread Channel Queue Value Local),
      schedule.length = n ∧ schedule.foldlM network.step network.initial = some config := by
    induction n with
    | zero => exact ⟨[], network.initial, rfl, rfl⟩
    | succ n ih =>
      obtain ⟨schedule, config, length, run⟩ := ih
      have reached := TransitionSystem.reachable_ofMoves schedule run
      have unfinished : ¬network.Complete config := fun complete => never ⟨config, reached, complete⟩
      obtain ⟨thread, after, step⟩ := delivers.progress config reached unfinished
      refine ⟨schedule ++ [thread], after, by rw [List.length_append, length]; rfl, ?_⟩
      rw [List.foldlM_append, run]
      simpa using step
  obtain ⟨schedule, config, length, run⟩ := longer (bound + 1)
  have short := bounded schedule config run
  omega

namespace Solution

variable [DecidableEq Thread]

theorem delivers [Fintype Thread] (Queue : Type*) [FifoQueue Queue Value] (solution : network.Solution contents)
    (written : ∃ thread, solution.writes thread channel) : network.Delivers Queue channel (contents channel) where
  inOrder config reached := by
    obtain ⟨cost, holds⟩ := agrees_reachable solution reached
    obtain ⟨more, whole, _⟩ := holds.take_sent channel
    exact ⟨⟨more, whole⟩, holds.sent_of_closed⟩
  complete config reached complete := by
    obtain ⟨cost, holds⟩ := agrees_reachable solution reached
    obtain ⟨thread, own⟩ := written
    obtain ⟨_, run, _⟩ := holds.runs thread
    have shut := (run.of_done (complete thread)).1 channel own
    exact ⟨holds.sent_of_closed shut, shut⟩
  progress config reached := by
    obtain ⟨cost, holds⟩ := agrees_reachable solution reached
    exact holds.progress
  bounded := by
    obtain ⟨cost, holds⟩ := exists_agrees_initial Queue solution
    exact ⟨_, fun schedule _ run => holds.schedule schedule run⟩

end Solution

end ProcessNetwork
