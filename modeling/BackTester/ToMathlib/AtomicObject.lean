import BackTester.ToMathlib.TransitionSystem
import Mathlib.Data.List.Infix
import Mathlib.Logic.Function.Basic

/-! # Linearizability

Threads call an object and it answers them. What is seen of a run are the calls and the answers, and
the object is linearizable if they are those of a sequential run: of one that takes each call at
some time between the call and its answer. An implementation is shown to be linearizable by a
simulation. At one step of each call the atomic object takes the call, and what the implementation
stores is tied to what the atomic object then is.
-/

structure LabelledSystem (State Event : Type*) where
  initial : State → Prop
  /-- A step may show an event. -/
  step : State → Option Event → State → Prop

namespace LabelledSystem

variable {State Other Event Move : Type*}

/-- Some run shows the history and ends in the state. -/
inductive Shows (system : LabelledSystem State Event) : List Event → State → Prop
  | start {state} (isInitial : system.initial state) : Shows system [] state
  | step {history state event after} (shows : Shows system history state) (step : system.step state event after) :
      Shows system (history ++ event.toList) after

/-- Some steps from a state to another show the events. -/
inductive Answers (system : LabelledSystem State Event) : State → List Event → State → Prop
  | none {state} : Answers system state [] state
  | step {state event between events after} (step : system.step state event between)
      (rest : Answers system between events after) :
      Answers system state (event.toList ++ events) after

variable {system : LabelledSystem State Event} {abstract : LabelledSystem Other Event} {history events : List Event}
  {state after : State}

theorem Answers.of_step {event : Option Event} (step : system.step state event after) :
    system.Answers state event.toList after := by
  have answers := Answers.step step .none
  rwa [List.append_nil] at answers

theorem Shows.answers (shows : system.Shows history state) (answers : system.Answers state events after) :
    system.Shows (history ++ events) after := by
  induction answers generalizing history with
  | none => rwa [List.append_nil]
  | step step _ ih =>
    rw [← List.append_assoc]
    exact ih (shows.step step)

/-- Every step of one system is answered by steps of the other that show the same. -/
structure Simulates (system : LabelledSystem State Event) (abstract : LabelledSystem Other Event)
    (relates : State → Other → Prop) :
    Prop where
  start : ∀ state, system.initial state → ∃ other, abstract.initial other ∧ relates state other
  step : ∀ state event after other, relates state other → system.step state event after →
    ∃ other', abstract.Answers other event.toList other' ∧ relates after other'

theorem Simulates.shows {relates : State → Other → Prop} (simulates : system.Simulates abstract relates)
    (shows : system.Shows history state) : ∃ other, abstract.Shows history other ∧ relates state other := by
  induction shows with
  | start isInitial =>
    obtain ⟨other, isStart, related⟩ := simulates.start _ isInitial
    exact ⟨other, .start isStart, related⟩
  | step _ step ih =>
    obtain ⟨other, shown, related⟩ := ih
    obtain ⟨other', answers, related'⟩ := simulates.step _ _ _ other related step
    exact ⟨other', shown.answers answers, related'⟩

/-- The moves a function makes, where it can, with what is seen of each. -/
def ofMoves (start : State) (move : State → Move → Option State) (shown : State → Move → Option Event) :
    LabelledSystem State Event where
  initial state := state = start
  step before event after := ∃ choice, move before choice = some after ∧ event = shown before choice

end LabelledSystem

inductive CallEvent (Thread Op Ret : Type*)
  | call (thread : Thread) (op : Op)
  | ret (thread : Thread) (result : Ret)

namespace CallEvent

variable {Thread Op Ret : Type*} [DecidableEq Thread] (thread : Thread)

def op? : CallEvent Thread Op Ret → Option Op
  | .call caller op => if caller = thread then some op else none
  | .ret _ _ => none

def result? : CallEvent Thread Op Ret → Option Ret
  | .call _ _ => none
  | .ret caller result => if caller = thread then some result else none

/-- What a thread has called. -/
def calls (history : List (CallEvent Thread Op Ret)) : List Op := history.filterMap (op? thread)

/-- What a thread was answered. -/
def results (history : List (CallEvent Thread Op Ret)) : List Ret := history.filterMap (result? thread)

variable {history : List (CallEvent Thread Op Ret)} {caller : Thread} {op : Op} {result : Ret}

@[simp] theorem calls_append_call : calls thread (history ++ [.call caller op]) =
    calls thread history ++ if caller = thread then [op] else [] := by
  rw [calls, List.filterMap_append]
  split <;> simp_all [calls, op?]

@[simp] theorem calls_append_ret : calls thread (history ++ [.ret caller result]) = calls thread history := by
  simp [calls, List.filterMap_append, List.filterMap_cons, op?]

@[simp] theorem results_append_call : results thread (history ++ [.call caller op]) = results thread history := by
  simp [results, List.filterMap_append, List.filterMap_cons, result?]

@[simp] theorem results_append_ret : results thread (history ++ [.ret caller result]) =
    results thread history ++ if caller = thread then [result] else [] := by
  rw [results, List.filterMap_append]
  split <;> simp_all [results, result?]

end CallEvent

/-- An object that takes one call after the other. -/
structure AtomicObject (Op Ret Obj : Type*) where
  start : Obj
  /-- Nothing while the caller has to wait. -/
  apply : Obj → Op → Option (Ret × Obj)

namespace AtomicObject

open CallEvent LabelledSystem

variable {Thread Op Ret Obj State : Type*} [DecidableEq Thread] (object : AtomicObject Op Ret Obj)

/-- The calls, one after the other, have these results and leave this object. -/
inductive Legal : List (Thread × Op × Ret) → Obj → Prop
  | start : Legal [] object.start
  | take {order obj thread op result after} (legal : Legal order obj)
      (applies : object.apply obj op = some (result, after)) :
      Legal (order ++ [(thread, op, result)]) after

/-- What a thread has in a sequence of calls. -/
def ofThread (thread : Thread) (order : List (Thread × Op × Ret)) : List (Op × Ret) :=
  order.filterMap fun (caller, op, result) => if caller = thread then some (op, result) else none

@[simp] theorem ofThread_append_singleton {thread caller : Thread} {order : List (Thread × Op × Ret)}
    {op : Op} {result : Ret} :
    ofThread thread (order ++ [(caller, op, result)]) = ofThread thread order ++
    if caller = thread then [(op, result)] else [] := by
  rw [ofThread, List.filterMap_append]
  split <;> simp_all [ofThread]

/-- At every moment of the history some first part of the sequence has been taken: with every call
that was answered by then, and with none that was not yet made. So of two calls, one of which is
answered before the other is made, it is the first that is taken first. -/
structure Explains (order : List (Thread × Op × Ret)) (history : List (CallEvent Thread Op Ret)) : Prop where
  legal : ∃ obj, object.Legal order obj
  moments : ∀ before, before <+: history → ∃ taken, taken <+: order ∧ ∀ thread,
    results thread before <+: (ofThread thread taken).map Prod.snd ∧
    (ofThread thread taken).map Prod.fst <+: calls thread before

def Linearizable (system : LabelledSystem State (CallEvent Thread Op Ret)) : Prop :=
  ∀ history state, system.Shows history state → ∃ order, object.Explains order history

/-- A call that was made, or the result of one that was taken. -/
inductive Status (Op Ret : Type*)
  | idle
  | called (op : Op)
  | done (result : Ret)

structure Shared (Thread Op Ret Obj : Type*) where
  obj : Obj
  status : Thread → Status Op Ret

inductive Step : Shared Thread Op Ret Obj → Option (CallEvent Thread Op Ret) → Shared Thread Op Ret Obj → Prop
  | call {state thread} (op : Op) (isIdle : state.status thread = .idle) :
      Step state (some (.call thread op)) { state with status := Function.update state.status thread (.called op) }
  | take {state thread op result obj} (isCalled : state.status thread = .called op)
      (applies : object.apply state.obj op = some (result, obj)) :
      Step state none ⟨obj, Function.update state.status thread (.done result)⟩
  | ret {state thread result} (isDone : state.status thread = .done result) :
      Step state (some (.ret thread result)) { state with status := Function.update state.status thread .idle }

/-- The object with threads that call it as they like. -/
def shared (Thread : Type*) [DecidableEq Thread] :
    LabelledSystem (Shared Thread Op Ret Obj) (CallEvent Thread Op Ret) where
  initial state := state = ⟨object.start, fun _ => .idle⟩
  step := Step object

section Answers

variable {object} {state : Shared Thread Op Ret Obj} {thread : Thread} {op : Op} {result : Ret} {obj : Obj}

theorem answers_take (isCalled : state.status thread = .called op)
    (applies : object.apply state.obj op = some (result, obj)) :
    (object.shared Thread).Answers state [] ⟨obj, Function.update state.status thread (.done result)⟩ := by
  have step : (object.shared Thread).step state none ⟨obj, Function.update state.status thread (.done result)⟩ :=
    .take isCalled applies
  exact .of_step step

theorem answers_ret (isDone : state.status thread = .done result) :
    (object.shared Thread).Answers state [.ret thread result]
    { state with status := Function.update state.status thread .idle } := by
  have step : (object.shared Thread).step state (some (.ret thread result))
      { state with status := Function.update state.status thread .idle } := .ret isDone
  exact .of_step step

/-- A call is taken and answered. -/
theorem answers_take_ret (isCalled : state.status thread = .called op)
    (applies : object.apply state.obj op = some (result, obj)) :
    (object.shared Thread).Answers state [.ret thread result] ⟨obj, Function.update state.status thread .idle⟩ := by
  have taken : (object.shared Thread).step state none ⟨obj, Function.update state.status thread (.done result)⟩ :=
    .take isCalled applies
  have answered :
      (object.shared Thread).Answers ⟨obj, Function.update state.status thread (.done result)⟩ [.ret thread result]
      ⟨obj, Function.update (Function.update state.status thread (.done result)) thread .idle⟩ :=
    answers_ret (Function.update_self _ _ _)
  rw [Function.update_idem] at answered
  exact .step taken answered

end Answers

/-- How the calls and results of a thread stand to what was taken of it. -/
def Tally (calls : List Op) (results : List Ret) (taken : List (Op × Ret)) : Status Op Ret → Prop
  | .idle => calls = taken.map Prod.fst ∧ results = taken.map Prod.snd
  | .called op => calls = taken.map Prod.fst ++ [op] ∧ results = taken.map Prod.snd
  | .done result => calls = taken.map Prod.fst ∧ results ++ [result] = taken.map Prod.snd

theorem Tally.prefixes {calls : List Op} {results : List Ret} {taken : List (Op × Ret)} {status : Status Op Ret}
    (tally : Tally calls results taken status) : results <+: taken.map Prod.snd ∧ taken.map Prod.fst <+: calls := by
  cases status with
  | idle => exact ⟨tally.2 ▸ List.prefix_refl _, tally.1 ▸ List.prefix_refl _⟩
  | called op => exact ⟨tally.2 ▸ List.prefix_refl _, tally.1 ▸ List.prefix_append _ _⟩
  | done result => exact ⟨tally.2 ▸ List.prefix_append _ _, tally.1 ▸ List.prefix_refl _⟩

/-- The calls taken so far, in the order in which they were taken. -/
structure Log (order : List (Thread × Op × Ret)) (history : List (CallEvent Thread Op Ret))
    (state : Shared Thread Op Ret Obj) :
    Prop where
  legal : object.Legal order state.obj
  tally : ∀ thread, Tally (calls thread history) (results thread history) (ofThread thread order) (state.status thread)
  moments : ∀ before, before <+: history → ∃ taken, taken <+: order ∧ ∀ thread,
    results thread before <+: (ofThread thread taken).map Prod.snd ∧
    (ofThread thread taken).map Prod.fst <+: calls thread before

variable {object} {order more : List (Thread × Op × Ret)} {history : List (CallEvent Thread Op Ret)}
  {state after : Shared Thread Op Ret Obj} {event : Option (CallEvent Thread Op Ret)}

/-- Where the last moment is accounted for, all are. -/
theorem Log.extend (log : object.Log order history state) (legal : object.Legal (order ++ more) after.obj)
    (tally : ∀ thread, Tally (calls thread (history ++ event.toList)) (results thread (history ++ event.toList))
      (ofThread thread (order ++ more)) (after.status thread)) :
    object.Log (order ++ more) (history ++ event.toList) after where
  legal := legal
  tally := tally
  moments before isBefore := by
    have now : ∃ taken, taken <+: order ++ more ∧
        ∀ thread, results thread (history ++ event.toList) <+: (ofThread thread taken).map Prod.snd ∧
        (ofThread thread taken).map Prod.fst <+: calls thread (history ++ event.toList) :=
      ⟨_, List.prefix_refl _, fun thread => (tally thread).prefixes⟩
    cases event with
    | none =>
      rw [Option.toList_none, List.append_nil] at isBefore
      obtain ⟨taken, isTaken, counts⟩ := log.moments before isBefore
      exact ⟨taken, isTaken.trans (List.prefix_append _ _), counts⟩
    | some event =>
      rcases List.prefix_concat_iff.mp isBefore with isAll | isEarlier
      · rw [isAll]
        exact now
      · obtain ⟨taken, isTaken, counts⟩ := log.moments before isEarlier
        exact ⟨taken, isTaken.trans (List.prefix_append _ _), counts⟩

theorem log_step (log : object.Log order history state) (step : object.Step state event after) :
    ∃ more, object.Log (order ++ more) (history ++ event.toList) after := by
  cases step with
  | @call caller op isIdle =>
    refine ⟨[], log.extend (by rw [List.append_nil]; exact log.legal) fun thread => ?_⟩
    have tally := log.tally thread
    rcases eq_or_ne thread caller with rfl | apart
    · rw [isIdle] at tally
      simpa [Tally] using tally
    · simpa [Function.update_of_ne apart, apart.symm] using tally
  | @take caller op result obj isCalled applies =>
    refine ⟨[(caller, op, result)], log.extend (log.legal.take applies) fun thread => ?_⟩
    have tally := log.tally thread
    rcases eq_or_ne thread caller with rfl | apart
    · rw [isCalled] at tally
      simpa [Tally] using tally
    · simpa [Function.update_of_ne apart, apart.symm] using tally
  | @ret caller result isDone =>
    refine ⟨[], log.extend (by rw [List.append_nil]; exact log.legal) fun thread => ?_⟩
    have tally := log.tally thread
    rcases eq_or_ne thread caller with rfl | apart
    · rw [isDone] at tally
      simpa [Tally] using tally
    · simpa [Function.update_of_ne apart, apart.symm] using tally

theorem exists_log (shows : (object.shared Thread).Shows history state) : ∃ order, object.Log order history state := by
  induction shows with
  | start isInitial =>
    subst isInitial
    refine ⟨[], .start, fun _ => ⟨rfl, rfl⟩, fun before isBefore => ?_⟩
    obtain rfl := List.prefix_nil.mp isBefore
    exact ⟨[], List.prefix_refl _, fun _ => ⟨List.prefix_refl _, List.prefix_refl _⟩⟩
  | step _ step ih =>
    obtain ⟨order, log⟩ := ih
    obtain ⟨more, log⟩ := log_step log step
    exact ⟨order ++ more, log⟩

/-- What the object under concurrent calls simulates is linearizable. -/
theorem linearizable_of_simulates {system : LabelledSystem State (CallEvent Thread Op Ret)}
    {relates : State → Shared Thread Op Ret Obj → Prop} (simulates : system.Simulates (object.shared Thread) relates) :
    object.Linearizable system := by
  intro history state shows
  obtain ⟨other, shown, -⟩ := simulates.shows shows
  obtain ⟨order, log⟩ := exists_log shown
  exact ⟨order, ⟨⟨_, log.legal⟩, log.moments⟩⟩

end AtomicObject
