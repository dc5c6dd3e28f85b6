import BackTester.ToMathlib.ProcessNetwork

/-! # Threads in larger networks

A thread that stands in a network with more queues and more kinds of values runs there as it does by itself.
-/

namespace Act

variable {Channel Extra Value Message Local Other : Type*}

/-- The same act among more queues, `Extra`, and more values, `Message`. -/
def widen (f : Local → Other) : Act Channel Value Local → Act (Channel ⊕ Extra) (Value ⊕ Message) Other
  | .push channel value next => .push (.inl channel) (.inl value) (f next)
  | .pushBatch channel values next => .pushBatch (.inl channel) (values.map .inl) (f next)
  | .pop channel next => .pop (.inl channel) fun value => f (next (value.bind Sum.getLeft?))
  | .close channel next => .close (.inl channel) (f next)
  | .isClosed channel next => .isClosed (.inl channel) fun closed => f (next closed)
  | .done => .done

/-- Contents of the queues among more queues. -/
def widenContents (contents : Channel → List Value) (more : Extra → List (Value ⊕ Message)) :
    Channel ⊕ Extra → List (Value ⊕ Message) :=
  Sum.elim (fun channel => (contents channel).map .inl) more

variable {contents : Channel → List Value} {more : Extra → List (Value ⊕ Message)}

theorem widenContents_inl (channel : Channel) :
    widenContents contents more (.inl channel) = (contents channel).map .inl := rfl

variable [DecidableEq Channel] [DecidableEq Extra]

theorem update_widenContents (channel : Channel) (values : List Value) :
    Function.update (widenContents contents more) (.inl channel) (values.map .inl) =
      widenContents (Function.update contents channel values) more := by
  unfold widenContents
  rw [Sum.update_elim_inl]
  congr 1
  funext other
  rw [Function.update_apply, Function.update_apply]
  split <;> rfl

variable {act : Local → Act Channel Value Local} {act' : Other → Act (Channel ⊕ Extra) (Value ⊕ Message) Other}
  {reads writes : Channel → Prop} {reads' writes' : Channel ⊕ Extra → Prop} {state final : Local}
  {inputs outputs : Channel → List Value} {closed : Channel → Bool} {steps : ℕ}

/-- A thread that goes through the acts of another among more queues, of which it writes none, runs like it. -/
theorem Runs.widen (f : Local → Other) (same : ∀ state, act' (f state) = (act state).widen f)
    (isReader : ∀ channel, reads channel → reads' (.inl channel))
    (isWriter : ∀ channel, writes channel → writes' (.inl channel))
    (isOnly : ∀ channel, writes' channel → ∃ own, writes own ∧ .inl own = channel)
    (more : Extra → List (Value ⊕ Message))
    (flags : Extra → Bool) (run : Runs act reads writes state inputs closed outputs steps final) :
    Runs act' reads' writes' (f state) (widenContents inputs more) (Sum.elim closed flags)
      (widenContents outputs fun _ => []) steps
      (f final) := by
  have acts {state : Local} {next : Act Channel Value Local} (isNext : act state = next) :
      act' (f state) = next.widen f := by
    rw [same, isNext]
  induction run with
  | push isPush own opened _ ih =>
    have pushed := Runs.push (acts isPush) (isWriter _ own) opened ih
    rwa [widenContents_inl, ← List.map_cons, update_widenContents] at pushed
  | pushBatch isPush own opened _ ih =>
    have pushed := Runs.pushBatch (acts isPush) (isWriter _ own) opened ih
    rwa [widenContents_inl, ← List.map_append, update_widenContents] at pushed
  | pop isPop own first _ ih =>
    refine Runs.pop (acts isPop) (isReader _ own) (by rw [widenContents_inl, first, List.map_cons]) ?_
    rw [update_widenContents]
    exact ih
  | exhausted isPop own none _ ih =>
    exact .exhausted (acts isPop) (isReader _ own) (by rw [widenContents_inl, none, List.map_nil]) ih
  | close isClose own _ ih =>
    refine Runs.close (acts isClose) (isWriter _ own) ?_
    rw [Sum.update_elim_inl]
    exact ih
  | isClosed asks own _ ih => exact .isClosed (acts asks) (isWriter _ own) ih
  | done isDone all =>
    have nothing : widenContents (fun _ : Channel => ([] : List Value))
        (fun _ : Extra => ([] : List (Value ⊕ Message))) = fun _ => [] := by
      funext channel
      cases channel <;> rfl
    rw [nothing]
    refine Runs.done (acts isDone) fun channel isOwn => ?_
    obtain ⟨own, writing, rfl⟩ := isOnly channel isOwn
    exact all own writing

end Act
