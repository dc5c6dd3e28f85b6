import BackTester.Proofs.Ingestion.MergePlan

/-! # The threads of the hierarchical merger run alone

`merge_two` keeps the first event left of each of its queues. So what it pushes from the head of its
loop on is the merge of the two, each with its kept event in front.
-/

namespace BackTester.HierarchyMerger

variable {N : ℕ} {a b : InputQueue N} {out : Channel N} {ea eb : Option MarketDataEvent}
  {inputs : Channel N → List MarketDataEvent} {reads writes : Channel N → Prop}

theorem mergeBy_cons_of_gt {e f : MarketDataEvent} {es fs : List MarketDataEvent} (gt : e.tsRecv > f.tsRecv) :
    List.mergeBy MarketDataEvent.tsRecv (e :: es) (f :: fs) =
      f :: List.mergeBy MarketDataEvent.tsRecv (e :: es) fs := by
  apply List.cons_merge_cons_neg
  simpa using gt

theorem mergeBy_cons_of_not_gt {e f : MarketDataEvent} {es fs : List MarketDataEvent} (notGt : ¬e.tsRecv > f.tsRecv) :
    List.mergeBy MarketDataEvent.tsRecv (e :: es) (f :: fs) =
      e :: List.mergeBy MarketDataEvent.tsRecv es (f :: fs) := by
  apply List.cons_merge_cons_pos
  simpa using notGt

section MergeTwo

variable (apart : a ≠ b) (readsA : reads (.input a)) (readsB : reads (.input b))
  (own : ∀ channel, writes channel ↔ channel = out)
include apart readsA readsB own

/-- From the head of its loop on `merge_two` pushes the merge of `as` and `bs`, each what it has
kept of a queue before what is left in it, and closes its queue. -/
theorem runs_merging {as bs : List MarketDataEvent} (isA : ea.toList ++ inputs (.input a) = as)
    (isB : eb.toList ++ inputs (.input b) = bs) (noneA : ea = none → as = []) (noneB : eb = none → bs = []) :
    ∃ steps, Act.Runs act reads writes (.merging a b out ea eb) inputs (fun _ => false)
      (Function.update (fun _ => []) out (List.mergeBy MarketDataEvent.tsRecv as bs)) steps .finished := by
  have apartA : Channel.input b ≠ .input a := fun same => apart (Channel.input.inj same).symm
  have apartB : Channel.input a ≠ .input b := fun same => apart (Channel.input.inj same)
  induction size : as.length + bs.length using Nat.strong_induction_on generalizing as bs ea eb inputs with
  | _ total ih =>
    -- popping the next event of a queue leads back to the head of the loop
    have refillA {as' : List MarketDataEvent} (isLeft : inputs (.input a) = as')
        (shorter : as'.length + bs.length < total) :
        ∃ steps, Act.Runs act reads writes (.refillA a b out eb) inputs (fun _ => false)
          (Function.update (fun _ => []) out (List.mergeBy MarketDataEvent.tsRecv as' bs)) steps .finished := by
      cases as' with
      | nil =>
        have isA' : (none : Option MarketDataEvent).toList ++ inputs (.input a) = [] := isLeft
        obtain ⟨steps, run⟩ := ih _ shorter isA' isB (fun _ => rfl) noneB rfl
        exact ⟨steps + 1, .exhausted (by rfl) readsA isLeft run⟩
      | cons e rest =>
        have isB' : eb.toList ++ Function.update inputs (.input a) rest (.input b) = bs := by
          rw [Function.update_of_ne apartA, isB]
        have isA' : (some e).toList ++ Function.update inputs (.input a) rest (.input a) = e :: rest := by
          rw [Function.update_self]
          rfl
        obtain ⟨steps, run⟩ := ih _ shorter isA' isB' (fun none => by contradiction) noneB rfl
        exact ⟨steps + 1, .pop (by rfl) readsA isLeft run⟩
    have refillB {bs' : List MarketDataEvent} (isLeft : inputs (.input b) = bs')
        (shorter : as.length + bs'.length < total) :
        ∃ steps, Act.Runs act reads writes (.refillB a b out ea) inputs (fun _ => false)
          (Function.update (fun _ => []) out (List.mergeBy MarketDataEvent.tsRecv as bs')) steps .finished := by
      cases bs' with
      | nil =>
        have isB' : (none : Option MarketDataEvent).toList ++ inputs (.input b) = [] := isLeft
        obtain ⟨steps, run⟩ := ih _ shorter isA isB' noneA (fun _ => rfl) rfl
        exact ⟨steps + 1, .exhausted (by rfl) readsB isLeft run⟩
      | cons e rest =>
        have isA' : ea.toList ++ Function.update inputs (.input b) rest (.input a) = as := by
          rw [Function.update_of_ne apartB, isA]
        have isB' : (some e).toList ++ Function.update inputs (.input b) rest (.input b) = e :: rest := by
          rw [Function.update_self]
          rfl
        obtain ⟨steps, run⟩ := ih _ shorter isA' isB' noneA (fun none => by contradiction) rfl
        exact ⟨steps + 1, .pop (by rfl) readsB isLeft run⟩
    have pushed {next : Local N} {e : MarketDataEvent} {rest : List MarketDataEvent} {steps : ℕ}
        (isPush : act (.merging a b out ea eb) = .push out e next)
        (run : Act.Runs act reads writes next inputs (fun _ => false) (Function.update (fun _ => []) out rest)
          steps .finished) :
        Act.Runs act reads writes (.merging a b out ea eb) inputs (fun _ => false)
          (Function.update (fun _ => []) out (e :: rest)) (steps + 1) .finished := by
      have first := Act.Runs.push isPush ((own out).mpr rfl) rfl run
      rw [Function.update_self, Function.update_idem] at first
      exact first
    cases ea with
    | none =>
      obtain rfl := noneA rfl
      cases eb with
      | none =>
        obtain rfl := noneB rfl
        refine ⟨1, .close rfl ((own out).mpr rfl) ?_⟩
        have nothing : Function.update (fun _ => []) out (List.mergeBy MarketDataEvent.tsRecv [] []) = fun _ => [] := by
          simp [List.mergeBy]
        rw [nothing]
        apply Act.Runs.done rfl
        intro channel isOwn
        rw [(own channel).mp isOwn, Function.update_self]
      | some f =>
        subst isB
        obtain ⟨steps, run⟩ := refillB rfl (by rw [← size]; simp)
        rw [List.mergeBy, List.nil_merge] at run
        rw [List.mergeBy, List.nil_merge]
        exact ⟨steps + 1, pushed rfl run⟩
    | some e =>
      subst isA
      cases eb with
      | none =>
        obtain rfl := noneB rfl
        obtain ⟨steps, run⟩ := refillA rfl (by rw [← size]; simp)
        rw [List.mergeBy, List.merge_right] at run
        rw [List.mergeBy, List.merge_right]
        exact ⟨steps + 1, pushed rfl run⟩
      | some f =>
        subst isB
        by_cases later : e.tsRecv > f.tsRecv
        · obtain ⟨steps, run⟩ := refillB rfl (by rw [← size]; simp)
          refine ⟨steps + 1, ?_⟩
          simp only [Option.toList_some, List.singleton_append] at run ⊢
          rw [mergeBy_cons_of_gt later]
          exact pushed (if_pos later) run
        · obtain ⟨steps, run⟩ := refillA rfl (by rw [← size]; simp)
          refine ⟨steps + 1, ?_⟩
          simp only [Option.toList_some, List.singleton_append] at run ⊢
          rw [mergeBy_cons_of_not_gt later]
          exact pushed (if_neg later) run

theorem runs_popB {as bs : List MarketDataEvent} (isA : ea.toList ++ inputs (.input a) = as)
    (isB : inputs (.input b) = bs) (noneA : ea = none → as = []) :
    ∃ steps, Act.Runs act reads writes (.popB a b out ea) inputs (fun _ => false)
      (Function.update (fun _ => []) out (List.mergeBy MarketDataEvent.tsRecv as bs)) steps .finished := by
  have apartB : Channel.input a ≠ .input b := fun same => apart (Channel.input.inj same)
  cases bs with
  | nil =>
    have isB' : (none : Option MarketDataEvent).toList ++ inputs (.input b) = [] := isB
    obtain ⟨steps, run⟩ := runs_merging apart readsA readsB own isA isB' noneA fun _ => rfl
    exact ⟨steps + 1, .exhausted (by rfl) readsB isB run⟩
  | cons f rest =>
    have isA' : ea.toList ++ Function.update inputs (.input b) rest (.input a) = as := by
      rw [Function.update_of_ne apartB, isA]
    have isB' : (some f).toList ++ Function.update inputs (.input b) rest (.input b) = f :: rest := by
      rw [Function.update_self]
      rfl
    obtain ⟨steps, run⟩ := runs_merging apart readsA readsB own isA' isB' noneA fun none => by contradiction
    exact ⟨steps + 1, .pop (by rfl) readsB isB run⟩

/-- `merge_two` pushes the merge of its two queues, and its thread closes the queue after it. -/
theorem runs_mergeTwo {as bs : List MarketDataEvent} (isA : inputs (.input a) = as) (isB : inputs (.input b) = bs) :
    ∃ steps, Act.Runs act reads writes (.popA a b out) inputs (fun _ => false)
      (Function.update (fun _ => []) out (List.mergeBy MarketDataEvent.tsRecv as bs)) steps .finished := by
  have apartA : Channel.input b ≠ .input a := fun same => apart (Channel.input.inj same).symm
  cases as with
  | nil =>
    have isA' : (none : Option MarketDataEvent).toList ++ inputs (.input a) = [] := isA
    obtain ⟨steps, run⟩ := runs_popB apart readsA readsB own isA' isB fun _ => rfl
    exact ⟨steps + 1, .exhausted (by rfl) readsA isA run⟩
  | cons e rest =>
    have isA' : (some e).toList ++ Function.update inputs (.input a) rest (.input a) = e :: rest := by
      rw [Function.update_self]
      rfl
    have isB' : Function.update inputs (.input a) rest (.input b) = bs := by
      rw [Function.update_of_ne apartA, isB]
    obtain ⟨steps, run⟩ := runs_popB apart readsA readsB own isA' isB' fun none => by contradiction
    exact ⟨steps + 1, .pop (by rfl) readsA isA run⟩

end MergeTwo

/-- `drain` pushes all there is, and the output is closed after it. -/
theorem runs_draining (own : ∀ channel, writes channel ↔ channel = .output) (readsA : reads (.input a))
    {as : List MarketDataEvent} (isA : inputs (.input a) = as) :
    ∃ steps, Act.Runs act reads writes (.draining a) inputs (fun _ => false)
      (Function.update (fun _ => []) .output as) steps
      .finished := by
  induction as generalizing inputs with
  | nil =>
    rw [Function.update_eq_self]
    refine ⟨2, .exhausted (by rfl) readsA isA (.close (by rfl) ((own .output).mpr rfl) (.done rfl ?_))⟩
    intro channel isOwn
    rw [(own channel).mp isOwn, Function.update_self]
  | cons e rest ih =>
    obtain ⟨steps, run⟩ := ih (Function.update_self (Channel.input a) rest inputs)
    have pushed :=
      Act.Runs.push (by rfl : act (.drained a e) = .push .output e (.draining a)) ((own .output).mpr rfl) rfl run
    rw [Function.update_self, Function.update_idem] at pushed
    exact ⟨steps + 2, .pop (by rfl) readsA isA pushed⟩

end BackTester.HierarchyMerger
