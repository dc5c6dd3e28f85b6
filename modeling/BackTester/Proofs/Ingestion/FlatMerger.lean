import BackTester.Model.Ingestion.FlatMerger
import BackTester.ToMathlib.Interleaving

/-! # The flat merger run alone

Beside the heap of keys the merger buffers one event of each file. The two stay in step: the heap
holds one key for each buffered event, its own; what is buffered of a file comes before what is left
of it; and a file with nothing buffered that the merger has looked at is used up. So each emitted
event is the first one left of its file, and none of the others is earlier.
-/

namespace BackTester.FlatMerger

open PriorityQueue

variable {N : ℕ} {Heap : Type*} [PriorityQueue Heap (cmp (N := N))]
  {buf : Fin N → MarketDataEvent} {heap : Heap} {inputs : Channel N → List MarketDataEvent}
  {pending : Fin N → List MarketDataEvent} {seen : Fin N → Prop} {file : Fin N} {buffered : Finset (Fin N)}

/-- The keys of the buffered events. -/
def keysOf (buf : Fin N → MarketDataEvent) (buffered : Finset (Fin N)) : Multiset (HeapKey N) :=
  buffered.val.map fun file => ⟨(buf file).tsRecv, file⟩

/-- The buffer, the heap and the queues hold what is pending of each file, when the files of
`buffered` have an event in the buffer and the queues of `seen` have been looked at since their last
event was emitted. -/
structure InStep (buf : Fin N → MarketDataEvent) (heap : Heap) (inputs : Channel N → List MarketDataEvent)
    (pending : Fin N → List MarketDataEvent) (seen : Fin N → Prop) (buffered : Finset (Fin N)) : Prop where
  keys : keys heap = keysOf buf buffered
  looked : ∀ file ∈ buffered, seen file
  held : ∀ file ∈ buffered, pending file = buf file :: inputs (.file file)
  left : ∀ file ∉ buffered, pending file = inputs (.file file)
  drained : ∀ file ∉ buffered, seen file → pending file = []

theorem inStep_start (Heap : Type*) [PriorityQueue Heap (cmp (N := N))] (inputs : Channel N → List MarketDataEvent) :
    InStep (fun _ => {}) (empty : Heap) inputs (fun file => inputs (.file file)) (fun file => file.val < 0) ∅ where
  keys := keys_empty
  looked _ isIn := absurd isIn (Finset.notMem_empty _)
  held _ isIn := absurd isIn (Finset.notMem_empty _)
  left _ _ := rfl
  drained _ _ looked := absurd looked (Nat.not_lt_zero _)

namespace InStep

/-- The next event of a file that has none buffered goes into the buffer. -/
theorem store (holds : InStep buf heap inputs pending seen buffered) {e : MarketDataEvent} {rest : List MarketDataEvent}
    {looked : Fin N → Prop} (none : file ∉ buffered) (first : inputs (.file file) = e :: rest)
    (also : ∀ other, looked other ↔ other = file ∨ seen other) :
    InStep (Function.update buf file e) (push heap ⟨e.tsRecv, file⟩) (Function.update inputs (.file file) rest)
      pending looked (insert file buffered) := by
  have apart (other : Fin N) (isIn : other ∈ buffered) : other ≠ file := by
    rintro rfl
    exact none isIn
  constructor
  · rw [keys_push, holds.keys, keysOf, keysOf, Finset.insert_val_of_notMem none, Multiset.map_cons,
      Function.update_self]
    congr 1
    apply Multiset.map_congr rfl
    intro other isIn
    rw [Function.update_of_ne (apart other isIn)]
  · intro other isIn
    exact (also other).mpr ((Finset.mem_insert.mp isIn).imp_right (holds.looked other))
  · intro other isIn
    rcases Finset.mem_insert.mp isIn with rfl | isIn
    · rw [Function.update_self, Function.update_self, holds.left _ none, first]
    · have differs : Channel.file other ≠ .file file := fun same => apart other isIn (Channel.file.inj same)
      rw [Function.update_of_ne (apart other isIn), Function.update_of_ne differs, holds.held other isIn]
  · intro other isIn
    obtain ⟨differs, notIn⟩ := not_or.mp (mt Finset.mem_insert.mpr isIn)
    rw [Function.update_of_ne fun same => differs (Channel.file.inj same), holds.left other notIn]
  · intro other isIn looks
    obtain ⟨differs, notIn⟩ := not_or.mp (mt Finset.mem_insert.mpr isIn)
    exact holds.drained other notIn (((also other).mp looks).resolve_left differs)

/-- A queue that is used up leaves its file without a buffered event. -/
theorem skip (holds : InStep buf heap inputs pending seen buffered) {looked : Fin N → Prop} (none : file ∉ buffered)
    (empty : inputs (.file file) = []) (also : ∀ other, looked other ↔ other = file ∨ seen other) :
    InStep buf heap inputs pending looked buffered where
  keys := holds.keys
  looked other isIn := (also other).mpr (.inr (holds.looked other isIn))
  held := holds.held
  left := holds.left
  drained other isIn looks := by
    rcases (also other).mp looks with rfl | looks
    · rw [holds.left other none, empty]
    · exact holds.drained other isIn looks

/-- The top of the heap is the key of a buffered event; emitting the event leaves what was pending behind it. -/
theorem emit (holds : InStep buf heap inputs pending (fun _ => True) buffered) {key : HeapKey N}
    (isTop : top heap = some key) :
    pending key.fileIdx = buf key.fileIdx :: inputs (.file key.fileIdx) ∧
      InStep buf (pop heap) inputs (Function.update pending key.fileIdx (inputs (.file key.fileIdx)))
        (fun other => other ≠ key.fileIdx) (buffered.erase key.fileIdx) := by
  have split := keys_pop isTop
  have isIn : key ∈ keysOf buf buffered := by
    rw [← holds.keys, split]
    exact Multiset.mem_cons_self key _
  obtain ⟨file, inBuffer, rfl⟩ := Multiset.mem_map.mp isIn
  refine ⟨holds.held file inBuffer, ?_⟩
  constructor
  · rw [holds.keys, keysOf, ← Finset.insert_erase inBuffer,
      Finset.insert_val_of_notMem (Finset.notMem_erase file buffered), Multiset.map_cons] at split
    exact (Multiset.cons_inj_right _).mp split.symm
  · intro other isIn
    exact Finset.ne_of_mem_erase isIn
  · intro other isIn
    rw [Function.update_of_ne (Finset.ne_of_mem_erase isIn)]
    exact holds.held other (Finset.mem_of_mem_erase isIn)
  · intro other isIn
    by_cases same : other = file
    · rw [same, Function.update_self]
    · rw [Function.update_of_ne same]
      exact holds.left other fun inside => isIn (Finset.mem_erase.mpr ⟨same, inside⟩)
  · intro other isIn differs
    rw [Function.update_of_ne differs]
    exact holds.drained other (fun inside => isIn (Finset.mem_erase.mpr ⟨differs, inside⟩)) trivial

/-- No pending event is earlier than the one at the top. -/
theorem least (holds : InStep buf heap inputs pending (fun _ => True) buffered) {key : HeapKey N}
    (isTop : top heap = some key) (other : Fin N) (e : MarketDataEvent) (isFirst : e ∈ (pending other).head?) :
    (buf key.fileIdx).tsRecv ≤ e.tsRecv := by
  by_cases inBuffer : other ∈ buffered
  · rw [holds.held other inBuffer, List.head?_cons, Option.mem_some_iff] at isFirst
    subst isFirst
    have isKey : (⟨(buf other).tsRecv, other⟩ : HeapKey N) ∈ PriorityQueue.keys heap := by
      rw [holds.keys]
      exact Multiset.mem_map_of_mem _ inBuffer
    have notLess := not_less_top isTop isKey
    have isIn : key ∈ keysOf buf buffered := by
      rw [← holds.keys, keys_pop isTop]
      exact Multiset.mem_cons_self key _
    obtain ⟨file, _, rfl⟩ := Multiset.mem_map.mp isIn
    rw [cmp, decide_eq_false_iff_not, not_lt] at notLess
    exact notLess
  · rw [holds.drained other inBuffer trivial] at isFirst
    contradiction

/-- An empty heap means that nothing is pending. -/
theorem used_up (holds : InStep buf heap inputs pending (fun _ => True) buffered)
    (none : top heap = none) (file : Fin N) :
    pending file = [] := by
  apply holds.drained file _ trivial
  intro inBuffer
  have nothing := keys_of_top_none none
  rw [holds.keys, keysOf, Multiset.map_eq_zero, Finset.val_eq_zero] at nothing
  rw [nothing] at inBuffer
  exact Finset.notMem_empty file inBuffer

end InStep

def reader : Channel N → Thread N
  | .file _ => .merger
  | .output => .consumer

def writer : Channel N → Thread N
  | .file i => .producer i
  | .output => .merger

theorem loop_ne_done (buf : Fin N → MarketDataEvent) (heap : Heap) : loop buf heap ≠ .done := by
  unfold loop
  split <;> exact fun same => by contradiction

theorem sum_length_update_lt {rest : List MarketDataEvent} (shorter : rest.length < (pending file).length) :
    ∑ other, (Function.update pending file rest other).length < ∑ other, (pending other).length := by
  apply Finset.sum_lt_sum
  · intro other _
    rw [Function.update_apply]
    split
    · next same => exact same ▸ shorter.le
    · exact le_refl _
  · exact ⟨file, Finset.mem_univ file, by rwa [Function.update_self]⟩

/-- From the head of the second loop the merger emits a merge of what is pending. -/
theorem runs_merging (holds : InStep buf heap inputs pending (fun _ => True) buffered) :
    ∃ out steps, Act.Runs act (reader · = .merger) (writer · = .merger) (.merging buf heap) inputs (fun _ => false)
      (Function.update (fun _ => []) .output out) steps .finished ∧ Merges MarketDataEvent.tsRecv pending out := by
  induction total :
    ∑ file, (pending file).length using Nat.strong_induction_on generalizing buf heap inputs pending buffered with
  | _ total ih =>
    cases isTop : top heap with
    | none =>
      refine ⟨[], 1, ?_, .nil (holds.used_up isTop)⟩
      rw [Function.update_eq_self]
      have isClose : act (.merging buf heap) = .close .output .finished := by simp only [act, loop, isTop]
      refine .close isClose (by rfl) ?_
      apply Act.Runs.done rfl
      intro channel isOwn
      cases channel with
      | file => contradiction
      | output => rw [Function.update_self]
    | some key =>
      obtain ⟨first, emitted⟩ := holds.emit isTop
      have shorter : (inputs (.file key.fileIdx)).length < (pending key.fileIdx).length := by
        rw [first]
        exact Nat.lt_succ_self _
      have less := sum_length_update_lt shorter
      rw [total] at less
      have none : key.fileIdx ∉ buffered.erase key.fileIdx := Finset.notMem_erase _ _
      have all (other : Fin N) : True ↔ other = key.fileIdx ∨ other ≠ key.fileIdx := by
        rw [true_iff]
        exact em _
      suffices ∃ out steps, Act.Runs act (reader · = .merger) (writer · = .merger)
          (.refilling key.fileIdx buf (pop heap)) inputs (fun _ => false)
          (Function.update (fun _ => []) .output out) steps .finished ∧
          Merges MarketDataEvent.tsRecv (Function.update pending key.fileIdx (inputs (.file key.fileIdx))) out by
        obtain ⟨out, steps, run, merges⟩ := this
        refine ⟨buf key.fileIdx :: out, steps + 1, ?_, .cons key.fileIdx _ first (holds.least isTop) merges⟩
        have isPush : act (.merging buf heap) =
            .push .output (buf key.fileIdx) (.refilling key.fileIdx buf (pop heap)) := by
          simp only [act, loop, isTop]
        have pushed := Act.Runs.push isPush (by rfl) rfl run
        rw [Function.update_self, Function.update_idem] at pushed
        exact pushed
      cases isInput : inputs (.file key.fileIdx) with
      | nil =>
        obtain ⟨out, steps, run, merges⟩ := ih _ less (emitted.skip none isInput all) rfl
        rw [isInput] at merges
        exact ⟨out, steps + 1, .exhausted rfl rfl isInput run, merges⟩
      | cons e rest =>
        obtain ⟨out, steps, run, merges⟩ := ih _ less (emitted.store none isInput all) rfl
        rw [isInput] at merges
        exact ⟨out, steps + 1, .pop rfl rfl isInput run, merges⟩

/-- From file `i` on the first loop leaves the merger at the head of the second with the same events pending. -/
theorem runs_filling {i : ℕ} (holds : InStep buf heap inputs pending (fun file => file.val < i) buffered) (le : i ≤ N) :
    ∃ out steps, Act.Runs act (reader · = .merger) (writer · = .merger) (.filling i buf heap) inputs (fun _ => false)
      (Function.update (fun _ => []) .output out) steps .finished ∧ Merges MarketDataEvent.tsRecv pending out := by
  induction behind : N - i generalizing i buf heap inputs buffered with
  | zero =>
    have last : i = N := by omega
    subst last
    have all : InStep buf heap inputs pending (fun _ => True) buffered :=
      { holds with
        looked := fun _ _ => trivial
        drained := fun file isIn _ => holds.drained file isIn file.isLt }
    obtain ⟨out, steps, run, merges⟩ := runs_merging all
    exact ⟨out, steps, run.of_act_eq (dif_neg (lt_irrefl i)) (loop_ne_done buf heap), merges⟩
  | succ behind ih =>
    have inside : i < N := by omega
    have none : (⟨i, inside⟩ : Fin N) ∉ buffered := fun isIn => lt_irrefl i (holds.looked _ isIn)
    have also (other : Fin N) : other.val < i + 1 ↔ other = ⟨i, inside⟩ ∨ other.val < i := by
      rw [Nat.lt_succ_iff, le_iff_eq_or_lt, Fin.ext_iff]
    cases isInput : inputs (.file ⟨i, inside⟩) with
    | nil =>
      obtain ⟨out, steps, run, merges⟩ := ih (holds.skip none isInput also) inside (by omega)
      exact ⟨out, steps + 1, .exhausted (dif_pos inside) rfl isInput run, merges⟩
    | cons e rest =>
      obtain ⟨out, steps, run, merges⟩ := ih (holds.store none isInput also) inside (by omega)
      exact ⟨out, steps + 1, .pop (dif_pos inside) rfl isInput run, merges⟩

end BackTester.FlatMerger
