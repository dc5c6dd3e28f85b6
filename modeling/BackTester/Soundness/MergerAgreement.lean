import BackTester.Soundness.FlatMerger
import BackTester.Soundness.HierarchyMerger
import BackTester.ToMathlib.BinaryHeap

/-! # The two mergers beside one another

Both emit every event once, each file in its own order, with the same timestamps in the same places. Events of different
files with equal timestamps come out in the order of the files from the tree of merges, and as the binary heap has them
from the flat merger.
-/

namespace BackTester.MergerAgreement

variable {N : ℕ}

instance : StrictWeakLess (FlatMerger.cmp (N := N)) where
  asymm {a b} isLess := by
    simp only [FlatMerger.cmp, decide_eq_true_eq, decide_eq_false_iff_not, not_lt] at isLess ⊢
    exact isLess.le
  trans {a b c} ab bc := by
    simp only [FlatMerger.cmp, decide_eq_false_iff_not, not_lt] at ab bc ⊢
    exact bc.trans ab

/-- The flat merger with the heap of the standard library. -/
abbrev flatNetwork (files : Fin N → List MarketDataEvent) :=
  FlatMerger.network (BinaryHeap (FlatMerger.cmp (N := N))) files

/-- The two networks are bound to emit the same sequence, up to the order of the events of different files that have one
timestamp. -/
structure AgreeUpToTies (files : Fin N → List MarketDataEvent) (flat hierarchy : List MarketDataEvent) : Prop where
  timestamps : flat.map MarketDataEvent.tsRecv = hierarchy.map MarketDataEvent.tsRecv
  events : flat.Perm hierarchy
  inFlat : ∀ i, (files i).Sublist flat
  inHierarchy : ∀ i, (files i).Sublist hierarchy
  untied : (∀ i j a b, a ∈ files i → b ∈ files j → a.tsRecv = b.tsRecv → i = j) → flat = hierarchy

theorem agree_up_to_ties (Queue : Type*) [FifoQueue Queue MarketDataEvent] (files : Fin N → List MarketDataEvent)
    (sorted : ∀ i, (files i).SortedBy MarketDataEvent.tsRecv) :
    ∃ flat hierarchy, (flatNetwork files).Delivers Queue .output flat ∧
      (HierarchyMerger.network files).Delivers Queue .output hierarchy ∧ AgreeUpToTies files flat hierarchy := by
  obtain ⟨flat, merges, emits⟩ := FlatMerger.exists_emitted (BinaryHeap (FlatMerger.cmp (N := N))) files
  have perm : flat.Perm ((List.ofFn files).flatten.sortBy MarketDataEvent.tsRecv) :=
    merges.interleaves.perm.trans (List.sortBy_perm _).symm
  refine ⟨flat, _, (FlatMerger.solution _ files flat emits).delivers Queue ⟨.merger, rfl⟩,
    HierarchyMerger.delivers_sorted Queue files sorted, ?_⟩
  constructor
  · exact (merges.sortedBy sorted).map_eq_of_perm (List.sortedBy_sortBy _) perm
  · exact perm
  · exact merges.interleaves.sublist
  · intro i
    exact (sorted i).sublist_sortBy (List.sublist_flatten_of_mem (List.mem_ofFn.mpr ⟨i, rfl⟩))
  · exact merges.eq_sortBy sorted

/-- Two events of the first file and one of the second, all of one time. -/
def tiedFiles : Fin 2 → List MarketDataEvent
  | 0 => [{ tsRecv := 1, orderId := 1 }, { tsRecv := 1, orderId := 3 }]
  | 1 => [{ tsRecv := 1, orderId := 2 }]

theorem sortedBy_tiedFiles (i : Fin 2) : (tiedFiles i).SortedBy MarketDataEvent.tsRecv := by
  unfold List.SortedBy
  fin_cases i <;> decide

theorem agree_up_to_ties_tiedFiles : ∃ flat hierarchy,
    (flatNetwork tiedFiles).Delivers (BlockingQueue MarketDataEvent) .output flat ∧
      (HierarchyMerger.network tiedFiles).Delivers (BlockingQueue MarketDataEvent) .output hierarchy ∧
        AgreeUpToTies tiedFiles flat hierarchy :=
  agree_up_to_ties (BlockingQueue MarketDataEvent) tiedFiles sortedBy_tiedFiles

/-- The flat merger turns to the other file after the first event, the tree of merges does not. -/
theorem not_agree : ¬∀ (N : ℕ) (files : Fin N → List MarketDataEvent),
    (∀ i, (files i).SortedBy MarketDataEvent.tsRecv) →
    ∃ emitted, (flatNetwork files).Delivers (BlockingQueue MarketDataEvent) .output emitted ∧
      (HierarchyMerger.network files).Delivers (BlockingQueue MarketDataEvent) .output emitted := by
  intro agree
  obtain ⟨emitted, flat, hierarchy⟩ := agree 2 tiedFiles sortedBy_tiedFiles
  have flatPrefix : [{ tsRecv := 1, orderId := 1 }, { tsRecv := 1, orderId := 2 }] <+: emitted :=
    flat.prefix_of_schedule [.producer 0, .producer 0, .producer 1, .merger, .merger, .merger, .merger, .merger] rfl
  have hierarchyPrefix : [{ tsRecv := 1, orderId := 1 }, { tsRecv := 1, orderId := 3 }] <+: emitted :=
    hierarchy.prefix_of_schedule [.producer 0, .producer 0, .producer 1, .last, .last, .last, .last, .last] rfl
  have same := List.prefix_of_prefix_length_le flatPrefix hierarchyPrefix (by decide)
  exact absurd same (by decide)

end BackTester.MergerAgreement
