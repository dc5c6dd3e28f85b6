import BackTester.Proofs.OrderBook.AvlInsert
import BackTester.Proofs.OrderBook.SideChange

/-! # Opening a level

A new level joins the tree, the level map and possibly the best pointer, with no order yet.
-/

namespace BackTester.LimitOrderBook

open BinaryTree Heap PriceLevel

variable {book book' : LimitOrderBook} {live : List Slot} {side : Side} {tree tree' : BinaryTree ℕ} {a : ℕ}
  {spare : Ptr} {price : ScaledPrice} {trees : Side → BinaryTree ℕ}

/-- What becomes of the best pointer when a level for `price` joins. -/
def improved (heap : Heap PriceLevel) (side : Side) (price : ScaledPrice) (lv : ℕ) : Ptr → Ptr
  | none => some lv
  | some best =>
    if (if side = .buy then priceAt heap best < price else price < priceAt heap best) then some lv else some best

/-- A level is the best one after it joins just where the comparison with the old best says so. -/
theorem bestOf_insert {heap : Heap PriceLevel} {front back : List ℕ} (old : tree.inorder = front ++ back)
    (new : tree'.inorder = front ++ a :: back) (ascending : Ascending heap tree'.inorder) :
    bestOf side tree' = improved heap side (priceAt heap a) a (bestOf side tree) := by
  rw [new] at ascending
  obtain ⟨_, afterAscending, across⟩ := List.pairwise_append.mp ascending
  have above := (List.pairwise_cons.mp afterAscending).1
  by_cases buy : side = .buy
  · simp only [bestOf, buy, if_true, old, new, improved]
    rcases List.eq_nil_or_concat back with rfl | ⟨back, last, rfl⟩
    · rcases List.eq_nil_or_concat front with rfl | ⟨front, last, rfl⟩
      · simp
      · have := across last (by simp) a (by simp)
        simp [this]
    · have lower := above last (by simp)
      have oldLast : (front ++ back.concat last).getLast? = some last := by
        rw [List.concat_eq_append, ← List.append_assoc, List.getLast?_concat]
      have newLast : (front ++ a :: back.concat last).getLast? = some last := by
        rw [List.concat_eq_append, ← List.cons_append, ← List.append_assoc, List.getLast?_concat]
      rw [oldLast, newLast]
      simp [lower.le]
  · simp only [bestOf, buy, if_false, old, new, improved]
    cases front with
    | nil =>
      cases back with
      | nil => simp
      | cons first back =>
        have := above first (by simp)
        simp [this]
    | cons first front =>
      have := across first (by simp) a (by simp)
      simp [this.le]

theorem bestOf_mem (isBest : bestOf side tree = some a) : a ∈ tree.inorder := by
  unfold bestOf at isBest
  split at isBest
  · exact List.mem_of_getLast? isBest
  · exact List.mem_of_head? isBest

theorem run_improveBest {book : LimitOrderBook}
    (live : ∀ best, book.bestFor side = some best → ∃ level, book.priceLevels.read best = some level)
    (price : ScaledPrice) (lv : ℕ) :
    (improveBest side price lv).run book =
      some ((), setSide side
        (fun fields => { fields with best := improved book.priceLevels side price lv fields.best }) book) := by
  have fold : setSide side
      (fun fields => { fields with best := improved book.priceLevels side price lv fields.best }) book =
      setSide side
        (fun fields => { fields with best := improved book.priceLevels side price lv (book.bestFor side) }) book := by
    cases side <;> rfl
  rw [fold]
  cases isBest : book.bestFor side with
  | none => simp [improveBest, isBest, improved]
  | some best =>
    obtain ⟨level, read⟩ := live best isBest
    have keep : setSide side (fun fields => { fields with best := some best }) book = book := by
      rw [← isBest]
      cases side <;> rfl
    by_cases better : if side = .buy then level.price < price else price < level.price
    · simp [improveBest, isBest, read, better, priceAt_of_read read, improved]
    · simp [improveBest, isBest, read, better, priceAt_of_read read, improved, keep]

section Joined

variable {heap : Heap PriceLevel} {q : Ptr} {front back : List ℕ} (old : tree.inorder = front ++ back)
  (new : tree'.inorder = front ++ a :: back)

include old new in
theorem mem_joined {n : ℕ} : n ∈ tree'.inorder ↔ n = a ∨ n ∈ tree.inorder := by
  simp only [new, old, List.mem_append, List.mem_cons]
  tauto

/-- The book with a level that has joined a side. -/
def joined (book : LimitOrderBook) (side : Side) (heap : Heap PriceLevel) (q : Ptr)
    (tree' : BinaryTree ℕ) (price : ScaledPrice) (a : ℕ) : LimitOrderBook :=
  setSide side (fun fields => { tree := q, best := bestOf side tree', levels := fields.levels.assign price a })
    { book with priceLevels := heap }

include old new in
/-- The steps of `newLevel` behind the insertion into the tree. -/
theorem run_newLevel_eq (best : book.bestFor side = bestOf side tree)
    (treeLinked : LinkedTree ExactHeight heap none q tree')
    (ascending : Ascending heap tree'.inorder) (priceA : priceAt heap a = price) (isNext : a = book.priceLevels.next)
    (runInsert : (avlInsert (book.treeFor side) (some a)).run (book.priceLevels.alloc { price := price }) =
      some (q, heap)) :
    (newLevel side price).run book = some (a, joined book side heap q tree' price a) := by
  let book₂ := setSide side (fun fields => { fields with tree := q }) { book with priceLevels := heap }
  have levels₂ : book₂.priceLevels = heap := priceLevels_setSide ..
  have best₂ : book₂.bestFor side = bestOf side tree := by
    rw [bestFor, sideFor_setSide_self]
    exact best
  have runImprove : (improveBest side price a).run book₂ = some ((), setSide side (fun fields =>
      { fields with best := improved book₂.priceLevels side price a fields.best }) book₂) := by
    refine run_improveBest (fun best isBest => ?_) price a
    rw [levels₂]
    exact treeLinked.read ((mem_joined old new).mpr (.inr (bestOf_mem (best₂ ▸ isBest))))
  simp only [newLevel, StateT.run_bind, run_onLevels, run_new, Option.map_some, Option.bind_eq_bind, Option.bind_some,
    StateT.run_get, StateT.run_modify, Option.pure_def]
  rw [← isNext]
  change Option.bind (Option.map _ ((avlInsert (book.treeFor side) (some a)).run (book.priceLevels.alloc _))) _ = _
  simp only [runInsert, Option.map_some, Option.bind_some]
  change Option.bind ((improveBest side price a).run book₂) _ = _
  rw [runImprove]
  have newBest : improved book₂.priceLevels side price a (book₂.bestFor side) = bestOf side tree' := by
    rw [levels₂, best₂, bestOf_insert old new ascending, priceA]
  change some (a,
    setSide side (fun fields => { fields with levels := fields.levels.assign price a }) (setSide side _ book₂)) = _
  rw [setSide_setSide]
  refine congrArg (fun book => some (a, book)) ((setSide_setSide ..).trans (setSide_congr ?_))
  simp only [← newBest, bestFor, book₂, sideFor_setSide_self]

include old new in
/-- The side with the new level. -/
theorem SideTree.join (holds : SideTree book side tree) (treeLinked : LinkedTree ExactHeight heap none q tree')
    (balanced : tree'.Balanced) (ascending : Ascending heap tree'.inorder) (notInTree : a ∉ tree.inorder)
    (priceA : priceAt heap a = price) (same : ∀ n ∈ tree.inorder, priceAt heap n = priceAt book.priceLevels n)
    (fresh : ∀ n ∈ tree.inorder, priceAt book.priceLevels n ≠ price) :
    SideTree (joined book side heap q tree' price a) side tree' := by
  have levels' : (joined book side heap q tree' price a).priceLevels = heap := priceLevels_setSide ..
  have side' : (joined book side heap q tree' price a).sideFor side =
      ⟨q, bestOf side tree', (book.levelsFor side).assign price a⟩ := sideFor_setSide_self ..
  refine ⟨?_, ?_, balanced, ?_, fun p n => ?_, ?_⟩
  · rw [treeFor, side', levels']
    exact treeLinked
  · rw [new, List.perm_middle.nodup_iff, List.nodup_cons, ← old]
    exact ⟨notInTree, holds.nodup⟩
  · rw [levels']
    exact ascending
  · rw [levelsFor, side', UnorderedMap.find?_assign, levels', mem_joined old new]
    split
    · next isPrice =>
      rw [Option.some_inj]
      constructor
      · rintro rfl
        exact ⟨.inl rfl, priceA.trans isPrice.symm⟩
      · rintro ⟨rfl | inOld, here⟩
        · rfl
        · exact absurd ((same n inOld).symm.trans (here.trans isPrice)) (fresh n inOld)
    · next isOther =>
      rw [holds.levels]
      constructor
      · rintro ⟨inOld, here⟩
        exact ⟨.inr inOld, (same n inOld).trans here⟩
      · rintro ⟨rfl | inOld, here⟩
        · exact absurd (here.symm.trans priceA) isOther
        · exact ⟨inOld, (same n inOld).symm.trans here⟩
  · rw [bestFor, side']

end Joined

/-- The queues of the side with a level that nothing rests at. -/
theorem SideQueues.join {addresses addresses' : List ℕ} (queues : SideQueues book live side addresses none)
    (mem : ∀ n, n ∈ addresses' ↔ n = a ∨ n ∈ addresses) (fresh : ∀ n ∈ addresses, priceAt book.priceLevels n ≠ price)
    (empty : (book.priceLevels.read a).map payload = some (payload { price := price })) :
    SideQueues book live side addresses' (some a) := by
  have noMember : members live side price = [] := by
    rw [List.eq_nil_iff_forall_not_mem]
    intro slot member
    obtain ⟨inLive, isSide, isPrice⟩ := mem_members.mp member
    obtain ⟨n, inside, here⟩ := queues.covered slot inLive isSide
    exact fresh n inside (here.trans isPrice)
  refine ⟨fun n member level read => ?_, fun n member => ?_, fun slot inLive isSide => ?_⟩
  · rcases (mem n).mp member with rfl | inOld
    · rw [read, Option.map_some, Option.some_inj] at empty
      simp only [payload, Prod.mk.injEq] at empty
      obtain ⟨isPrice, count, total, front, back⟩ := empty
      refine ⟨?_, ?_, ?_, ?_⟩ <;> simp [isPrice, count, total, front, back, noMember]
    · exact queues.holds n inOld level read
  · rcases (mem n).mp member with rfl | inOld
    · exact .inr rfl
    · exact .inl ((queues.occupied n inOld).resolve_right (by simp))
  · obtain ⟨n, inOld, here⟩ := queues.covered slot inLive isSide
    exact ⟨n, (mem n).mpr (.inr inOld), here⟩

/-- Opening a level for a price without one leaves the rest of the book as it was. -/
theorem run_newLevel (represents : Represents book live trees none) (sided : side ≠ .none)
    (absent : (book.levelsFor side).find? price = none) :
    ∃ book' tree' a, (newLevel side price).run book = some (a, book') ∧
      Represents book' live (Function.update trees side tree') (some a) ∧ a ∈ tree'.inorder ∧
      priceAt book'.priceLevels a = price ∧ book'.orders = book.orders ∧ book'.anomalies = book.anomalies := by
  have holds := represents.tree side sided
  let a := book.priceLevels.next
  let heap₁ := book.priceLevels.alloc { price := price }
  have atA₁ : heap₁.read a = some { price := price } := read_alloc_next _ _
  have notInTree (other : Side) (otherSided : other ≠ .none) : a ∉ (trees other).inorder := by
    intro member
    obtain ⟨level, read⟩ := (represents.tree other otherSided).read member
    exact absurd (read_bound read) (lt_irrefl _)
  have same₁ (n : ℕ) (ne : n ≠ a) : heap₁.read n = book.priceLevels.read n := if_neg ne
  have inTree₁ (n : ℕ) (member : n ∈ (trees side).inorder) : heap₁.read n = book.priceLevels.read n :=
    same₁ n fun isA => notInTree side sided (isA ▸ member)
  have priceAt₁ (n : ℕ) (member : n ∈ (trees side).inorder) : priceAt heap₁ n = priceAt book.priceLevels n := by
    rw [priceAt, priceAt, inTree₁ n member]
  have ascending₁ : Ascending heap₁ (trees side).inorder :=
    holds.ascending.imp_of_mem fun {m n} inM inN below => by rwa [priceAt₁ m inM, priceAt₁ n inN]
  have fresh (n : ℕ) (member : n ∈ (trees side).inorder) : priceAt book.priceLevels n ≠ price := by
    intro isPrice
    exact Option.some_ne_none n (((holds.levels price n).mpr ⟨member, isPrice⟩).symm.trans absent)
  obtain ⟨heap₂, q, tree', front, back, runInsert, linked₂, balanced₂, ascending₂, old, new, relinked₂⟩ :=
    avlInsert_spec (holds.linked.frame inTree₁) holds.nodup holds.balanced ascending₁ atA₁ (notInTree side sided)
      fun n member => priceAt₁ n member ▸ fresh n member
  have priceA : priceAt heap₂ a = price := by rw [relinked₂.priceAt, priceAt_of_read atA₁]
  have priceAt₂ (n : ℕ) (member : n ∈ (trees side).inorder) : priceAt heap₂ n = priceAt book.priceLevels n :=
    (relinked₂.priceAt n).trans (priceAt₁ n member)
  let book' := joined book side heap₂ q tree' price a
  have levels' : book'.priceLevels = heap₂ := priceLevels_setSide ..
  have empty : (book'.priceLevels.read a).map payload = some (payload { price := price }) := by
    rw [levels', relinked₂.payload, atA₁, Option.map_some]
  have change : SideChange book book' trees side tree' a := by
    refine ⟨holds.join old new linked₂ balanced₂ ascending₂ (notInTree side sided) priceA priceAt₂ fresh,
      fun n apart => ?_,
      fun other otherSided _ => notInTree other otherSided, fun n apart => ?_, fun n apart outside => ?_,
      fun other otherSided different => sideFor_setSide_of_ne _ _ sided otherSided different, orders_setSide ..,
      orderEntries_setSide ..⟩
    · rw [mem_joined old new, or_iff_right apart]
    · rw [levels', relinked₂.payload, same₁ n apart]
    · rw [levels', relinked₂.outside n (by simp [apart, outside]), same₁ n apart]
  have queues : SideQueues book' live side tree'.inorder (some a) := by
    refine (change.congr_queues (notInTree side sided) (represents.queues side sided)).join (fun _ =>
      mem_joined old new) ?_ empty
    rw [levels']
    exact fun n member => priceAt₂ n member ▸ fresh n member
  have inNew : a ∈ tree'.inorder := (mem_joined old new).mpr (.inl rfl)
  refine ⟨book', tree', a, run_newLevel_eq old new holds.best linked₂ ascending₂ priceA rfl runInsert, ?_, inNew, ?_,
    orders_setSide .., anomalies_setSide ..⟩
  · refine change.represents represents sided ?_ queues fun other otherSided _ =>
      (represents.queues other otherSided).weaken _
    rw [levels']
    exact iff_of_true (linked₂.read inNew) inNew
  · rw [levels']
    exact priceA

end BackTester.LimitOrderBook
