import BackTester.Proofs.OrderBook.LevelChange
import BackTester.Proofs.OrderBook.RemoveLevel

/-! # An order leaves its level

The entry is unlinked from its queue, taken off the totals and the id map, and deleted. A level
that this empties is closed.
-/

namespace BackTester.LimitOrderBook

open BinaryTree Heap PriceLevel DoublyLinked

variable {book : LimitOrderBook} {live : List Slot} {a oe : ℕ} {level : PriceLevel} {entry : OrderEntry}
  {trees : Side → BinaryTree ℕ} {slot : Slot} {side : Side} {price : ScaledPrice}

/-- The slots without the order of an id. -/
def leave (live : List Slot) (id : UInt64) : List Slot := live.filter fun slot => slot.2.id ≠ id

theorem mem_leave {id : UInt64} {other : Slot} : other ∈ leave live id ↔ other ∈ live ∧ other.2.id ≠ id := by
  simp [leave]

/-- The ends of the queue after an entry was unlinked. -/
def unlinked (level : PriceLevel) (entry : OrderEntry) : PriceLevel :=
  { level with
    front := if entry.prev = none then entry.next else level.front
    back := if entry.next = none then entry.prev else level.back }

theorem run_unlinkOrder (readEntry : book.orderEntries.read oe = some entry) (isLevel : entry.level = some a)
    (read : book.priceLevels.read a = some level)
    (prevLive : ∀ p, entry.prev = some p → p ≠ oe ∧ ∃ object, book.orderEntries.read p = some object)
    (nextLive : ∀ p, entry.next = some p → ∃ object, book.orderEntries.read p = some object) :
    ∃ levels', (unlinkOrder (some oe)).run book = some ((), { book with
        priceLevels := levels'
        orderEntries :=
          DoublyLinked.relinkPrev
            (DoublyLinked.relinkNext book.orderEntries entry.prev entry.next) entry.next entry.prev }) ∧
      levels'.read a = some (unlinked level entry) ∧ ∀ n ≠ a, levels'.read n = book.priceLevels.read n := by
  cases isPrev : entry.prev with
  | none =>
    cases isNext : entry.next with
    | none =>
      refine ⟨(book.priceLevels.modify a fun level => { level with front := none }).modify a
        fun level => { level with back := none }, ?_, ?_, ?_⟩
      · simp [unlinkOrder, readEntry, isLevel, isPrev, isNext, read]
      · simp [unlinked, isPrev, isNext, read]
      · intro n ne
        simp [read_modify, ne]
    | some next =>
      obtain ⟨object, readNext⟩ := nextLive next isNext
      refine ⟨book.priceLevels.modify a fun level => { level with front := some next }, ?_, ?_, ?_⟩
      · simp [unlinkOrder, readEntry, isLevel, isPrev, isNext, read, readNext]
        rfl
      · simp [unlinked, isPrev, isNext, read]
      · intro n ne
        simp [read_modify, ne]
  | some prev =>
    obtain ⟨ne, object, readPrev⟩ := prevLive prev isPrev
    cases isNext : entry.next with
    | none =>
      refine ⟨book.priceLevels.modify a fun level => { level with back := some prev }, ?_, ?_, ?_⟩
      · simp [unlinkOrder, readEntry, isLevel, isPrev, isNext, read, readPrev, read_modify, ne.symm]
        rfl
      · simp [unlinked, isPrev, isNext, read]
      · intro n ne
        simp [read_modify, ne]
    | some next =>
      obtain ⟨object', readNext⟩ := nextLive next isNext
      have nextAfter :
          ∃ object, (book.orderEntries.modify prev fun entry => { entry with next := some next }).read next =
          some object := by
        rw [exists_read_modify]
        exact ⟨object', readNext⟩
      obtain ⟨object'', readNext'⟩ := nextAfter
      refine ⟨book.priceLevels, ?_, ?_, fun _ _ => rfl⟩
      · simp [unlinkOrder, readEntry, isPrev, isNext, readPrev, read_modify_of_ne _ _ ne.symm, readNext']
        rfl
      · simp [unlinked, isPrev, isNext, read]

theorem leave_eq_filter (represents : Represents book live trees none) (member : slot ∈ live) :
    leave live slot.2.id = live.filter (· ≠ slot) := by
  refine List.filter_congr fun other inLive => ?_
  rw [decide_eq_decide, not_iff_not]
  exact ⟨fun same => represents.slot_of_id inLive member same, fun same => same ▸ rfl⟩

/-- Where an order was, its queue closes up; other queues do not change. -/
theorem members_leave (represents : Represents book live trees none) (member : slot ∈ live) :
    ∃ front back, members live slot.2.side slot.2.price = front ++ slot :: back ∧
      members (leave live slot.2.id) slot.2.side slot.2.price = front ++ back ∧
      ∀ side price, ¬(slot.2.side = side ∧ slot.2.price = price) →
        members (leave live slot.2.id) side price = members live side price := by
  have inMembers : slot ∈ members live slot.2.side slot.2.price := mem_members.mpr ⟨member, rfl, rfl⟩
  obtain ⟨front, back, whole⟩ := List.append_of_mem inMembers
  have nodup : (members live slot.2.side slot.2.price).Nodup := represents.addresses.of_map.filter _
  have filtered (side : Side) (price : ScaledPrice) :
      members (leave live slot.2.id) side price = (members live side price).filter (· ≠ slot) := by
    rw [leave_eq_filter represents member, members, members, List.filter_filter, List.filter_filter]
    exact List.filter_congr fun _ _ => Bool.and_comm ..
  refine ⟨front, back, whole, ?_, fun side price other => ?_⟩
  · rw [filtered, whole]
    rw [whole, List.nodup_append', List.nodup_cons, List.disjoint_cons_right] at nodup
    obtain ⟨_, ⟨notBack, _⟩, notFront, _⟩ := nodup
    rw [List.filter_append, List.filter_cons_of_neg (by simp), List.filter_eq_self.mpr, List.filter_eq_self.mpr]
    · intro other inBack
      exact decide_eq_true fun same => notBack (same ▸ inBack)
    · intro other inFront
      exact decide_eq_true fun same => notFront (same ▸ inFront)
  · rw [filtered, List.filter_eq_self]
    intro other' inside
    refine decide_eq_true fun same => other ?_
    rw [← same]
    exact (mem_members.mp inside).2

/-- The level after an order of some quantity left. -/
def dequeued (level : PriceLevel) (entry : OrderEntry) : PriceLevel :=
  { unlinked level entry with
    orderCount := level.orderCount - 1
    totalQuantity := level.totalQuantity - entry.quantity }

/-- The entries after one was unlinked and deleted. -/
def unlinkedEntries (entries : Heap OrderEntry) (oe : ℕ) (entry : OrderEntry) : Heap OrderEntry :=
  (DoublyLinked.relinkPrev (DoublyLinked.relinkNext entries entry.prev entry.next) entry.next entry.prev).free oe

theorem exists_read_unlinkedEntries {entries : Heap OrderEntry} {n : ℕ} (apart : n ≠ oe) :
    (∃ object, (unlinkedEntries entries oe entry).read n = some object) ↔ ∃ object, entries.read n = some object := by
  rw [unlinkedEntries, read_free, if_neg apart, exists_read_relinkPrev, exists_read_relinkNext]

theorem read_unlinkedEntries_self (entries : Heap OrderEntry) (oe : ℕ) (entry : OrderEntry) :
    (unlinkedEntries entries oe entry).read oe = none := by
  rw [unlinkedEntries, read_free, if_pos rfl]

section Queue

variable {entries : Heap OrderEntry} {front back : List Slot} (holds : LevelHolds entries live slot.2.side a level)
  (whole : members live slot.2.side level.price = front ++ slot :: back) (addresses : (live.map Prod.fst).Nodup)
  (readEntry : entries.read slot.1 = some entry)

include addresses whole in
theorem nodup_queue : (front.map Prod.fst ++ slot.1 :: back.map Prod.fst).Nodup := by
  have nodup : ((members live slot.2.side level.price).map Prod.fst).Nodup :=
    (List.filter_sublist.map _).nodup addresses
  rwa [whole, List.map_append, List.map_cons] at nodup

include holds whole in
theorem LevelHolds.split :
    DoublyLinked.Segment entries none level.front (front.map Prod.fst ++ slot.1 :: back.map Prod.fst)
    level.back none := by
  have segment := holds.segment
  rwa [whole, List.map_append, List.map_cons] at segment

include addresses whole in
/-- The entries of the other orders of the queue are not the one that leaves. -/
theorem ne_of_mem_rest {n : ℕ} (inside : n ∈ front.map Prod.fst ++ back.map Prod.fst) : n ≠ slot.1 := by
  obtain ⟨-, backNodup, apart⟩ := List.nodup_append'.mp (nodup_queue whole addresses)
  rw [List.disjoint_cons_right] at apart
  rintro rfl
  exact (List.mem_append.mp inside).elim apart.1 (List.nodup_cons.mp backNodup).1

include holds whole readEntry in
/-- Entries outside of the level are as before. -/
theorem read_unlinkedEntries {n : ℕ} (outside : n ∉ (members live slot.2.side level.price).map Prod.fst) :
    (unlinkedEntries entries slot.1 entry).read n = entries.read n := by
  rw [whole, List.map_append, List.map_cons, List.mem_append, List.mem_cons, not_or, not_or] at outside
  obtain ⟨outFront, notSlot, outBack⟩ := outside
  have segment := holds.split whole
  rw [unlinkedEntries, read_free, if_neg notSlot, read_relinkPrev, read_relinkNext]
  · exact fun isPrev => outFront (segment.prev_mem readEntry isPrev)
  · exact fun isNext => outBack (segment.next_mem readEntry isNext)

include holds whole addresses readEntry in
/-- The level without the order. -/
theorem LevelHolds.dequeue (stands : entry.StandsFor slot.2 a) (isPrice : level.price = slot.2.price)
    (shrunk : members (leave live slot.2.id) slot.2.side slot.2.price = front ++ back) :
    LevelHolds (unlinkedEntries entries slot.1 entry) (leave live slot.2.id) slot.2.side a (dequeued level entry) := by
  have price : (dequeued level entry).price = slot.2.price := isPrice
  have segment := holds.split whole
  obtain ⟨-, count, total, allStand⟩ := holds
  rw [whole] at count total allStand
  refine ⟨?_, ?_, ?_, ?_⟩
  · rw [price, shrunk, List.map_append]
    refine (segment.unlink (nodup_queue whole addresses) readEntry).frame fun n inside => ?_
    exact if_neg (ne_of_mem_rest whole addresses inside)
  · rw [price, shrunk]
    simp only [dequeued, count, List.length_append, List.length_cons]
    omega
  · rw [price, shrunk]
    simp only [dequeued, total, stands.quantity, List.map_append, List.map_cons, List.sum_append, List.sum_cons]
    omega
  · intro other inside
    rw [price, shrunk] at inside
    have notSlot : other.1 ≠ slot.1 := ne_of_mem_rest whole addresses (by
      rw [← List.map_append]
      exact List.mem_map_of_mem inside)
    rw [unlinkedEntries, read_free, if_neg notSlot]
    refine stands_relinkPrev (stands_relinkNext (allStand other ?_) _ _) _ _
    simp only [List.mem_append, List.mem_cons] at inside ⊢
    tauto

end Queue

/-- The map without the id of the order. -/
theorem Represents.orders_leave (represents : Represents book live trees none) (slot : Slot) (id : UInt64) (n : ℕ) :
    (book.orders.remove slot.2.id).find? id = some n ↔
    ∃ other ∈ leave live slot.2.id, other.1 = n ∧ other.2.id = id := by
  rw [UnorderedMap.find?_remove]
  split
  · next isId =>
    refine iff_of_false (by simp) ?_
    rintro ⟨other, inside, _, sameId⟩
    exact (mem_leave.mp inside).2 (sameId.trans isId)
  · next isOther =>
    rw [represents.orders]
    refine exists_congr fun other => ?_
    rw [mem_leave]
    constructor
    · rintro ⟨inLive, isN, rfl⟩
      exact ⟨⟨inLive, isOther⟩, isN, rfl⟩
    · rintro ⟨⟨inLive, _⟩, isN, sameId⟩
      exact ⟨inLive, isN, sameId⟩

/-- The entries without the one of the order. -/
theorem Represents.entries_leave (represents : Represents book live trees none)
    (member : slot ∈ live) (entry : OrderEntry) (n : ℕ) :
    (∃ object, (unlinkedEntries book.orderEntries slot.1 entry).read n = some object) ↔
      n ∈ (leave live slot.2.id).map Prod.fst := by
  rcases eq_or_ne n slot.1 with rfl | apart
  · rw [read_unlinkedEntries_self]
    refine iff_of_false (by simp) fun inside => ?_
    obtain ⟨other, inLeave, sameAddress⟩ := List.mem_map.mp inside
    obtain ⟨inLive, differentId⟩ := mem_leave.mp inLeave
    exact differentId (represents.slot_injective inLive member sameAddress ▸ rfl)
  · rw [exists_read_unlinkedEntries apart, represents.entries, List.mem_map, List.mem_map]
    refine exists_congr fun other => and_congr_left fun isN => ?_
    rw [mem_leave, iff_self_and]
    intro inLive sameId
    exact apart (by rw [← isN, represents.slot_of_id inLive member sameId])

/-- The steps of `destroy_order` up to the look whether the level is empty. -/
theorem run_destroyOrder_eq (represents : Represents book live trees none) (read : book.priceLevels.read a = some level)
    (holds : LevelHolds book.orderEntries live slot.2.side a level) (member : slot ∈ live)
    (isPrice : level.price = slot.2.price)
    (readEntry : book.orderEntries.read slot.1 = some entry) (stands : entry.StandsFor slot.2 a) :
    ∃ levels', (destroyOrder (some slot.1) slot.2.id).run book =
        (if (dequeued level entry).orderCount = 0 then removeLevel (some a) slot.2.side else pure ()).run { book with
          priceLevels := levels'
          orderEntries := unlinkedEntries book.orderEntries slot.1 entry
          orders := book.orders.remove slot.2.id } ∧
      levels'.read a = some (dequeued level entry) ∧ ∀ n ≠ a, levels'.read n = book.priceLevels.read n := by
  obtain ⟨front, back, whole, -⟩ := members_leave represents member
  rw [← isPrice] at whole
  have segment := holds.split whole
  have notFront {p : ℕ} (isPrev : entry.prev = some p) : p ≠ slot.1 :=
    ne_of_mem_rest whole represents.addresses (List.mem_append_left _ (segment.prev_mem readEntry isPrev))
  let book₁ : LimitOrderBook := { book with priceLevels := book.priceLevels.modify a fun level =>
    { level with totalQuantity := level.totalQuantity - entry.quantity } }
  have read₁ :
      book₁.priceLevels.read a = some { level with totalQuantity := level.totalQuantity - entry.quantity } := by
    simp [book₁, read]
  obtain ⟨levels₂, runUnlink, read₂, same₂⟩ :=
    run_unlinkOrder (show book₁.orderEntries.read slot.1 = some entry from readEntry)
    stands.level read₁
    (fun p isPrev => ⟨notFront isPrev, segment.read (List.mem_append_left _ (segment.prev_mem readEntry isPrev))⟩)
    (fun p isNext =>
      segment.read (List.mem_append_right _ (List.mem_cons_of_mem _ (segment.next_mem readEntry isNext))))
  let relinked :=
    DoublyLinked.relinkPrev (DoublyLinked.relinkNext book.orderEntries entry.prev entry.next) entry.next entry.prev
  obtain ⟨entry', readEntry'⟩ : ∃ entry', relinked.read slot.1 = some entry' := by
    rw [exists_read_relinkPrev, exists_read_relinkNext]
    exact ⟨entry, readEntry⟩
  let levels₃ := levels₂.modify a fun level => { level with orderCount := level.orderCount - 1 }
  have read₃ : levels₃.read a = some (dequeued level entry) := by
    rw [read_modify_self, read₂]
    rfl
  refine ⟨levels₃, ?_, read₃, fun n apart => ?_⟩
  · simp only [destroyOrder, StateT.run_bind, run_onEntries, run_load, readEntry, Option.map_some, Option.bind_eq_bind,
      Option.bind_some, run_onLevels, run_store, read, stands.level, stands.side]
    change Option.bind ((unlinkOrder (some slot.1)).run book₁) _ = _
    simp only [runUnlink, Option.bind_some, read₂, Option.map_some, StateT.run_modify, Option.pure_def]
    change Option.bind (Option.map _ ((delete (some slot.1)).run relinked)) _ = _
    simp only [run_delete, readEntry', Option.map_some, Option.bind_some]
    change Option.bind (Option.map _ (Option.map _ (levels₃.read a))) _ = _
    simp only [read₃, Option.map_some, Option.bind_some]
    rfl
  · rw [read_modify_of_ne _ _ apart, same₂ n apart, read_modify_of_ne _ _ apart]

/-- Everything `destroy_order` does before it looks whether the level is empty. -/
theorem run_destroyOrder_prefix (represents : Represents book live trees none) (member : slot ∈ live) :
    ∃ book' a level, (destroyOrder (some slot.1) slot.2.id).run book =
        (if level.orderCount = 0 then removeLevel (some a) slot.2.side else pure ()).run book' ∧
      Represents book' (leave live slot.2.id) trees (some a) ∧ a ∈ (trees slot.2.side).inorder ∧
      book'.priceLevels.read a = some level ∧ level.price = slot.2.price ∧ book'.anomalies = book.anomalies := by
  obtain ⟨a, level, entry, inTree, read, isPrice, holds, readEntry, stands⟩ := represents.locate member
  obtain ⟨front, back, whole, shrunk, others⟩ := members_leave represents member
  rw [← isPrice] at whole
  obtain ⟨levels', run, read', same⟩ := run_destroyOrder_eq represents read holds member isPrice readEntry stands
  have change : LevelChange book { book with
      priceLevels := levels'
      orderEntries := unlinkedEntries book.orderEntries slot.1 entry
      orders := book.orders.remove slot.2.id } live (leave live slot.2.id) slot.2.side a level
        (dequeued level entry) := by
    refine ⟨fun _ => rfl, read, read', rfl, rfl, same, fun other inLive away => ?_, fun other price away => ?_, ?_⟩
    · exact read_unlinkedEntries holds whole readEntry (represents.not_mem_members inLive away)
    · exact others other price (by rwa [← isPrice])
    · exact holds.dequeue whole represents.addresses readEntry stands isPrice shrunk
  refine ⟨_, a, dequeued level entry, run, ?_, inTree, read', isPrice, rfl⟩
  refine change.represents represents slot.2.sided inTree (.inl rfl) (.inr rfl) ?_ ?_ ?_ ?_
  · exact (List.filter_sublist.map _).nodup represents.distinct
  · exact (List.filter_sublist.map _).nodup represents.addresses
  · exact represents.orders_leave slot
  · exact represents.entries_leave member entry

/-- A spare level that has orders is an ordinary one. -/
theorem Represents.fill (represents : Represents book live trees (some a)) (sided : side ≠ .none)
    (member : a ∈ (trees side).inorder) (occupied : members live side (priceAt book.priceLevels a) ≠ []) :
    Represents book live trees none := by
  refine { represents with queues := fun other otherSided => ?_ }
  have queues := represents.queues other otherSided
  by_cases same : other = side
  · subst same
    refine ⟨queues.holds, fun n inside => .inl ?_, queues.covered⟩
    rcases queues.occupied n inside with full | isSpare
    · exact full
    · exact Option.some.inj isSpare ▸ occupied
  · exact queues.fill fun inside => represents.apart side sided other otherSided same member inside

/-- Destroying an order takes it out, with its level where no other order rests there. -/
theorem run_destroyOrder (represents : Represents book live trees none) (member : slot ∈ live) :
    ∃ book' trees', (destroyOrder (some slot.1) slot.2.id).run book = some ((), book') ∧
      Represents book' (leave live slot.2.id) trees' none ∧ book'.anomalies = book.anomalies := by
  obtain ⟨book₁, a, level, run, represents₁, inTree, read, isPrice, anomalies₁⟩ :=
    run_destroyOrder_prefix represents member
  have count := ((represents₁.queues _ slot.2.sided).holds a inTree level read).count
  rw [← priceAt_of_read read] at count
  by_cases empty : level.orderCount = 0
  · rw [count, Int.natCast_eq_zero, List.length_eq_zero_iff] at empty
    obtain ⟨book₂, tree', runRemove, represents₂, _, anomalies₂⟩ :=
      run_removeLevel represents₁ slot.2.sided inTree empty
    refine ⟨book₂, _, ?_, represents₂, anomalies₂.trans anomalies₁⟩
    rw [run, if_pos (by rw [count, empty]; rfl), runRemove]
  · refine ⟨book₁, trees, ?_, represents₁.fill slot.2.sided inTree ?_, anomalies₁⟩
    · rw [run, if_neg empty]
      rfl
    · intro none
      exact empty (by rw [count, none]; rfl)

end BackTester.LimitOrderBook
