import BackTester.ToMathlib.Heap

/-! # Doubly linked lists on the free store

The nodes of an intrusive list carry their own links; whoever owns the list keeps pointers to both
ends. A segment is a stretch of such a list, open at both sides, so that a list splits at any node.
Taking a node out and putting one in at the back change two links each, and each change is local to
one end of a segment.
-/

/-- Objects with a link in either direction. -/
class DoublyLinked (α : Type) where
  next : α → Ptr
  prev : α → Ptr
  setNext : Ptr → α → α
  setPrev : Ptr → α → α
  next_setNext : ∀ p object, next (setNext p object) = p
  next_setPrev : ∀ p object, next (setPrev p object) = next object
  prev_setNext : ∀ p object, prev (setNext p object) = prev object
  prev_setPrev : ∀ p object, prev (setPrev p object) = p

namespace DoublyLinked

attribute [simp] next_setNext next_setPrev prev_setNext prev_setPrev

open Heap

variable {α : Type} [DoublyLinked α]

/-- The nodes, entered from `before` at `first` and left from `last` to `after`. -/
def Segment (heap : Heap α) : Ptr → Ptr → List ℕ → Ptr → Ptr → Prop
  | before, first, [], last, after => first = after ∧ last = before
  | before, first, n :: nodes, last, after => first = some n ∧ ∃ object, heap.read n = some object ∧
      prev object = before ∧ Segment heap (some n) (next object) nodes last after

variable {heap heap' : Heap α} {before first last after : Ptr} {nodes : List ℕ}

@[simp] theorem segment_nil :
    Segment heap before first [] last after ↔ first = after ∧ last = before := Iff.rfl

theorem segment_append {nodes' : List ℕ} :
    Segment heap before first (nodes ++ nodes') last after ↔ ∃ end' start,
      Segment heap before first nodes end' start ∧ Segment heap end' start nodes' last after := by
  induction nodes generalizing before first with
  | nil =>
    constructor
    · intro linked
      exact ⟨before, first, ⟨rfl, rfl⟩, linked⟩
    · rintro ⟨_, _, ⟨rfl, rfl⟩, linked⟩
      exact linked
  | cons n nodes ih =>
    constructor
    · rintro ⟨rfl, object, read, rfl, linked⟩
      obtain ⟨end', start, left, right⟩ := ih.mp linked
      exact ⟨end', start, ⟨rfl, object, read, rfl, left⟩, right⟩
    · rintro ⟨end', start, ⟨rfl, object, read, rfl, left⟩, right⟩
      exact ⟨rfl, object, read, rfl, ih.mpr ⟨end', start, left, right⟩⟩

/-- Only the links of its nodes matter to a segment. -/
theorem Segment.congr (linked : Segment heap before first nodes last after)
    (same : ∀ n ∈ nodes, (heap'.read n).map (fun object => (prev object, next object)) =
      (heap.read n).map fun object => (prev object, next object)) :
    Segment heap' before first nodes last after := by
  induction nodes generalizing before first with
  | nil => exact linked
  | cons n nodes ih =>
    obtain ⟨rfl, object, read, rfl, linked⟩ := linked
    have here := same n (by simp)
    rw [read, Option.map_some, Option.map_eq_some_iff] at here
    obtain ⟨object', read', links⟩ := here
    simp only [Prod.mk.injEq] at links
    refine ⟨rfl, object', read', links.1, ?_⟩
    rw [links.2]
    exact ih linked fun m member => same m (by simp [member])

theorem Segment.frame (linked : Segment heap before first nodes last after)
    (same : ∀ n ∈ nodes, heap'.read n = heap.read n) : Segment heap' before first nodes last after :=
  linked.congr fun n member => by rw [same n member]

theorem Segment.modify (linked : Segment heap before first nodes last after) {n : ℕ} (outside : n ∉ nodes)
    (update : α → α) : Segment (heap.modify n update) before first nodes last after :=
  linked.frame fun _ member => heap.read_modify_of_ne update (fun same => outside (same ▸ member))

theorem Segment.read (linked : Segment heap before first nodes last after) {n : ℕ} (member : n ∈ nodes) :
    ∃ object, heap.read n = some object := by
  induction nodes generalizing before first with
  | nil => simp at member
  | cons m nodes ih =>
    obtain ⟨rfl, object, read, rfl, linked⟩ := linked
    rcases List.mem_cons.mp member with rfl | member
    · exact ⟨object, read⟩
    · exact ih linked member

/-- Entering a segment leads to its first node, or straight through it. -/
theorem Segment.first_eq (linked : Segment heap before first nodes last after) : first = nodes.head?.or after := by
  cases nodes with
  | nil => exact linked.1
  | cons n nodes => exact linked.1

theorem Segment.last_eq (linked : Segment heap before first nodes last after) : last = nodes.getLast?.or before := by
  rcases List.eq_nil_or_concat nodes with rfl | ⟨front, n, rfl⟩
  · exact linked.2
  · rw [List.concat_eq_append] at linked ⊢
    obtain ⟨_, _, _, rfl, _, _, _, _, rfl⟩ := segment_append.mp linked
    simp

/-- Set the forward link of the node before a position, if there is one. -/
def relinkNext (heap : Heap α) (p q : Ptr) : Heap α :=
  match p with
  | none => heap
  | some n => heap.modify n (setNext q)

/-- Set the backward link of the node after a position, if there is one. -/
def relinkPrev (heap : Heap α) (p q : Ptr) : Heap α :=
  match p with
  | none => heap
  | some n => heap.modify n (setPrev q)

@[simp] theorem relinkNext_none (heap : Heap α) (q : Ptr) : relinkNext heap none q = heap := rfl

@[simp] theorem relinkNext_some (heap : Heap α) (n : ℕ) (q : Ptr) :
    relinkNext heap (some n) q = heap.modify n (setNext q) := rfl

@[simp] theorem relinkPrev_none (heap : Heap α) (q : Ptr) : relinkPrev heap none q = heap := rfl

@[simp] theorem relinkPrev_some (heap : Heap α) (n : ℕ) (q : Ptr) :
    relinkPrev heap (some n) q = heap.modify n (setPrev q) := rfl

theorem read_relinkNext (heap : Heap α) {p : Ptr} (q : Ptr) {n : ℕ} (different : p ≠ some n) :
    (relinkNext heap p q).read n = heap.read n := by
  cases p with
  | none => rfl
  | some m => exact read_modify_of_ne _ _ fun same => different (by rw [same])

theorem read_relinkPrev (heap : Heap α) {p : Ptr} (q : Ptr) {n : ℕ} (different : p ≠ some n) :
    (relinkPrev heap p q).read n = heap.read n := by
  cases p with
  | none => rfl
  | some m => exact read_modify_of_ne _ _ fun same => different (by rw [same])

@[simp] theorem exists_read_relinkNext (heap : Heap α) (p q : Ptr) (n : ℕ) :
    (∃ object, (relinkNext heap p q).read n = some object) ↔ ∃ object, heap.read n = some object := by
  cases p <;> simp

@[simp] theorem exists_read_relinkPrev (heap : Heap α) (p q : Ptr) (n : ℕ) :
    (∃ object, (relinkPrev heap p q).read n = some object) ↔ ∃ object, heap.read n = some object := by
  cases p <;> simp

/-- A list that starts at `first` may be continued elsewhere behind its last node. -/
theorem Segment.relinkNext (linked : Segment heap none first nodes last after) (nodup : nodes.Nodup) (q : Ptr) :
    Segment (relinkNext heap last q) none (if last = none then q else first) nodes last q := by
  rcases List.eq_nil_or_concat nodes with rfl | ⟨front, n, rfl⟩
  · obtain ⟨rfl, rfl⟩ := linked
    exact ⟨rfl, rfl⟩
  · rw [List.concat_eq_append] at linked nodup ⊢
    obtain ⟨end', start, frontLinked, rfl, object, read, rfl, rfl, rfl⟩ := segment_append.mp linked
    have notFront : n ∉ front := fun inside => (List.nodup_append'.mp nodup).2.2 inside (by simp)
    refine segment_append.mpr ⟨prev object, some n, ?_, rfl, setNext q object, by simp [read], by simp, by simp⟩
    exact frontLinked.modify notFront _

/-- The other way round, ahead of the first node. -/
theorem Segment.relinkPrev (linked : Segment heap before first nodes last none) (nodup : nodes.Nodup) (q : Ptr) :
    Segment (relinkPrev heap first q) q first nodes (if first = none then q else last) none := by
  cases nodes with
  | nil =>
    obtain ⟨rfl, rfl⟩ := linked
    exact ⟨rfl, rfl⟩
  | cons n nodes =>
    obtain ⟨rfl, object, read, rfl, linked⟩ := linked
    exact ⟨rfl, setPrev q object, by simp [read], by simp, by simpa using linked.modify (List.nodup_cons.mp nodup).1 _⟩

section Unlink

variable {front back : List ℕ} {n : ℕ} {object : α}

/-- A node of a list knows its neighbours. -/
theorem Segment.neighbours (linked : Segment heap none first (front ++ n :: back) last none)
    (read : heap.read n = some object) :
    Segment heap none first front (prev object) (some n) ∧ Segment heap (some n) (next object) back last none := by
  obtain ⟨end', start, frontLinked, rfl, object', read', rfl, backLinked⟩ := segment_append.mp linked
  obtain rfl := Option.some.inj (read.symm.trans read')
  exact ⟨frontLinked, backLinked⟩

theorem Segment.prev_mem (linked : Segment heap none first (front ++ n :: back) last none)
    (read : heap.read n = some object) {m : ℕ} (isPrev : prev object = some m) : m ∈ front := by
  have := (linked.neighbours read).1.last_eq
  rw [isPrev, Option.or_none] at this
  exact List.mem_of_getLast? this.symm

theorem Segment.next_mem (linked : Segment heap none first (front ++ n :: back) last none)
    (read : heap.read n = some object) {m : ℕ} (isNext : next object = some m) : m ∈ back := by
  have := (linked.neighbours read).2.first_eq
  rw [isNext, Option.or_none] at this
  exact List.mem_of_head? this.symm

/-- Redirecting the links of both neighbours, or the ends of the list where there is none, takes a
node out. -/
theorem Segment.unlink (linked : Segment heap none first (front ++ n :: back) last none)
    (nodup : (front ++ n :: back).Nodup) (read : heap.read n = some object) :
    Segment (DoublyLinked.relinkPrev (DoublyLinked.relinkNext heap (prev object) (next object))
      (next object) (prev object))
      none (if prev object = none then next object else first) (front ++ back)
      (if next object = none then prev object else last) none := by
  obtain ⟨frontLinked, backLinked⟩ := linked.neighbours read
  obtain ⟨frontNodup, backNodup, apart⟩ := List.nodup_append'.mp nodup
  obtain ⟨_, backNodup⟩ := List.nodup_cons.mp backNodup
  rw [List.disjoint_cons_right] at apart
  refine segment_append.mpr ⟨prev object, next object, ?_, ?_⟩
  · have frontLinked := frontLinked.relinkNext frontNodup (next object)
    cases isNext : next object with
    | none => simpa [isNext] using frontLinked
    | some m =>
      simpa [isNext] using frontLinked.modify (fun inside =>
        apart.2 inside (linked.next_mem read isNext)) (setPrev (prev object))
  · have backLinked :
        Segment (DoublyLinked.relinkNext heap (prev object) (next object)) (some n) (next object) back last none := by
      cases isPrev : prev object with
      | none => exact backLinked
      | some m => exact backLinked.modify (fun inside => apart.2 (linked.prev_mem read isPrev) inside) _
    exact backLinked.relinkPrev backNodup (prev object)

/-- A node without a successor goes to the back of a list. -/
theorem Segment.pushBack (linked : Segment heap none first nodes last none) (nodup : nodes.Nodup) (outside : n ∉ nodes)
    (read : heap.read n = some object) (isPrev : prev object = last) (isNext : next object = none) :
    Segment (DoublyLinked.relinkNext heap last (some n)) none (if last = none then some n else first) (nodes ++ [n])
      (some n) none := by
  refine segment_append.mpr ⟨last, some n, linked.relinkNext nodup (some n), rfl, object, ?_, isPrev, isNext, rfl⟩
  rw [read_relinkNext, read]
  intro isLast
  have := linked.last_eq
  rw [isLast, Option.or_none] at this
  exact outside (List.mem_of_getLast? this.symm)

end Unlink

/-- The nodes met by following a link from `p` until it is null. -/
def follow (link : α → Ptr) (heap : Heap α) : ℕ → Ptr → Option (List ℕ)
  | _, none => some []
  | 0, some _ => none
  | fuel + 1, some n => do
    let object ← heap.read n
    let rest ← follow link heap fuel (link object)
    return n :: rest

theorem follow_next (linked : Segment heap before first nodes last none) {fuel : ℕ} (enough : nodes.length ≤ fuel) :
    follow next heap fuel first = some nodes := by
  induction nodes generalizing before first fuel with
  | nil =>
    obtain ⟨rfl, -⟩ := linked
    cases fuel <;> rfl
  | cons n nodes ih =>
    obtain ⟨fuel, rfl⟩ : ∃ less, fuel = less + 1 := ⟨fuel - 1, by simp at enough; omega⟩
    obtain ⟨rfl, object, read, rfl, linked⟩ := linked
    simp [follow, read, ih linked (by simpa using enough)]

/-- Followed backwards, the nodes come in the opposite order. -/
theorem follow_prev (linked : Segment heap none first nodes last after) {fuel : ℕ} (enough : nodes.length ≤ fuel) :
    follow prev heap fuel last = some nodes.reverse := by
  induction nodes using List.reverseRecOn generalizing last after fuel with
  | nil =>
    obtain ⟨-, rfl⟩ := linked
    cases fuel <;> rfl
  | append_singleton front n ih =>
    obtain ⟨fuel, rfl⟩ : ∃ less, fuel = less + 1 := ⟨fuel - 1, by simp at enough; omega⟩
    obtain ⟨end', start, frontLinked, rfl, object, read, rfl, rfl, rfl⟩ := segment_append.mp linked
    simp [follow, read, ih frontLinked (by simpa using enough)]

end DoublyLinked
