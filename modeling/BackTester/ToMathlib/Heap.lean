import Mathlib.Tactic

/-! # A typed free store with stuck dereferences

Every object has an address that is never handed out twice. Reading a null pointer, or an object
that was deleted or never created, has no result, so a computation that returns has dereferenced
live objects only. The store carries the bound on its addresses: an address at or above `next`
holds nothing, which is what makes a new object fresh.
-/

/-- A nullable pointer. -/
abbrev Ptr := Option ℕ

/-- Live objects by address. No object lives at or above `next`. -/
structure Heap (α : Type) where
  next : ℕ
  cells : ℕ → Option α
  bounded : ∀ address, next ≤ address → cells address = none

namespace Heap

variable {α β : Type}

instance : EmptyCollection (Heap α) := ⟨⟨0, fun _ => none, fun _ _ => rfl⟩⟩

instance : Inhabited (Heap α) := ⟨∅⟩

/-- The object at an address, if one lives there. -/
def read (heap : Heap α) (address : ℕ) : Option α := heap.cells address

/-- Rewrite the object at an address; nothing happens at an address without one. -/
def modify (heap : Heap α) (address : ℕ) (update : α → α) : Heap α where
  next := heap.next
  cells other := if other = address then (heap.cells address).map update else heap.cells other
  bounded other above := by
    split
    · next same => rw [← same, heap.bounded other above]; rfl
    · exact heap.bounded other above

/-- Place an object at the fresh address `next`. -/
def alloc (heap : Heap α) (object : α) : Heap α where
  next := heap.next + 1
  cells other := if other = heap.next then some object else heap.cells other
  bounded other above := by
    rw [if_neg (by omega)]
    exact heap.bounded other (by omega)

/-- End the life of the object at an address. -/
def free (heap : Heap α) (address : ℕ) : Heap α where
  next := heap.next
  cells other := if other = address then none else heap.cells other
  bounded other above := by
    split
    · rfl
    · exact heap.bounded other above

@[simp] theorem read_empty (address : ℕ) : (∅ : Heap α).read address = none := rfl

theorem read_bound {heap : Heap α} {address : ℕ} {object : α}
    (live : heap.read address = some object) : address < heap.next := by
  by_contra above
  have dead := heap.bounded address (by omega)
  exact Option.some_ne_none object (live.symm.trans dead)

theorem read_modify (heap : Heap α) (address other : ℕ) (update : α → α) :
    (heap.modify address update).read other =
      if other = address then (heap.read address).map update else heap.read other := rfl

@[simp] theorem read_modify_self (heap : Heap α) (address : ℕ) (update : α → α) :
    (heap.modify address update).read address = (heap.read address).map update := if_pos rfl

theorem read_modify_of_ne (heap : Heap α) {address other : ℕ} (update : α → α)
    (different : other ≠ address) : (heap.modify address update).read other = heap.read other :=
  if_neg different

/-- A rewrite neither creates nor deletes. -/
@[simp] theorem exists_read_modify (heap : Heap α) (address other : ℕ) (update : α → α) :
    (∃ object, (heap.modify address update).read other = some object) ↔ ∃ object, heap.read other = some object := by
  rw [read_modify]
  split
  · next same => simp [same]
  · rfl

theorem read_alloc (heap : Heap α) (object : α) (other : ℕ) :
    (heap.alloc object).read other = if other = heap.next then some object else heap.read other := rfl

@[simp] theorem read_alloc_next (heap : Heap α) (object : α) :
    (heap.alloc object).read heap.next = some object := if_pos rfl

theorem read_free (heap : Heap α) (address other : ℕ) :
    (heap.free address).read other = if other = address then none else heap.read other := rfl

@[simp] theorem next_modify (heap : Heap α) (address : ℕ) (update : α → α) :
    (heap.modify address update).next = heap.next := rfl

@[simp] theorem next_alloc (heap : Heap α) (object : α) : (heap.alloc object).next = heap.next + 1 := rfl

@[simp] theorem next_free (heap : Heap α) (address : ℕ) : (heap.free address).next = heap.next := rfl

/-- A rewrite that keeps an observation of the object keeps it everywhere. -/
theorem map_read_modify (heap : Heap α) (address other : ℕ) {update : α → α} {observe : α → β}
    (kept : ∀ object, observe (update object) = observe object) :
    ((heap.modify address update).read other).map observe = (heap.read other).map observe := by
  rw [read_modify]
  split
  · next same => simp only [same, Option.map_map, Function.comp_def, kept]
  · rfl

@[ext] theorem ext {heap heap' : Heap α} (next : heap.next = heap'.next)
    (read : ∀ address, heap.read address = heap'.read address) : heap = heap' := by
  obtain ⟨_, cells, _⟩ := heap
  obtain ⟨_, cells', _⟩ := heap'
  obtain rfl : cells = cells' := funext read
  subst next
  rfl

/-- The same addresses, each object replaced by its image. -/
def map (f : α → β) (heap : Heap α) : Heap β where
  next := heap.next
  cells address := (heap.cells address).map f
  bounded address above := by rw [heap.bounded address above]; rfl

@[simp] theorem next_map (f : α → β) (heap : Heap α) : (heap.map f).next = heap.next := rfl

@[simp] theorem read_map (f : α → β) (heap : Heap α) (address : ℕ) :
    (heap.map f).read address = (heap.read address).map f := rfl

/-- `*p`, as a value. -/
def load (p : Ptr) : StateT (Heap α) Option α := fun heap => do
  let address ← p
  let object ← heap.read address
  pure (object, heap)

/-- Assign to fields of `*p`. -/
def store (p : Ptr) (update : α → α) : StateT (Heap α) Option Unit := fun heap => do
  let address ← p
  let _ ← heap.read address
  pure ((), heap.modify address update)

/-- `new`: the address of a fresh object. -/
def new (object : α) : StateT (Heap α) Option ℕ := fun heap =>
  pure (heap.next, heap.alloc object)

/-- `delete p`. Deleting null does nothing; deleting a dead object is stuck. -/
def delete (p : Ptr) : StateT (Heap α) Option Unit := fun heap =>
  match p with
  | none => pure ((), heap)
  | some address => (heap.read address).map fun _ => ((), heap.free address)

@[simp] theorem run_load (address : ℕ) (heap : Heap α) :
    (load (some address)).run heap = (heap.read address).map fun object => (object, heap) := by
  cases live : heap.read address <;> simp [load, StateT.run, live]

@[simp] theorem run_store (address : ℕ) (update : α → α) (heap : Heap α) :
    (store (some address) update).run heap =
      (heap.read address).map fun _ => ((), heap.modify address update) := by
  cases live : heap.read address <;> simp [store, StateT.run, live]

@[simp] theorem run_new (object : α) (heap : Heap α) :
    (new object).run heap = some (heap.next, heap.alloc object) := rfl

@[simp] theorem run_delete (address : ℕ) (heap : Heap α) :
    (delete (some address)).run heap = (heap.read address).map fun _ => ((), heap.free address) := rfl

@[simp] theorem run_delete_null (heap : Heap α) : (delete none).run heap = some ((), heap) := rfl

end Heap
