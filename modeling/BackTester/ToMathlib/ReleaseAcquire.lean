import Mathlib.Data.List.Basic
import Mathlib.Order.Lattice

/-! # Release and acquire

Shared memory in which a load need not return the latest store. The stores to an atomic location
stand in their modification order, each with what the storing thread knew when it made it. A load
returns any store that is not older than one its thread knows of; an acquire load learns what came
with a release store. An access to plain memory that another one does not happen before is a race.

Each location has one storing thread, whose stores are made in program order, so a store comes last
in the modification order.
-/

/-- What is known: of an atomic location the index of a store, of a thread the number of its plain accesses. -/
abbrev View (Source : Type*) := Source → ℕ

/-- One more store or access is known. -/
def View.next {Source : Type*} [DecidableEq Source] (view : View Source) (source : Source) : View Source :=
  Function.update view source (view source + 1)

/-- The stores to an atomic location in modification order, with the views that are released. -/
structure Atomic (Source α : Type*) where
  stores : List (α × View Source)

variable {Source Cell α : Type*} {location thread : Source} {view top after : View Source}
  {value : α} {index : ℕ} {cell : Cell}

namespace View

variable [DecidableEq Source]

theorem le_next (view : View Source) (source : Source) : view ≤ view.next source :=
  le_update_self_iff.mpr (Nat.le_succ _)

theorem next_le_next (le : view ≤ top) (source : Source) : view.next source ≤ top.next source :=
  update_le_update_iff.mpr ⟨Nat.succ_le_succ (le source), fun other _ => le other⟩

theorem next_self (view : View Source) (source : Source) : view.next source source = view source + 1 :=
  Function.update_self _ _ _

end View

namespace Atomic

variable {atomic : Atomic Source α}

def init (value : α) : Atomic Source α := ⟨[(value, fun _ => 0)]⟩

/-- The last of the stores. -/
def latest [Inhabited α] (atomic : Atomic Source α) : α := (atomic.stores.getLast?.map Prod.fst).getD default

/-- An acquire load of the store with an index. -/
def acquire (atomic : Atomic Source α) (location : Source) (view : View Source) (index : ℕ) :
    Option (α × View Source) :=
  if view location ≤ index then atomic.stores[index]?.map fun store => (store.1, view ⊔ store.2) else none

variable [DecidableEq Source]

/-- A relaxed load of the store with an index. -/
def relaxed (atomic : Atomic Source α) (location : Source) (view : View Source) (index : ℕ) :
    Option (α × View Source) :=
  if view location ≤ index then atomic.stores[index]?.map fun store =>
    (store.1, Function.update view location index) else none

/-- What a thread knows after its next store. -/
def known (atomic : Atomic Source α) (location : Source) (view : View Source) : View Source :=
  Function.update view location atomic.stores.length

/-- A release store. -/
def release (atomic : Atomic Source α) (location : Source) (view : View Source) (value : α) : Atomic Source α :=
  ⟨atomic.stores ++ [(value, atomic.known location view)]⟩

theorem stores_release {store : α × View Source} :
    (atomic.release location view value).stores[index]? = some store ↔
      atomic.stores[index]? = some store ∨ index = atomic.stores.length ∧
      (value, atomic.known location view) = store := by
  unfold release
  rw [List.getElem?_append]
  split
  · next inside => exact ⟨.inl, fun found => found.resolve_right fun last => (Nat.ne_of_lt inside) last.1⟩
  · next outside =>
    rw [List.getElem?_eq_none (Nat.le_of_not_lt outside), List.getElem?_singleton]
    constructor
    · intro found
      split at found
      · exact .inr ⟨by omega, Option.some.inj found⟩
      · contradiction
    · rintro (found | ⟨rfl, rfl⟩)
      · contradiction
      · rw [Nat.sub_self, if_pos rfl]

@[simp] theorem latest_release [Inhabited α] : (atomic.release location view value).latest = value := by
  simp [latest, release]

omit [DecidableEq Source] in
theorem acquire_eq_some_iff : atomic.acquire location view index = some (value, after) ↔
    view location ≤ index ∧ ∃ released, atomic.stores[index]? = some (value, released) ∧ after = view ⊔ released := by
  unfold acquire
  split
  · next fresh =>
    rw [and_iff_right fresh, Option.map_eq_some_iff]
    constructor
    · rintro ⟨⟨_, released⟩, found, same⟩
      obtain ⟨rfl, rfl⟩ := Prod.mk.inj same
      exact ⟨released, found, rfl⟩
    · rintro ⟨released, found, rfl⟩
      exact ⟨_, found, rfl⟩
  · next stale => exact ⟨fun load => by contradiction, fun load => absurd load.1 stale⟩

theorem relaxed_eq_some_iff : atomic.relaxed location view index = some (value, after) ↔
    view location ≤ index ∧ (∃ released, atomic.stores[index]? = some (value, released)) ∧
    after = Function.update view location index := by
  unfold relaxed
  split
  · next fresh =>
    rw [and_iff_right fresh, Option.map_eq_some_iff]
    constructor
    · rintro ⟨⟨_, released⟩, found, same⟩
      obtain ⟨rfl, rfl⟩ := Prod.mk.inj same
      exact ⟨⟨released, found⟩, rfl⟩
    · rintro ⟨⟨released, found⟩, rfl⟩
      exact ⟨_, found, rfl⟩
  · next stale => exact ⟨fun load => by contradiction, fun load => absurd load.1 stale⟩

/-- `top` is the index of the last store and bounds what is released; who knows a store knows its index. -/
structure Within (atomic : Atomic Source α) (location : Source) (top : View Source) : Prop where
  last : atomic.stores.length = top location + 1
  le : ∀ (index : ℕ) (store : α × View Source), atomic.stores[index]? = some store → store.2 ≤ top
  index_le : ∀ (index : ℕ) (store : α × View Source), atomic.stores[index]? = some store → index ≤ store.2 location

omit [DecidableEq Source] in
theorem within_init (value : α) : (init value).Within location fun _ => 0 := by
  have only {index : ℕ} {store : α × View Source} (found : (init value : Atomic Source α).stores[index]? = some store) :
      index = 0 ∧ store.2 = fun _ => 0 := by
    rw [init, List.getElem?_singleton] at found
    split at found
    · next first => exact ⟨first, by rw [← Option.some.inj found]⟩
    · contradiction
  constructor
  · rfl
  · intro index store found
    rw [(only found).2]
  · intro index store found
    rw [(only found).1]
    exact Nat.zero_le _

namespace Within

variable (within : atomic.Within location top)
include within

omit [DecidableEq Source] in
/-- More is known, and nothing more is stored here. -/
theorem mono {more : View Source} (le : top ≤ more) (same : more location = top location) :
    atomic.Within location more where
  last := by rw [within.last, same]
  le index store found := (within.le index store found).trans le
  index_le := within.index_le

theorem known_le (le : view ≤ top) : atomic.known location view ≤ top.next location := by
  rw [known, View.next, within.last]
  exact update_le_update_iff.mpr ⟨le_refl _, fun other _ => le other⟩

theorem known_eq (own : view location = top location) : atomic.known location view = view.next location := by
  rw [known, View.next, within.last, own]

theorem length_release (value : α) :
    (atomic.release location view value).stores.length - 1 = top.next location location := by
  rw [View.next_self, Atomic.release, List.length_append, List.length_singleton, within.last, Nat.add_sub_cancel]

theorem release (le : view ≤ top) (value : α) :
    (atomic.release location view value).Within location (top.next location) where
  last := by
    rw [View.next, Function.update_self, Atomic.release, List.length_append, List.length_singleton, within.last]
  le index store found := by
    rcases stores_release.mp found with found | ⟨-, rfl⟩
    · refine (within.le index store found).trans ?_
      exact top.le_next location
    · exact within.known_le le
  index_le index store found := by
    rcases stores_release.mp found with found | ⟨rfl, rfl⟩
    · exact within.index_le index store found
    · change atomic.stores.length ≤ atomic.known location view location
      rw [known, Function.update_self]

omit [DecidableEq Source] in
theorem index_le_top {store : α × View Source} (found : atomic.stores[index]? = some store) : index ≤ top location := by
  have inside := (List.getElem?_eq_some_iff.mp found).1
  rw [within.last] at inside
  exact Nat.le_of_lt_succ inside

omit [DecidableEq Source] in
/-- An acquire load learns what came with the store, and nothing beyond `top`. -/
theorem acquire (le : view ≤ top) (load : atomic.acquire location view index = some (value, after)) :
    view ≤ after ∧ after ≤ top ∧ index ≤ after location := by
  obtain ⟨-, released, found, rfl⟩ := acquire_eq_some_iff.mp load
  exact ⟨le_sup_left, sup_le le (within.le _ _ found),
    (within.index_le _ _ found).trans (le_sup_right (a := view) location)⟩

omit [DecidableEq Source] in
theorem latest_eq [Inhabited α] {store : α × View Source} (found : atomic.stores[index]? = some store)
    (last : top location ≤ index) :
    atomic.latest = store.1 := by
  have isLast : index = atomic.stores.length - 1 := by
    rw [within.last]
    exact Nat.le_antisymm (within.index_le_top found) last
  rw [latest, List.getLast?_eq_getElem?, ← isLast, found]
  rfl

omit [DecidableEq Source] in
/-- Who knows of the last store loads it. -/
theorem acquire_latest [Inhabited α] (own : view location = top location)
    (load : atomic.acquire location view index = some (value, after)) :
    value = atomic.latest := by
  obtain ⟨fresh, released, found, -⟩ := acquire_eq_some_iff.mp load
  exact (within.latest_eq found (own ▸ fresh)).symm

theorem relaxed_latest [Inhabited α] (own : view location = top location)
    (load : atomic.relaxed location view index = some (value, after)) :
    value = atomic.latest ∧ after = view := by
  obtain ⟨fresh, ⟨released, found⟩, rfl⟩ := relaxed_eq_some_iff.mp load
  have isLast : index = view location := Nat.le_antisymm (own ▸ within.index_le_top found) fresh
  exact ⟨(within.latest_eq found (own ▸ fresh)).symm, by rw [isLast, Function.update_eq_self]⟩

end Within

end Atomic

/-- Plain memory, and the number of the last access of each thread to each cell. -/
structure Plain (Source Cell α : Type*) where
  contents : Cell → α
  accessed : Cell → Source → ℕ := fun _ _ => 0

namespace Plain

/-- An access now is a race with one of another thread that its thread does not know of. -/
def Races (plain : Plain Source Cell α) (view : View Source) (thread : Source) (cell : Cell) : Prop :=
  ∃ other ≠ thread, view other < plain.accessed cell other

variable [DecidableEq Source] [DecidableEq Cell]

/-- An access of a thread, its next, that leaves a value. -/
def access (plain : Plain Source Cell α) (view : View Source) (thread : Source) (cell : Cell) (value : α) :
    Plain Source Cell α where
  contents := Function.update plain.contents cell value
  accessed := Function.update plain.accessed cell (Function.update (plain.accessed cell) thread (view thread + 1))

end Plain
