import Mathlib.Data.List.AList

/-! # Hash maps

`std::unordered_map` as an association list with distinct keys. The source iterates its hash maps
only to delete every value or to print, so the order of the entries carries no meaning.
-/

/-- Finitely many keys, each with one value. -/
abbrev UnorderedMap (κ α : Type) := AList fun _ : κ => α

namespace UnorderedMap

variable {κ α : Type} [DecidableEq κ]

/-- `find`, as the mapped value. -/
def find? (map : UnorderedMap κ α) (key : κ) : Option α := map.lookup key

/-- `map[key] = value`. -/
def assign (map : UnorderedMap κ α) (key : κ) (value : α) : UnorderedMap κ α := map.insert key value

/-- `erase(key)`. -/
def remove (map : UnorderedMap κ α) (key : κ) : UnorderedMap κ α := map.erase key

/-- Mapped values, in the order of iteration. -/
def values (map : UnorderedMap κ α) : List α := map.entries.map (·.2)

@[simp] theorem find?_empty (key : κ) : find? (∅ : UnorderedMap κ α) key = none := AList.lookup_empty key

theorem find?_assign (map : UnorderedMap κ α) (key other : κ) (value : α) :
    find? (assign map key value) other = if other = key then some value else find? map other := by
  split
  · next same => subst same; exact AList.lookup_insert map
  · next different => exact AList.lookup_insert_ne different

theorem find?_remove (map : UnorderedMap κ α) (key other : κ) :
    find? (remove map key) other = if other = key then none else find? map other := by
  split
  · next same => subst same; exact AList.lookup_erase _ map
  · next different => exact AList.lookup_erase_ne different

theorem mem_entries (map : UnorderedMap κ α) (key : κ) (value : α) :
    ⟨key, value⟩ ∈ map.entries ↔ find? map key = some value :=
  AList.mem_lookup_iff.symm

theorem mem_values (map : UnorderedMap κ α) (value : α) :
    value ∈ values map ↔ ∃ key, find? map key = some value := by
  simp only [values, List.mem_map]
  constructor
  · rintro ⟨⟨key, found⟩, member, rfl⟩
    exact ⟨key, (mem_entries map key found).mp member⟩
  · rintro ⟨key, found⟩
    exact ⟨⟨key, value⟩, (mem_entries map key value).mpr found, rfl⟩

/-- The new value and the values under other keys. -/
theorem values_assign (map : UnorderedMap κ α) (key : κ) (value : α) :
    values (assign map key value) = value :: values (remove map key) := rfl

/-- Maps with the same lookups up to a function have the same values up to it. -/
theorem values_perm_map {β : Type} {map : UnorderedMap κ α} {map' : UnorderedMap κ β} {f : α → β}
    (same : ∀ key, find? map' key = (find? map key).map f) : (values map').Perm ((values map).map f) := by
  have entries : map'.entries.Perm (map.entries.map fun entry => ⟨entry.1, f entry.2⟩) := by
    refine (List.perm_ext_iff_of_nodup map'.nodupKeys.nodup ?_).mpr fun ⟨key, value⟩ => ?_
    · apply List.Nodup.of_map Sigma.fst
      rw [List.map_map]
      exact map.nodupKeys
    · rw [mem_entries, same, Option.map_eq_some_iff, List.mem_map]
      constructor
      · rintro ⟨old, found, rfl⟩
        exact ⟨⟨key, old⟩, (mem_entries map key old).mpr found, rfl⟩
      · rintro ⟨⟨key', old⟩, member, sameEntry⟩
        cases sameEntry
        exact ⟨old, (mem_entries map _ old).mp member, rfl⟩
  have := entries.map Sigma.snd
  rw [List.map_map] at this
  rw [values, values, List.map_map]
  exact this

theorem values_perm {map map' : UnorderedMap κ α} (same : ∀ key, find? map' key = find? map key) :
    (values map').Perm (values map) := by
  simpa using values_perm_map fun key => (same key).trans (Option.map_id' (x := find? map key)).symm

/-- The values are the one under a key and those under other keys. -/
theorem values_perm_remove {map : UnorderedMap κ α} {key : κ} {value : α} (found : find? map key = some value) :
    (values map).Perm (value :: values (remove map key)) := by
  rw [← values_assign]
  apply values_perm
  intro other
  rw [find?_assign]
  split
  · next same => rw [same, found]
  · rfl

theorem values_perm_remove_of_none {map : UnorderedMap κ α} {key : κ} (unknown : find? map key = none) :
    (values (remove map key)).Perm (values map) := by
  apply values_perm
  intro other
  rw [find?_remove]
  split
  · next same => rw [same, unknown]
  · rfl

end UnorderedMap
