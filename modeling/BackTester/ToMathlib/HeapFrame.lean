import BackTester.ToMathlib.Heap

/-! # Computations in a part of the free store

A computation that returns from the part of a store that it owns does the same in the whole store,
and leaves the rest alone. For a part, the frame is what the rest holds. That a computation does so
is read off from its steps: it dereferences, creates and deletes objects, and asks for the next
address only, which the part has in common with the whole.
-/

namespace StateT

variable {σ β γ : Type} {related : σ → σ → Prop}

/-- Where the computation returns from a state, it returns the same from every related one, and the
states are related again. -/
def Stable (related : σ → σ → Prop) (run : StateT σ Option β) : Prop :=
  ∀ part whole, related part whole → ∀ value after, run.run part = some (value, after) →
    ∃ after', run.run whole = some (value, after') ∧ related after after'

theorem stable_pure (value : β) : Stable related (pure value) := by
  intro part whole holds value' after ran
  obtain ⟨rfl, rfl⟩ := Prod.mk.inj (Option.some.inj ran)
  exact ⟨whole, rfl, holds⟩

/-- A computation that never returns. -/
theorem stable_stuck : Stable related (fun _ => none : StateT σ Option β) := by
  intro part whole holds value after ran
  contradiction

theorem Stable.bind {run : StateT σ Option β} {next : β → StateT σ Option γ} (stable : Stable related run)
    (stables : ∀ value, Stable related (next value)) : Stable related (run >>= next) := by
  intro part whole holds value after ran
  obtain ⟨⟨middle, between⟩, first, second⟩ := Option.bind_eq_some_iff.mp ran
  obtain ⟨between', first', holds⟩ := stable part whole holds middle between first
  obtain ⟨after', second', holds⟩ := stables middle between between' holds value after second
  exact ⟨after', Option.bind_eq_some_iff.mpr ⟨_, first', second'⟩, holds⟩

/-- What is read of the state is the same in related states. -/
theorem stable_get {next : σ → StateT σ Option β} (same : ∀ part whole, related part whole → next whole = next part)
    (stables : ∀ state, Stable related (next state)) : Stable related (get >>= next) := by
  intro part whole holds value after ran
  change ∃ after', (next whole).run whole = some (value, after') ∧ related after after'
  rw [same part whole holds]
  exact stables part part whole holds value after ran

theorem stable_modify {update : σ → σ}
    (keeps : ∀ part whole, related part whole → related (update part) (update whole)) :
    Stable related (modify update : StateT σ Option PUnit) := by
  intro part whole holds value after ran
  obtain ⟨rfl, rfl⟩ := Prod.mk.inj (Option.some.inj ran)
  exact ⟨update whole, rfl, keeps part whole holds⟩

theorem stable_forM {α : Type} {run : α → StateT σ Option PUnit} (stables : ∀ item, Stable related (run item))
    (items : List α) :
    Stable related (items.forM run) := by
  induction items with
  | nil => exact stable_pure _
  | cons item items ih => exact (stables item).bind fun _ => ih

theorem Stable.ite {condition : Prop} [Decidable condition] {run other : StateT σ Option β}
    (stable : Stable related run)
    (otherStable : Stable related other) : Stable related (if condition then run else other) := by
  split
  · exact stable
  · exact otherStable

end StateT

namespace Heap

open StateT

variable {α β : Type} {frame : ℕ → Option α} {part whole : Heap α}

/-- The whole store is the part and the frame, which have no address in common. -/
structure Framed (frame : ℕ → Option α) (part whole : Heap α) : Prop where
  next : whole.next = part.next
  inside : ∀ address, frame address = none → whole.read address = part.read address
  outside : ∀ address object, frame address = some object → whole.read address = some object ∧ part.read address = none

namespace Framed

variable (framed : Framed frame part whole) {address : ℕ} {object : α}
include framed

theorem read (live : part.read address = some object) : frame address = none ∧ whole.read address = some object := by
  have free : frame address = none := by
    by_contra taken
    obtain ⟨other, isFramed⟩ := Option.ne_none_iff_exists'.mp taken
    rw [(framed.outside address other isFramed).2] at live
    contradiction
  exact ⟨free, by rw [framed.inside address free, live]⟩

/-- A change of a cell of the part, by any of the steps. -/
theorem change {part' whole' : Heap α} (free : frame address = none) (next : whole'.next = part'.next)
    (here : whole'.read address = part'.read address)
    (partElsewhere : ∀ other ≠ address, part'.read other = part.read other)
    (wholeElsewhere : ∀ other ≠ address, whole'.read other = whole.read other) : Framed frame part' whole' where
  next := next
  inside other outside := by
    rcases eq_or_ne other address with rfl | apart
    · exact here
    · rw [partElsewhere other apart, wholeElsewhere other apart, framed.inside other outside]
  outside other object isFramed := by
    have apart : other ≠ address := by
      rintro rfl
      rw [free] at isFramed
      contradiction
    rw [partElsewhere other apart, wholeElsewhere other apart]
    exact framed.outside other object isFramed

theorem modify (free : frame address = none) (update : α → α) :
    Framed frame (part.modify address update) (whole.modify address update) :=
  framed.change free framed.next (by rw [read_modify_self, read_modify_self, framed.inside address free])
    (fun _ apart => part.read_modify_of_ne update apart) fun _ apart => whole.read_modify_of_ne update apart

theorem alloc (object : α) : Framed frame (part.alloc object) (whole.alloc object) := by
  have free : frame part.next = none := by
    by_contra taken
    obtain ⟨other, isFramed⟩ := Option.ne_none_iff_exists'.mp taken
    have below := read_bound (framed.outside part.next other isFramed).1
    rw [framed.next] at below
    exact Nat.lt_irrefl _ below
  refine framed.change free (congrArg Nat.succ framed.next) ?_ (fun other apart => ?_) fun other apart => ?_
  · rw [read_alloc, if_pos framed.next.symm, read_alloc_next]
  · rw [read_alloc, if_neg apart]
  · rw [read_alloc, if_neg (by rwa [framed.next])]

theorem free (free : frame address = none) : Framed frame (part.free address) (whole.free address) :=
  framed.change free framed.next (by rw [read_free, read_free, if_pos rfl, if_pos rfl])
    (fun _ apart => by rw [read_free, if_neg apart]) fun _ apart => by rw [read_free, if_neg apart]

end Framed

theorem stable_load (p : Ptr) : Stable (Framed frame) (load p) := by
  intro part whole framed value after ran
  cases p with
  | none => contradiction
  | some address =>
    rw [run_load] at ran ⊢
    obtain ⟨object, live, same⟩ := Option.map_eq_some_iff.mp ran
    obtain ⟨rfl, rfl⟩ := Prod.mk.inj same
    exact ⟨whole, by rw [(framed.read live).2]; rfl, framed⟩

theorem stable_store (p : Ptr) (update : α → α) : Stable (Framed frame) (store p update) := by
  intro part whole framed value after ran
  cases p with
  | none => contradiction
  | some address =>
    rw [run_store] at ran ⊢
    obtain ⟨object, live, same⟩ := Option.map_eq_some_iff.mp ran
    obtain ⟨rfl, rfl⟩ := Prod.mk.inj same
    obtain ⟨free, isLive⟩ := framed.read live
    exact ⟨whole.modify address update, by rw [isLive]; rfl, framed.modify free update⟩

theorem stable_new (object : α) : Stable (Framed frame) (new object) := by
  intro part whole framed value after ran
  obtain ⟨rfl, rfl⟩ := Prod.mk.inj (Option.some.inj ran)
  exact ⟨whole.alloc object, by rw [run_new, framed.next], framed.alloc object⟩

theorem stable_delete (p : Ptr) : Stable (Framed frame) (delete p : StateT (Heap α) Option Unit) := by
  intro part whole framed value after ran
  cases p with
  | none =>
    obtain ⟨rfl, rfl⟩ := Prod.mk.inj (Option.some.inj ran)
    exact ⟨whole, rfl, framed⟩
  | some address =>
    rw [run_delete] at ran ⊢
    obtain ⟨object, live, same⟩ := Option.map_eq_some_iff.mp ran
    obtain ⟨rfl, rfl⟩ := Prod.mk.inj same
    obtain ⟨free, isLive⟩ := framed.read live
    exact ⟨whole.free address, by rw [isLive]; rfl, framed.free free⟩

/-- Whatever the part has come to, it is what the whole has outside the frame. -/
theorem Framed.read_part (framed : Framed frame part whole) (address : ℕ) :
    part.read address = if frame address = none then whole.read address else none := by
  split
  · next free => exact (framed.inside address free).symm
  · next taken =>
    obtain ⟨object, isFramed⟩ := Option.ne_none_iff_exists'.mp taken
    exact (framed.outside address object isFramed).2

section Owners

variable {Name : Type} [DecidableEq Name] {heap : Heap α} {owner : ℕ → Option Name} {name other : Name} {address : ℕ}

/-- What one of several owners has of a store. -/
def ownedBy (heap : Heap α) (owner : ℕ → Option Name) (name : Name) : Heap α where
  next := heap.next
  cells address := if owner address = some name then heap.read address else none
  bounded address above := by
    split
    · exact heap.bounded address above
    · rfl

/-- What the others have of it. -/
def frameOf (heap : Heap α) (owner : ℕ → Option Name) (name : Name) (address : ℕ) : Option α :=
  if owner address = some name then none else heap.read address

theorem read_ownedBy (heap : Heap α) (owner : ℕ → Option Name) (name : Name) (address : ℕ) :
    (heap.ownedBy owner name).read address = if owner address = some name then heap.read address else none := rfl

theorem ownedBy_eq_some {object : α} :
    (heap.ownedBy owner name).read address = some object ↔ owner address = some name ∧
    heap.read address = some object := by
  rw [read_ownedBy]
  split
  · next own => exact ⟨fun read => ⟨own, read⟩, And.right⟩
  · next notOwn => exact ⟨fun read => by contradiction, fun both => absurd both.1 notOwn⟩

theorem ownedBy_eq_none
    (notOwned : ∀ address object, heap.read address = some object → owner address ≠ some name) (address : ℕ) :
    (heap.ownedBy owner name).read address = none := by
  by_contra isLive
  obtain ⟨object, read⟩ := Option.ne_none_iff_exists'.mp isLive
  obtain ⟨own, read⟩ := ownedBy_eq_some.mp read
  exact notOwned address object read own

theorem framed_ownedBy (heap : Heap α) (owner : ℕ → Option Name) (name : Name) :
    Framed (heap.frameOf owner name) (heap.ownedBy owner name) heap where
  next := rfl
  inside address free := by
    rw [read_ownedBy]
    split
    · rfl
    · next outside => rwa [frameOf, if_neg outside] at free
  outside address object isFramed := by
    unfold frameOf at isFramed
    split at isFramed
    · contradiction
    · next outside => exact ⟨isFramed, by rw [read_ownedBy, if_neg outside]⟩

/-- The owners after steps of one of them: it has all that the others did not have before. -/
def ownersAfter (heap : Heap α) (owner : ℕ → Option Name) (name : Name) (address : ℕ) : Option Name :=
  if heap.frameOf owner name address = none then some name else owner address

theorem ownersAfter_self (address : ℕ) : heap.ownersAfter owner name address = some name ↔
    heap.frameOf owner name address = none := by
  unfold ownersAfter
  split
  · next free => exact iff_of_true rfl free
  · next taken =>
    refine iff_of_false (fun own => taken ?_) taken
    rw [frameOf, if_pos own]

theorem Framed.ownedBy_self (framed : Framed (heap.frameOf owner name) part whole) (address : ℕ) :
    (whole.ownedBy (heap.ownersAfter owner name) name).read address = part.read address := by
  rw [read_ownedBy, framed.read_part]
  simp only [ownersAfter_self]

theorem Framed.ownedBy_other (framed : Framed (heap.frameOf owner name) part whole)
    (apart : other ≠ name) (address : ℕ) :
    (whole.ownedBy (heap.ownersAfter owner name) other).read address = (heap.ownedBy owner other).read address := by
  have notName : some name ≠ some other := fun same => apart (Option.some.inj same).symm
  rw [read_ownedBy, read_ownedBy, ownersAfter]
  cases isFramed : heap.frameOf owner name address with
  | none =>
    rw [if_pos rfl, if_neg notName]
    split
    · next own => rw [← isFramed, frameOf, if_neg (by rw [own]; exact notName.symm)]
    · rfl
  | some object =>
    have isLive := isFramed
    rw [frameOf] at isLive
    rw [if_neg (Option.some_ne_none _)]
    split at isLive
    · contradiction
    · rw [(framed.outside address object isFramed).1, isLive]

/-- Every object has an owner after the steps, if it had one before. -/
theorem exists_ownerAfter {alive : Name → Prop} (own : alive name)
    (owners : ∀ address object, heap.read address = some object → ∃ name, owner address = some name ∧ alive name)
    (address : ℕ) :
    ∃ owner', heap.ownersAfter owner name address = some owner' ∧ alive owner' := by
  unfold ownersAfter
  split
  · exact ⟨name, rfl, own⟩
  · next taken =>
    obtain ⟨object, isFramed⟩ := Option.ne_none_iff_exists'.mp taken
    rw [frameOf] at isFramed
    split at isFramed
    · contradiction
    · exact owners address object isFramed

/-- The owners after one has taken over what another had. -/
def handOver (owner : ℕ → Option Name) (name other : Name) (address : ℕ) : Option Name :=
  if owner address = some other then some name else owner address

theorem exists_handOver {alive alive' : Name → Prop} (own : alive' name)
    (keeps : ∀ third ≠ other, alive third → alive' third)
    (owned : ∃ owner', owner address = some owner' ∧ alive owner') :
    ∃ owner', handOver owner name other address = some owner' ∧ alive' owner' := by
  obtain ⟨owner', isOwner, isAlive⟩ := owned
  unfold handOver
  split
  · exact ⟨name, rfl, own⟩
  · next apart => exact ⟨owner', isOwner, keeps owner' (fun same => apart (by rw [isOwner, same])) isAlive⟩

/-- Who had nothing has what the other had. -/
theorem ownedBy_handOver_self (nothing : ∀ address, (heap.ownedBy owner name).read address = none) (address : ℕ) :
    (heap.ownedBy (handOver owner name other) name).read address = (heap.ownedBy owner other).read address := by
  have nothing := nothing address
  rw [read_ownedBy] at nothing
  rw [read_ownedBy, read_ownedBy, handOver]
  by_cases own : owner address = some other
  · rw [if_pos own, if_pos rfl, if_pos own]
  · rw [if_neg own, if_neg own, nothing]

theorem ownedBy_handOver_other (apart : name ≠ other) (address : ℕ) :
    (heap.ownedBy (handOver owner name other) other).read address = none := by
  rw [read_ownedBy, handOver]
  by_cases own : owner address = some other
  · rw [if_pos own, if_neg fun same => apart (Option.some.inj same)]
  · rw [if_neg own, if_neg own]

theorem ownedBy_handOver_third {third : Name} (notName : third ≠ name) (notOther : third ≠ other) (address : ℕ) :
    (heap.ownedBy (handOver owner name other) third).read address = (heap.ownedBy owner third).read address := by
  rw [read_ownedBy, read_ownedBy, handOver]
  by_cases own : owner address = some other
  · rw [if_pos own, if_neg fun same => notName (Option.some.inj same).symm, if_neg fun same => notOther ?_]
    exact Option.some.inj (same.symm.trans own)
  · rw [if_neg own]

end Owners

end Heap
