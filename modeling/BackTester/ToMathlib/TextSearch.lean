import Mathlib.Data.List.Infix

/-! # Searching a text

The first occurrence of a needle in a text, and what a search passes over: a part without the first
token of the needle, and a part between two marks when the needle is another word between two such
marks.
-/

namespace TextSearch

variable {α : Type} [DecidableEq α]

/-- What is behind the first occurrence of the needle. -/
def behind (needle : List α) : List α → Option (List α)
  | [] => if needle.isPrefixOf [] then some [] else none
  | c :: text => if needle.isPrefixOf (c :: text) then some ((c :: text).drop needle.length) else behind needle text

variable {needle text rest key others : List α} {mark : α}

theorem behind_append (needle rest : List α) : behind needle (needle ++ rest) = some rest := by
  have here : needle.isPrefixOf (needle ++ rest) = true :=
    List.isPrefixOf_iff_prefix.mpr (List.prefix_append needle rest)
  cases whole : needle ++ rest with
  | nil =>
    obtain ⟨rfl, rfl⟩ := List.append_eq_nil_iff.mp whole
    rfl
  | cons c text =>
    rw [whole] at here
    rw [behind, if_pos here, ← whole, List.drop_left]

theorem behind_cons {c : α} (apart : ¬needle <+: c :: text) : behind needle (c :: text) = behind needle text := by
  rw [← List.isPrefixOf_iff_prefix] at apart
  rw [behind, if_neg apart]

/-- A part without the first token of the needle is passed over. -/
theorem behind_append_of_not_mem (absent : mark ∉ text) :
    behind (mark :: needle) (text ++ rest) = behind (mark :: needle) rest := by
  induction text with
  | nil => rfl
  | cons c text ih =>
    rw [List.mem_cons, not_or] at absent
    rw [List.cons_append, behind_cons fun here => absent.1 (List.cons_prefix_cons.mp here).1]
    exact ih absent.2

omit [DecidableEq α] in
/-- Of two texts that begin with a word and a mark behind it, one begins the other only if the words are the same. -/
theorem append_mark_prefix_iff (marked : mark ∉ key) (isMarked : mark ∉ text) :
    key ++ mark :: others <+: text ++ mark :: rest ↔ key = text ∧ others <+: rest := by
  induction key generalizing text with
  | nil =>
    cases text with
    | nil => simp
    | cons c text =>
      have : mark ≠ c := fun same => isMarked (same ▸ List.mem_cons_self)
      simp [this]
  | cons k key ih =>
    rw [List.mem_cons, not_or] at marked
    cases text with
    | nil =>
      have : k ≠ mark := fun same => marked.1 same.symm
      simp [this]
    | cons c text =>
      rw [List.mem_cons, not_or] at isMarked
      simp only [List.cons_append, List.cons_prefix_cons, List.cons.injEq, ih marked.2 isMarked.2, and_assoc]

/-- A word between two marks is passed over, if it is another one, or what is behind it is not what
the needle has there. -/
theorem behind_between (marked : mark ∉ key) (isMarked : mark ∉ text) (another : key = text → ¬others <+: rest)
    (later : ¬key ++ mark :: others <+: rest) :
    behind (mark :: (key ++ mark :: others)) (mark :: (text ++ mark :: rest)) =
      behind (mark :: (key ++ mark :: others)) rest := by
  rw [behind_cons, behind_append_of_not_mem isMarked, behind_cons]
  · rwa [List.cons_prefix_cons, and_iff_right rfl]
  · rw [List.cons_prefix_cons, and_iff_right rfl, append_mark_prefix_iff marked isMarked]
    exact fun here => another here.1 here.2

end TextSearch
