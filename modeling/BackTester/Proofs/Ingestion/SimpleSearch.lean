import BackTester.Model.Ingestion.JsonSimpleDataParser
import BackTester.Proofs.Ingestion.RecordText

/-! # Looking for keys

The text of a key with its quotes and its colon occurs once in a record, at the field of the key:
what is between the quotes of a value has no colon behind it. So the simple parser finds every value
of the schema, and those of the nested object inside it.
-/

namespace BackTester.JsonSimpleDataParser

open Decimal MboRecord TextSearch

def needle (key : List UInt8) : List UInt8 := ('"' : UInt8) :: (key ++ ('"' : UInt8) :: [(':' : UInt8)])

/-- A key has no quotes and does not begin like what is behind a quote. -/
structure Searchable (key : List UInt8) : Prop where
  unquoted : ('"' : UInt8) ∉ key
  begins : ∃ c others, key = c :: others ∧ c ∉ bytes ":,\x7d"

variable {key value rest : List UInt8} {member : Member} {members : List Member}

theorem Searchable.not_prefix (searchable : Searchable key) {c : UInt8} (mark : c ∈ bytes ":,\x7d") :
    ¬key ++ ('"' : UInt8) :: [(':' : UInt8)] <+: c :: rest := by
  obtain ⟨first, others, rfl, apart⟩ := searchable.begins
  intro here
  rw [List.cons_append, List.cons_prefix_cons] at here
  exact apart (here.1 ▸ mark)

/-- The key is not found in the value. -/
def Passed (key value : List UInt8) : Prop :=
  ∀ rest, Ends rest → behind (needle key) (value ++ rest) = behind (needle key) rest

theorem passed_of_not_mem (unquoted : ('"' : UInt8) ∉ value) : Passed key value :=
  fun _ _ => behind_append_of_not_mem unquoted

theorem passed_scalars (scalars : ∀ c ∈ value, c ∈ scalarChars) : Passed key value :=
  passed_of_not_mem fun isIn => absurd (scalars _ isIn) (by decide)

theorem passed_quoted (searchable : Searchable key) (unquoted : ('"' : UInt8) ∉ value) : Passed key (quoted value) := by
  intro rest ends
  have shape : quoted value ++ rest = ('"' : UInt8) :: (value ++ ('"' : UInt8) :: rest) := by simp [quoted]
  rw [shape]
  apply behind_between searchable.unquoted unquoted
  · intro _ colon
    obtain ⟨more, rfl | rfl⟩ := ends
    · exact absurd (List.cons_prefix_cons.mp colon).1 (by decide)
    · exact absurd (List.cons_prefix_cons.mp colon).1 (by decide)
  · obtain ⟨more, rfl | rfl⟩ := ends
    · exact searchable.not_prefix (by decide)
    · exact searchable.not_prefix (by decide)

/-- The member has another key, and a value without the key. -/
structure Other (key : List UInt8) (member : Member) : Prop where
  another : member.key ≠ key
  unquoted : ('"' : UInt8) ∉ member.key
  value : Passed key member.value

theorem unquoted_spaces (n : ℕ) : ('"' : UInt8) ∉ spaces n :=
  fun isIn => absurd (List.eq_of_mem_replicate isIn) (by decide)

theorem behind_text (searchable : Searchable key) (other : Other key member) (ends : Ends rest) :
    behind (needle key) (member.text ++ rest) = behind (needle key) rest := by
  have noQuote : ('"' : UInt8) ∉ (':' : UInt8) :: spaces member.colonSpaces := by
    rw [List.mem_cons, not_or]
    exact ⟨by decide, unquoted_spaces _⟩
  rw [text_append, needle, behind_between searchable.unquoted other.unquoted fun same => absurd same.symm other.another]
  · rw [behind_append_of_not_mem noQuote]
    exact other.value rest ends
  · exact searchable.not_prefix (by decide)

theorem behind_afterComma (searchable : Searchable key) (others : ∀ member ∈ members, Other key member)
    (ends : Ends rest) :
    behind (needle key) (members.flatMap Member.afterComma ++ rest) = behind (needle key) rest := by
  induction members with
  | nil => rfl
  | cons member members ih =>
    have later : Ends (members.flatMap Member.afterComma ++ rest) := by
      cases members with
      | nil => exact ends
      | cons next members => exact ⟨_, .inl rfl⟩
    have noQuote : ('"' : UInt8) ∉ (',' : UInt8) :: spaces member.commaSpaces := by
      rw [List.mem_cons, not_or]
      exact ⟨by decide, unquoted_spaces _⟩
    rw [List.flatMap_cons, List.append_assoc, Member.afterComma, List.append_assoc,
      needle, behind_append_of_not_mem noQuote, ← needle,
      behind_text searchable (others member List.mem_cons_self) later]
    exact ih fun member isIn => others member (List.mem_cons_of_mem _ isIn)

theorem passed_object (searchable : Searchable key) (others : ∀ member ∈ members, Other key member) :
    Passed key (object members) := by
  intro rest ends
  cases members with
  | nil => exact passed_of_not_mem (by decide) rest ends
  | cons first members =>
    have closes : Ends (('}' : UInt8) :: rest) := ⟨rest, .inr rfl⟩
    have shape : object (first :: members) ++ rest =
        [('{' : UInt8)] ++ (first.text ++ (members.flatMap Member.afterComma ++ ('}' : UInt8) :: rest)) := by
      simp [object]
    have isEnd : ('}' : UInt8) :: rest = [('}' : UInt8)] ++ rest := rfl
    rw [shape, needle, behind_append_of_not_mem (by decide), ← needle,
      behind_text searchable (others first List.mem_cons_self) (ends_afterComma members rest),
      behind_afterComma searchable (fun member isIn => others member (List.mem_cons_of_mem _ isIn)) closes,
      isEnd, needle, behind_append_of_not_mem (by decide)]

theorem behind_own (member : Member) (rest : List UInt8) :
    behind (needle member.key) (member.text ++ rest) = some (spaces member.colonSpaces ++ (member.value ++ rest)) := by
  have shape : member.text ++ rest = needle member.key ++ (spaces member.colonSpaces ++ (member.value ++ rest)) := by
    simp [text_append, needle]
  rw [shape, behind_append]

/-- A value that begins with a space would lose it. -/
def Unspaced (value : List UInt8) : Prop := ∃ c others, value = c :: others ∧ c ≠ ' '

theorem dropWhile_spaces (unspaced : Unspaced value) (n : ℕ) :
    (spaces n ++ (value ++ rest)).dropWhile (fun c : UInt8 => c = ' ') = value ++ rest := by
  obtain ⟨c, others, rfl, notSpace⟩ := unspaced
  rw [List.dropWhile_append_of_pos]
  · rw [List.cons_append, List.dropWhile_cons_of_neg (by simpa using notSpace)]
  · intro c isIn
    exact decide_eq_true (List.eq_of_mem_replicate isIn)

/-- The value of a key is found behind the members ahead of it. -/
theorem findValue_object {before after : List Member} (searchable : Searchable member.key)
    (others : ∀ other ∈ before, Other member.key other) (unspaced : Unspaced member.value) (rest : List UInt8) :
    ∃ behind, Ends behind ∧ findValue (object (before ++ member :: after) ++ rest) member.key =
      member.value ++ behind := by
  have ends := ends_afterComma after rest
  have found : ∃ behind, Ends behind ∧
      TextSearch.behind (needle member.key) (object (before ++ member :: after) ++ rest) =
        some (spaces member.colonSpaces ++ (member.value ++ behind)) := by
    refine ⟨after.flatMap Member.afterComma ++ ('}' : UInt8) :: rest, ends, ?_⟩
    cases before with
    | nil =>
      have shape : object ([] ++ member :: after) ++ rest =
          [('{' : UInt8)] ++ (member.text ++ (after.flatMap Member.afterComma ++ ('}' : UInt8) :: rest)) := by
        simp [object]
      rw [shape, needle, behind_append_of_not_mem (by decide), ← needle, behind_own]
    | cons first before =>
      have shape : object (first :: before ++ member :: after) ++ rest =
          [('{' : UInt8)] ++ (first.text ++ (before.flatMap Member.afterComma ++
            ((',' : UInt8) :: spaces member.commaSpaces ++
              (member.text ++ (after.flatMap Member.afterComma ++ ('}' : UInt8) :: rest))))) := by
        simp [object, Member.afterComma]
      have noQuote : ('"' : UInt8) ∉ (',' : UInt8) :: spaces member.commaSpaces := by
        rw [List.mem_cons, not_or]
        exact ⟨by decide, unquoted_spaces _⟩
      have here : Ends ((',' : UInt8) :: spaces member.commaSpaces ++
          (member.text ++ (after.flatMap Member.afterComma ++ ('}' : UInt8) :: rest))) := ⟨_, .inl rfl⟩
      have ahead : Ends (before.flatMap Member.afterComma ++ ((',' : UInt8) :: spaces member.commaSpaces ++
          (member.text ++ (after.flatMap Member.afterComma ++ ('}' : UInt8) :: rest)))) := by
        cases before with
        | nil => exact ⟨_, .inl rfl⟩
        | cons next before => exact ⟨_, .inl rfl⟩
      rw [shape, needle, behind_append_of_not_mem (by decide), ← needle,
        behind_text searchable (others first List.mem_cons_self) ahead,
        behind_afterComma searchable (fun other isIn => others other (List.mem_cons_of_mem _ isIn)) here, needle,
        behind_append_of_not_mem noQuote, ← needle, behind_own]
  obtain ⟨behind, ends, isBehind⟩ := found
  refine ⟨behind, ends, ?_⟩
  unfold findValue
  rw [← needle, isBehind]
  exact dropWhile_spaces unspaced _

end BackTester.JsonSimpleDataParser
