import BackTester.Abstract.MboRecord

/-! # The text of a record

What a value is followed by, and which characters a record has: it is one line, with no control
characters but those of its symbol.
-/

namespace BackTester.MboRecord

open Decimal

/-- What follows a value: a comma or the end of the object. -/
def Ends (rest : List UInt8) : Prop := ∃ more, rest = (',' : UInt8) :: more ∨ rest = ('}' : UInt8) :: more

theorem Ends.test {rest : List UInt8} (ends : Ends rest) {test : UInt8 → Bool}
    (comma : test ',' = false) (brace : test '}' = false)
    (c : UInt8) (isHead : rest.head? = some c) : test c = false := by
  obtain ⟨more, rfl | rfl⟩ := ends
  · rwa [← Option.some.inj isHead]
  · rwa [← Option.some.inj isHead]

/-- What is behind the first brace of an object. -/
def interior : List Member → List UInt8
  | [] => [('}' : UInt8)]
  | first :: others => first.text ++ others.flatMap Member.afterComma ++ [('}' : UInt8)]

theorem object_eq (members : List Member) : object members = ('{' : UInt8) :: interior members := by
  cases members <;> rfl

theorem ends_afterComma (members : List Member) (rest : List UInt8) :
    Ends (members.flatMap Member.afterComma ++ ('}' : UInt8) :: rest) := by
  cases members with
  | nil => exact ⟨_, .inr rfl⟩
  | cons next others => exact ⟨_, .inl rfl⟩

theorem text_append (member : Member) (rest : List UInt8) : member.text ++ rest =
    ('"' : UInt8) ::
    (member.key ++ ('"' : UInt8) :: ((':' : UInt8) :: spaces member.colonSpaces ++ (member.value ++ rest))) := by
  simp [Member.text, quoted]

theorem isDigit_digit {d : ℕ} (small : d < 10) : isDigit (digit d) = true := by
  interval_cases d <;> rfl

theorem isDigit_text {n : ℕ} {c : UInt8} (isIn : c ∈ text n) : isDigit c = true := by
  obtain ⟨d, small, rfl⟩ := mem_text isIn
  exact isDigit_digit small

theorem exists_text_eq_cons (n : ℕ) : ∃ d others, d < 10 ∧ text n = digit d :: others := by
  obtain ⟨c, others, isText⟩ := List.exists_cons_of_ne_nil (text_ne_nil n)
  obtain ⟨d, small, rfl⟩ := mem_text (isText ▸ List.mem_cons_self : c ∈ text n)
  exact ⟨d, others, small, isText⟩

variable {layout : Layout} {e : MarketDataEvent} {p : UInt8 → Prop} {value : List UInt8}

/-- What numbers, times and prices are written with. -/
def scalarChars : List UInt8 := bytes "0123456789-:.TZ"

theorem scalar_digit {d : ℕ} (small : d < 10) : digit d ∈ scalarChars := by
  interval_cases d <;> decide

theorem scalar_text {n : ℕ} : ∀ c ∈ text n, c ∈ scalarChars := by
  intro c isIn
  obtain ⟨d, small, rfl⟩ := mem_text isIn
  exact scalar_digit small

theorem scalar_padded {width n : ℕ} : ∀ c ∈ padded width n, c ∈ scalarChars := by
  intro c isIn
  obtain ⟨d, small, rfl⟩ := mem_padded isIn
  exact scalar_digit small

theorem scalar_integer (n : ℤ) : ∀ c ∈ integer n, c ∈ scalarChars := by
  unfold integer
  split
  · exact List.forall_mem_cons.mpr ⟨by decide, scalar_text⟩
  · exact scalar_text

theorem scalar_timestamp (time : NanoTime) : ∀ c ∈ timestamp time, c ∈ scalarChars := by
  have separators : (('-' : UInt8) ∈ scalarChars ∧ ('T' : UInt8) ∈ scalarChars) ∧ (':' : UInt8) ∈ scalarChars ∧
      ('.' : UInt8) ∈ scalarChars ∧ ('Z' : UInt8) ∈ scalarChars := by decide
  simp only [timestamp, momentText, secondText, List.append_assoc, List.cons_append, List.forall_mem_append,
    List.forall_mem_cons, List.not_mem_nil, false_implies, implies_true, and_true, separators, true_and]
  exact ⟨scalar_padded, scalar_padded, scalar_padded, scalar_padded, scalar_padded, scalar_padded, scalar_padded⟩

theorem scalar_priceText (price : ScaledPrice) : ∀ c ∈ priceText price, c ∈ scalarChars := by
  have digits : ∀ c ∈ text (price.natAbs / 1000000000) ++ ('.' : UInt8) :: padded 9 price.natAbs, c ∈ scalarChars :=
    List.forall_mem_append.mpr ⟨scalar_text, List.forall_mem_cons.mpr ⟨by decide, scalar_padded⟩⟩
  unfold priceText
  split
  · exact List.forall_mem_cons.mpr ⟨by decide, digits⟩
  · exact digits

theorem forall_spaces (space : p ' ') (n : ℕ) : ∀ c ∈ spaces n, p c := by
  intro c isIn
  rwa [List.eq_of_mem_replicate isIn]

theorem forall_quoted (quote : p '"') (inside : ∀ c ∈ value, p c) : ∀ c ∈ quoted value, p c := by
  simpa [quoted, or_imp, forall_and, quote] using inside

theorem forall_memberText (marks : ∀ c ∈ bytes "\":, ", p c) {member : Member} (key : ∀ c ∈ member.key, p c)
    (value : ∀ c ∈ member.value, p c) : ∀ c ∈ member.text, p c := by
  have colon : p ':' := marks _ (by decide)
  have spaces := forall_spaces (marks _ (by decide)) member.colonSpaces
  simpa [Member.text, or_imp, forall_and, colon] using ⟨forall_quoted (marks _ (by decide)) key, spaces, value⟩

/-- The characters between the braces of an object. -/
theorem exists_inside (marks : ∀ c ∈ bytes "\":, ", p c) {members : List Member}
    (inside : ∀ member ∈ members, (∀ c ∈ member.key, p c) ∧ ∀ c ∈ member.value, p c) :
    ∃ between, object members = ('{' : UInt8) :: (between ++ [('}' : UInt8)]) ∧ ∀ c ∈ between, p c := by
  cases members with
  | nil => exact ⟨[], rfl, fun c isIn => absurd isIn List.not_mem_nil⟩
  | cons first others =>
    refine ⟨first.text ++ others.flatMap Member.afterComma, rfl, ?_⟩
    have comma : p ',' := marks _ (by decide)
    have texts (member : Member) (isIn : member ∈ first :: others) : ∀ c ∈ member.text, p c :=
      forall_memberText marks (inside member isIn).1 (inside member isIn).2
    have afterComma (member : Member) (isIn : member ∈ others) : ∀ c ∈ member.afterComma, p c := by
      have spaces := forall_spaces (marks _ (by decide)) member.commaSpaces
      simpa [Member.afterComma, or_imp, forall_and, comma] using ⟨spaces, texts member (List.mem_cons_of_mem _ isIn)⟩
    intro c isIn
    rcases List.mem_append.mp isIn with isText | isOther
    · exact texts first List.mem_cons_self c isText
    · obtain ⟨member, isMember, isText⟩ := List.mem_flatMap.mp isOther
      exact afterComma member isMember c isText

theorem forall_object (marks : ∀ c ∈ bytes "\x7b\x7d\":, ", p c) {members : List Member}
    (inside : ∀ member ∈ members, (∀ c ∈ member.key, p c) ∧ ∀ c ∈ member.value, p c) : ∀ c ∈ object members, p c := by
  have separators : ∀ c ∈ bytes "\":, ", c ∈ bytes "\x7b\x7d\":, " := by decide
  obtain ⟨between, isObject, all⟩ := exists_inside (fun c isIn => marks c (separators c isIn)) inside
  have opening : p '{' := marks _ (by decide)
  have closing : p '}' := marks _ (by decide)
  rw [isObject]
  simpa [or_imp, forall_and, opening, closing] using all

/-- The nested object has the characters of its keys and its values. -/
theorem forall_hdMember (keys : ∀ field : HdField, ∀ c ∈ field.key, p c) (quote : p '"')
    (scalars : ∀ c ∈ scalarChars, p c) (e : MarketDataEvent) (place : Place HdField) :
    (∀ c ∈ (hdMember e place).key, p c) ∧ ∀ c ∈ (hdMember e place).value, p c := by
  obtain ⟨field, commaSpaces, colonSpaces⟩ := place
  refine ⟨keys field, ?_⟩
  cases field with
  | rtype | publisherId | instrumentId => exact fun c isIn => scalars c (scalar_text c isIn)
  | tsEvent => exact forall_quoted quote fun c isIn => scalars c (scalar_timestamp e.tsEvent c isIn)

/-- Not a control character. -/
def Printable (c : UInt8) : Prop := 32 ≤ c

instance (c : UInt8) : Decidable (Printable c) := inferInstanceAs (Decidable (_ ≤ _))

/-- A record has no control characters but those of its symbol. -/
theorem printable_line (action : ∀ code, e.action ≠ .unnamed code) (plain : ∀ c, Printable c → p c)
    (symbol : ∀ c ∈ layout.symbol, p c) : ∀ c ∈ line layout e, p c := by
  have all (chars : List UInt8) (printable : ∀ c ∈ chars, Printable c) : ∀ c ∈ chars, p c :=
    fun c isIn => plain c (printable c isIn)
  have marks := all (bytes "\x7b\x7d\":, ") (by decide)
  have quote : p '"' := plain _ (by decide)
  have scalars := all scalarChars (by decide)
  apply forall_object marks
  simp only [List.mem_map, forall_exists_index, and_imp, forall_apply_eq_imp_iff₂]
  rintro ⟨field, commaSpaces, colonSpaces⟩ -
  refine ⟨all field.key (by cases field <;> decide), ?_⟩
  dsimp only [member]
  cases field with
  | hd =>
    apply forall_object marks
    intro member isIn
    obtain ⟨place, -, rfl⟩ := List.mem_map.mp isIn
    exact forall_hdMember (fun field => all field.key (by cases field <;> decide)) quote scalars e place
  | side => exact forall_quoted quote (all _ (by cases e.side <;> cases layout.ask <;> decide))
  | size | flags | sequence | channelId => exact fun c isIn => scalars c (scalar_text c isIn)
  | price =>
    dsimp only [Field.value]
    split
    · exact all (bytes "null") (by decide)
    · exact forall_quoted quote fun c isIn => scalars c (scalar_priceText e.price c isIn)
  | action =>
    apply forall_quoted quote
    cases isAction : e.action with
    | unnamed code => exact absurd isAction (action code)
    | add | modify | cancel | clear | trade | fill | none => exact all _ (by decide)
  | symbol => exact forall_quoted quote symbol
  | tsRecv => exact forall_quoted quote fun c isIn => scalars c (scalar_timestamp e.tsRecv c isIn)
  | orderId => exact forall_quoted quote fun c isIn => scalars c (scalar_text c isIn)
  | tsInDelta => exact fun c isIn => scalars c (scalar_integer e.tsInDelta c isIn)

end BackTester.MboRecord
