import Mathlib.Data.List.Induction
import Mathlib.Data.Nat.Digits.Defs
import Mathlib.Tactic.Cases

/-! # Decimal numerals

The decimal digits of a number, the first one first, as many as it has or a fixed number of them,
and their ASCII text. A program that reads such a text digit by digit computes the number, in
whatever type it computes, if that type keeps up with `v * 10 + d`.
-/

namespace Decimal

/-- The digits that a number is written with. -/
def digits (n : ℕ) : List ℕ := if n = 0 then [0] else (Nat.digits 10 n).reverse

/-- The last `width` digits. -/
def fixed : ℕ → ℕ → List ℕ
  | 0, _ => []
  | width + 1, n => fixed width (n / 10) ++ [n % 10]

def value (digits : List ℕ) : ℕ := digits.foldl (fun v d => v * 10 + d) 0

theorem value_digits (n : ℕ) : value (digits n) = n := by
  unfold value digits
  split
  · next zero =>
    rw [zero]
    rfl
  · rw [List.foldl_reverse]
    have folded := Nat.ofDigits_eq_foldr 10 (Nat.digits 10 n)
    rw [Nat.ofDigits_digits] at folded
    calc
      _ = List.foldr (fun x y => x + 10 * y) 0 (Nat.digits 10 n) := by
        congr 1
        funext x y
        omega
      _ = n := folded.symm

theorem value_fixed (width n : ℕ) : value (fixed width n) = n % 10 ^ width := by
  induction width generalizing n with
  | zero => rw [pow_zero, Nat.mod_one]; rfl
  | succ width ih =>
    unfold value at ih ⊢
    rw [fixed, List.foldl_append, ih, List.foldl_cons, List.foldl_nil, pow_succ', Nat.mod_mul]
    omega

theorem value_append_singleton (ds : List ℕ) (d : ℕ) : value (ds ++ [d]) = value ds * 10 + d := by
  unfold value
  rw [List.foldl_append]
  rfl

/-- A zero behind the digits is a factor of ten. -/
theorem value_append_zeros (ds : List ℕ) (n : ℕ) : value (ds ++ List.replicate n 0) = value ds * 10 ^ n := by
  induction n with
  | zero => simp
  | succ n ih =>
    rw [List.replicate_succ', ← List.append_assoc, value_append_singleton, ih, pow_succ, Nat.add_zero, Nat.mul_assoc]

theorem value_lt {ds : List ℕ} (areDigits : ∀ d ∈ ds, d < 10) : value ds < 10 ^ ds.length := by
  induction ds using List.reverseRecOn with
  | nil => exact Nat.one_pos
  | append_singleton ds d ih =>
    have before := ih fun d isIn => areDigits d (List.mem_append_left _ isIn)
    have last := areDigits d (by simp)
    rw [value_append_singleton, List.length_append, List.length_singleton, pow_succ]
    omega

theorem le_foldl_digits (ds : List ℕ) (v : ℕ) : v ≤ ds.foldl (fun v d => v * 10 + d) v := by
  induction ds generalizing v with
  | nil => exact le_refl v
  | cons d ds ih => exact le_trans (by omega) (ih (v * 10 + d))

theorem length_fixed (width n : ℕ) : (fixed width n).length = width := by
  induction width generalizing n with
  | zero => rfl
  | succ width ih => rw [fixed, List.length_append, ih]; rfl

theorem digits_ne_nil (n : ℕ) : digits n ≠ [] := by
  unfold digits
  split
  · exact List.cons_ne_nil _ _
  · next nonzero =>
    rw [ne_eq, List.reverse_eq_nil_iff]
    exact Nat.digits_ne_nil_iff_ne_zero.mpr nonzero

theorem digits_lt {n d : ℕ} (isIn : d ∈ digits n) : d < 10 := by
  unfold digits at isIn
  split at isIn
  · rw [List.mem_singleton.mp isIn]
    omega
  · exact Nat.digits_lt_base (by omega) (List.mem_reverse.mp isIn)

theorem fixed_lt {width n d : ℕ} (isIn : d ∈ fixed width n) : d < 10 := by
  induction width generalizing n with
  | zero => cases isIn
  | succ width ih =>
    rcases List.mem_append.mp isIn with before | last
    · exact ih before
    · rw [List.mem_singleton.mp last]
      omega

/-- The character of a digit. -/
def digit (d : ℕ) : UInt8 := .ofNat (48 + d)

theorem toNat_digit {d : ℕ} (isDigit : d < 10) : (digit d).toNat = 48 + d := by
  unfold digit
  rw [UInt8.toNat_ofNat']
  omega

def text (n : ℕ) : List UInt8 := (digits n).map digit

def padded (width n : ℕ) : List UInt8 := (fixed width n).map digit

theorem length_padded (width n : ℕ) : (padded width n).length = width := by
  rw [padded, List.length_map, length_fixed]

theorem padded_two (n : ℕ) : padded 2 n = [digit (n / 10 % 10), digit (n % 10)] := rfl

theorem padded_four (n : ℕ) :
    padded 4 n = [digit (n / 10 / 10 / 10 % 10), digit (n / 10 / 10 % 10), digit (n / 10 % 10), digit (n % 10)] := rfl

theorem text_ne_nil (n : ℕ) : text n ≠ [] := by
  unfold text
  rw [ne_eq, List.map_eq_nil_iff]
  exact digits_ne_nil n

theorem mem_text {n : ℕ} {c : UInt8} (isIn : c ∈ text n) : ∃ d < 10, digit d = c := by
  obtain ⟨d, isDigit, rfl⟩ := List.mem_map.mp isIn
  exact ⟨d, digits_lt isDigit, rfl⟩

theorem mem_padded {width n : ℕ} {c : UInt8} (isIn : c ∈ padded width n) : ∃ d < 10, digit d = c := by
  obtain ⟨d, isDigit, rfl⟩ := List.mem_map.mp isIn
  exact ⟨d, fixed_lt isDigit, rfl⟩

/-- Reading digit by digit in a type that keeps up with it. -/
theorem foldl_map_digit {R : Type*} (cast : ℕ → R) (append : R → UInt8 → R)
    (keepsUp : ∀ v d, d < 10 → append (cast v) (digit d) = cast (v * 10 + d)) (ds : List ℕ)
    (areDigits : ∀ d ∈ ds, d < 10)
    (v : ℕ) : (ds.map digit).foldl append (cast v) = cast (ds.foldl (fun v d => v * 10 + d) v) := by
  induction ds generalizing v with
  | nil => rfl
  | cons d ds ih =>
    rw [List.map_cons, List.foldl_cons, List.foldl_cons, keepsUp v d (areDigits d List.mem_cons_self)]
    exact ih (fun d isIn => areDigits d (List.mem_cons_of_mem _ isIn)) _

theorem foldl_text {R : Type*} (cast : ℕ → R) (append : R → UInt8 → R)
    (keepsUp : ∀ v d, d < 10 → append (cast v) (digit d) = cast (v * 10 + d)) (n : ℕ) :
    (text n).foldl append (cast 0) = cast n := by
  unfold text
  rw [foldl_map_digit cast append keepsUp _ fun _ => digits_lt]
  exact congrArg cast (value_digits n)

theorem foldl_padded {R : Type*} (cast : ℕ → R) (append : R → UInt8 → R)
    (keepsUp : ∀ v d, d < 10 → append (cast v) (digit d) = cast (v * 10 + d)) (width n : ℕ) :
    (padded width n).foldl append (cast 0) = cast (n % 10 ^ width) := by
  unfold padded
  rw [foldl_map_digit cast append keepsUp _ fun _ => fixed_lt]
  exact congrArg cast (value_fixed width n)

end Decimal
