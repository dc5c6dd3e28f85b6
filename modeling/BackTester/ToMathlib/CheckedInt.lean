import BackTester.ToMathlib.Decimal
import Mathlib.Tactic.Linarith

/-! # Checked arithmetic

Signed arithmetic in which a result has to fit the width of its type. A computation that comes to a
result has overflowed nowhere.
-/

namespace CheckedInt

/-- The number is a value of the signed type of that many bits. -/
def Fits (bits : ℕ) (n : ℤ) : Prop := -2 ^ (bits - 1) ≤ n ∧ n < 2 ^ (bits - 1)

instance (bits : ℕ) (n : ℤ) : Decidable (Fits bits n) := inferInstanceAs (Decidable (_ ∧ _))

/-- The result of an operation, unless it overflows. -/
def checked (bits : ℕ) (n : ℤ) : Option ℤ := if Fits bits n then some n else none

abbrev int := checked 32

abbrev int64 := checked 64

variable {bits : ℕ} {n : ℤ}

theorem checked_eq_some {m : ℤ} : checked bits n = some m ↔ Fits bits n ∧ n = m := by simp [checked]

/-- A computation that comes to a result has not overflowed in its first operation. -/
theorem checked_bind_eq_some {α : Type} {f : ℤ → Option α} {a : α} :
    checked bits n >>= f = some a ↔ Fits bits n ∧ f n = some a := by
  simp [checked, Option.bind_eq_some_iff]

theorem bind_of_some {α β : Type} {x : Option α} {f : α → Option β} {a : α} (run : x = some a) : x >>= f = f a := by
  rw [run]
  rfl

theorem checked_of_fits (fits : Fits bits n) : checked bits n = some n := if_pos fits

theorem fits_int : Fits 32 n ↔ -2147483648 ≤ n ∧ n < 2147483648 := by norm_num [Fits]

theorem fits_int64 : Fits 64 n ↔ -9223372036854775808 ≤ n ∧ n < 9223372036854775808 := by norm_num [Fits]

theorem int_eq (low : -2147483648 ≤ n) (high : n < 2147483648) : int n = some n :=
  checked_of_fits (fits_int.mpr ⟨low, high⟩)

theorem int64_eq (low : -9223372036854775808 ≤ n) (high : n < 9223372036854775808) : int64 n = some n :=
  checked_of_fits (fits_int64.mpr ⟨low, high⟩)

theorem int_bind {α : Type} (f : ℤ → Option α) (low : -2147483648 ≤ n) (high : n < 2147483648) : int n >>= f = f n :=
  bind_of_some (int_eq low high)

theorem int64_bind {α : Type} (f : ℤ → Option α) (low : -9223372036854775808 ≤ n) (high : n < 9223372036854775808) :
    int64 n >>= f = f n :=
  bind_of_some (int64_eq low high)

end CheckedInt
