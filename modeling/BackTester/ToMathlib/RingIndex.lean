import Mathlib.Data.UInt
import Mathlib.Data.ZMod.Basic
import Mathlib.Tactic.Ring

/-! # Masked ring indices

A ring buffer whose size is a power of two keeps a position, which counts up without bound, as a 64-bit index masked to
the low bits. Masking is reduction modulo the size, and the arithmetic of 64-bit words commutes with it: so sums and
differences of indices stand for sums and differences of positions, wrap-around included.
-/

/-- A number of slots that a mask of a 64-bit word can reduce by. -/
structure RingCapacity where
  exponent : ℕ
  positive : 1 ≤ exponent
  fits : exponent < 64

namespace RingCapacity

variable (capacity : RingCapacity) {x y : UInt64} {m n : ℕ}

def size : ℕ := 2 ^ capacity.exponent
def word : UInt64 := .ofNat capacity.size
def mask : UInt64 := capacity.word - 1

/-- The slot of a position. -/
def slot (position : ℕ) : UInt64 := .ofNat (position % capacity.size)

theorem two_le_size : 2 ≤ capacity.size :=
  Nat.pow_le_pow_right Nat.two_pos capacity.positive

theorem size_pos : 0 < capacity.size := by
  have := capacity.two_le_size
  omega

theorem size_dvd : capacity.size ∣ 2 ^ 64 :=
  Nat.pow_dvd_pow 2 capacity.fits.le

theorem size_lt : capacity.size < 2 ^ 64 :=
  Nat.pow_lt_pow_right (by decide) capacity.fits

theorem toNat_word : capacity.word.toNat = capacity.size :=
  UInt64.toNat_ofNat_of_lt' capacity.size_lt

theorem toNat_mask : capacity.mask.toNat = capacity.size - 1 := by
  have := capacity.size_pos
  have := capacity.size_lt
  rw [mask, UInt64.toNat_sub, toNat_word]
  change (2 ^ 64 - 1 + capacity.size) % 2 ^ 64 = _
  omega

theorem toNat_masked (x : UInt64) : (x &&& capacity.mask).toNat = x.toNat % capacity.size := by
  rw [UInt64.toNat_and, toNat_mask]
  exact Nat.and_two_pow_sub_one_eq_mod x.toNat capacity.exponent

theorem toNat_slot (n : ℕ) : (capacity.slot n).toNat = n % capacity.size := by
  apply UInt64.toNat_ofNat_of_lt'
  exact (Nat.mod_lt n capacity.size_pos).trans capacity.size_lt

/-- What a word is modulo the size: this is what masking keeps of it. -/
def residue (x : UInt64) : ZMod capacity.size := x.toNat

theorem residue_reduced (n : ℕ) : ((n % 2 ^ 64 : ℕ) : ZMod capacity.size) = n := by
  rw [ZMod.natCast_eq_natCast_iff']
  exact Nat.mod_mod_of_dvd n capacity.size_dvd

@[simp] theorem residue_ofNat (n : ℕ) : capacity.residue (.ofNat n) = n :=
  capacity.residue_reduced n

@[simp] theorem residue_one : capacity.residue 1 = 1 := by
  rw [residue, UInt64.toNat_one, Nat.cast_one]

@[simp] theorem residue_word : capacity.residue capacity.word = 0 := by
  rw [residue, toNat_word, ZMod.natCast_self]

@[simp] theorem residue_slot (n : ℕ) : capacity.residue (capacity.slot n) = n := by
  rw [residue, toNat_slot, ZMod.natCast_mod]

@[simp] theorem residue_add (x y : UInt64) : capacity.residue (x + y) = capacity.residue x + capacity.residue y := by
  rw [residue, UInt64.toNat_add, residue_reduced, Nat.cast_add, residue, residue]

@[simp] theorem residue_sub (x y : UInt64) : capacity.residue (x - y) = capacity.residue x - capacity.residue y := by
  have whole : ((2 ^ 64 : ℕ) : ZMod capacity.size) = 0 := (ZMod.natCast_eq_zero_iff _ _).mpr capacity.size_dvd
  rw [residue, UInt64.toNat_sub, residue_reduced, Nat.cast_add, Nat.cast_sub (UInt64.toNat_lt y).le,
    whole, residue, residue]
  ring

/-- A masked word is the slot of every position it is congruent to. -/
theorem masked_eq_slot (congruent : capacity.residue x = n) : x &&& capacity.mask = capacity.slot n := by
  rw [← UInt64.toNat_inj, toNat_masked, toNat_slot]
  exact (ZMod.natCast_eq_natCast_iff' x.toNat n capacity.size).mp congruent

theorem next_slot (n : ℕ) : (capacity.slot n + 1) &&& capacity.mask = capacity.slot (n + 1) := by
  apply masked_eq_slot
  simp

theorem slot_advance (n more : ℕ) : (capacity.slot n + .ofNat more) &&& capacity.mask = capacity.slot (n + more) := by
  apply masked_eq_slot
  simp

/-- The slots left between a reader at `m` and a writer at `n`, with one kept free. -/
theorem slot_room (room : n < m + capacity.size) :
    (capacity.slot m - capacity.slot n - 1 + capacity.word) &&& capacity.mask =
      capacity.slot (m + (capacity.size - 1) - n) := by
  apply masked_eq_slot
  have one : 1 ≤ capacity.size := capacity.size_pos
  have fits : n ≤ m + (capacity.size - 1) := by omega
  rw [Nat.cast_sub fits, Nat.cast_add, Nat.cast_sub one, ZMod.natCast_self]
  simp
  ring

theorem toNat_slot_of_lt (lt : n < capacity.size) : (capacity.slot n).toNat = n := by
  rw [toNat_slot, Nat.mod_eq_of_lt lt]

/-- Two positions less than the size apart share a slot only if they are one. -/
theorem slot_eq_iff (le : m ≤ n) (near : n < m + capacity.size) : capacity.slot m = capacity.slot n ↔ m = n := by
  rw [← UInt64.toNat_inj, toNat_slot, toNat_slot]
  constructor
  · intro same
    obtain ⟨laps, far⟩ := (Nat.modEq_iff_dvd' le).mp same
    have once : laps = 0 := by
      by_contra nonzero
      have : capacity.size * 1 ≤ capacity.size * laps := Nat.mul_le_mul_left _ (Nat.one_le_iff_ne_zero.mpr nonzero)
      omega
    rw [once] at far
    omega
  · rintro rfl
    rfl

end RingCapacity
