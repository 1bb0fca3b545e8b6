import Mathlib

/-!
# Bit fields of natural numbers

A word that packs fields is `2 ^ m * high + low` with `low < 2 ^ m`.  These lemmas
say what the bitwise operations with masks of `m` ones, and with the single bit
`2 ^ m`, do to such a word.
-/

namespace BitFields

variable {m high low x : ℕ}

/-- Setting the `m` low bits. -/
theorem or_mask (hlow : low < 2 ^ m) :
    (2 ^ m * high + low) ||| (2 ^ m - 1) = 2 ^ m * high + (2 ^ m - 1) := by
  have hpos : 0 < 2 ^ m := Nat.two_pow_pos m
  apply Nat.eq_of_testBit_eq
  intro i
  rw [Nat.testBit_or, Nat.testBit_two_pow_mul_add high hlow, Nat.testBit_two_pow_sub_one,
    Nat.testBit_two_pow_mul_add high (by omega), Nat.testBit_two_pow_sub_one]
  by_cases hi : i < m <;> simp [hi]

/-- Reading the `m` low bits. -/
theorem and_mask (hlow : low < 2 ^ m) : (2 ^ m * high + low) &&& (2 ^ m - 1) = low := by
  rw [Nat.and_two_pow_sub_one_eq_mod, Nat.mul_add_mod, Nat.mod_eq_of_lt hlow]

/-- Flipping low bits leaves the high ones alone. -/
theorem xor_low (hlow : low < 2 ^ m) (hx : x < 2 ^ m) :
    (2 ^ m * high + low) ^^^ x = 2 ^ m * high + (low ^^^ x) := by
  apply Nat.eq_of_testBit_eq
  intro i
  rw [Nat.testBit_xor, Nat.testBit_two_pow_mul_add high hlow,
    Nat.testBit_two_pow_mul_add high (Nat.xor_lt_two_pow hlow hx), Nat.testBit_xor]
  by_cases hi : i < m
  · simp [hi]
  · have hbit : x.testBit i = false := by
      apply Nat.testBit_eq_false_of_lt
      exact lt_of_lt_of_le hx (Nat.pow_le_pow_right (by decide) (by omega))
    simp [hi, hbit]

/-- Flipping bits of a mask of `m` ones clears them. -/
theorem mask_xor (hx : x < 2 ^ m) : (2 ^ m - 1) ^^^ x = 2 ^ m - 1 - x := by
  have hsub : 2 ^ m - 1 - x = 2 ^ m - (x + 1) := by omega
  apply Nat.eq_of_testBit_eq
  intro i
  rw [Nat.testBit_xor, Nat.testBit_two_pow_sub_one, hsub, Nat.testBit_two_pow_sub_succ hx]
  by_cases hi : i < m
  · simp [hi]
  · have hbit : x.testBit i = false := by
      apply Nat.testBit_eq_false_of_lt
      exact lt_of_lt_of_le hx (Nat.pow_le_pow_right (by decide) (by omega))
    simp [hi, hbit]

/-- Setting a bit that is set already. -/
theorem or_bit (hlow : low < 2 ^ m) :
    (2 ^ m * (2 * high + 1) + low) ||| 2 ^ m = 2 ^ m * (2 * high + 1) + low := by
  apply Nat.eq_of_testBit_eq
  intro i
  rw [Nat.testBit_or, Nat.testBit_two_pow_mul_add _ hlow]
  rcases lt_trichotomy i m with hi | hi | hi
  · simp [hi, Nat.ne_of_gt hi]
  · subst hi
    simp
  · simp [not_lt.mpr hi.le, Nat.ne_of_lt hi]

/-- Reading a bit that is clear. -/
theorem and_bit_eq_zero (hlow : low < 2 ^ m) : (2 ^ m * (2 * high) + low) &&& 2 ^ m = 0 := by
  rw [Nat.and_two_pow, Nat.testBit_two_pow_mul_add _ hlow]
  simp

end BitFields
