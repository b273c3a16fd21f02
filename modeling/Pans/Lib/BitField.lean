import Mathlib.Algebra.Ring.Nat
import Mathlib.Data.Nat.Bits

/-!
# Bit fields

Masks, shifts and disjunctions of machine words as remainders, quotients and sums.
-/

namespace BitField

theorem or_eq_add {high low : Nat} (k : Nat) (hh : 2 ^ k ∣ high) (hl : low < 2 ^ k) :
    high ||| low = high + low := by
  obtain ⟨a, rfl⟩ := hh
  exact (Nat.two_pow_add_eq_or_of_lt hl a).symm

theorem and_mask (x k : Nat) : x &&& (2 ^ k - 1) = x % 2 ^ k :=
  Nat.and_two_pow_sub_one_eq_mod x k

theorem and_field (x j k : Nat) : x &&& ((2 ^ j - 1) <<< k) = x / 2 ^ k % 2 ^ j * 2 ^ k := by
  rw [← Nat.shiftRight_eq_div_pow, ← and_mask, ← Nat.shiftLeft_eq]
  apply Nat.eq_of_testBit_eq
  intro i
  by_cases h : k ≤ i
  · simp [Nat.testBit_shiftLeft, Nat.testBit_shiftRight, h, Bool.and_comm]
  · simp [Nat.testBit_shiftLeft, h]

end BitField
