import Mathlib.Algebra.Group.Nat.Defs
import Mathlib.Algebra.Order.Group.Nat
import Mathlib.Data.Nat.Bitwise

namespace Hamachi

/-!
# Rounding by masks

Clearing the low bits of a number rounds it down to a multiple of a power of
two; setting them takes it to the end of the block it lies in.
-/

/-- Masking off the low `shift` bits rounds down. -/
theorem and_high_mask
    {number width shift : Nat}
    (narrow : shift ≤ width)
    (small : number < 2 ^ width) :
    number &&& (2 ^ width - 2 ^ shift) = number / 2 ^ shift * 2 ^ shift := by
  have mask :
      2 ^ width - 2 ^ shift = 2 ^ shift * (2 ^ (width - shift) - 1) := by
    rw [Nat.mul_sub, ← Nat.pow_add, Nat.add_sub_cancel' narrow, Nat.mul_one]
  apply Nat.eq_of_testBit_eq
  intro bit
  rw [Nat.testBit_and, mask, Nat.testBit_two_pow_mul,
    Nat.testBit_mul_two_pow, Nat.testBit_two_pow_sub_one,
    Nat.testBit_div_two_pow]
  by_cases high : shift ≤ bit
  · by_cases inside : bit < width
    · simp [high, Nat.sub_add_cancel high,
        show bit - shift < width - shift by omega]
    · have clear : number.testBit bit = false :=
        Nat.testBit_lt_two_pow
          (small.trans_le (Nat.pow_le_pow_right (by omega) (by omega)))
      simp [high, Nat.sub_add_cancel high, clear]
  · simp [high]

/-- Setting the low `shift` bits goes to the last number of the block. -/
theorem or_low_mask (number shift : Nat) :
    number ||| (2 ^ shift - 1) =
      number / 2 ^ shift * 2 ^ shift + (2 ^ shift - 1) := by
  have low : 2 ^ shift - 1 < 2 ^ shift :=
    Nat.sub_lt (Nat.two_pow_pos shift) Nat.zero_lt_one
  apply Nat.eq_of_testBit_eq
  intro bit
  rw [Nat.mul_comm, Nat.testBit_two_pow_mul_add _ low, Nat.testBit_or,
    Nat.testBit_two_pow_sub_one, Nat.testBit_div_two_pow]
  split
  next below =>
    simp [below]
  next above =>
    have high : shift ≤ bit := by
      omega
    simp [above, Nat.sub_add_cancel high]

end Hamachi
