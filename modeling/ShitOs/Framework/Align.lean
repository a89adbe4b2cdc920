import Mathlib.Data.BitVec
import Mathlib.Tactic.Common

/-!
# Rounding to a power of two

Rounding down clears the low bits, `x & ~(2 ^ k - 1)`; rounding up first adds `2 ^ k - 1`, in
arithmetic that wraps.  `toNat_and_not_mask` says what the bits mean, and `toNat_round_up` what is
left of rounding up when the sum does not fit.
-/

namespace ShitOs
namespace Align

variable {w k : ℕ} {x m : BitVec w}

lemma toNat_and_not_mask (hm : m.toNat = 2 ^ k - 1) :
    (x &&& ~~~m).toNat = x.toNat / 2 ^ k * 2 ^ k := by
  refine Nat.eq_of_testBit_eq fun i => ?_
  have hmask : m.getLsbD i = decide (i < k) := by
    rw [BitVec.getLsbD, hm, Nat.testBit_two_pow_sub_one]
  rw [BitVec.testBit_toNat, BitVec.getLsbD_and, BitVec.getLsbD_not, hmask, Nat.testBit_mul_two_pow,
    Nat.testBit_div_two_pow, BitVec.testBit_toNat]
  by_cases hik : i < k
  · simp [hik, Nat.not_le.mpr hik]
  · have hki : k ≤ i := Nat.le_of_not_lt hik
    rw [Nat.sub_add_cancel hki]
    by_cases hiw : i < w
    · simp [hik, hki, hiw]
    · simp [hki, BitVec.getLsbD_of_ge x i (Nat.le_of_not_lt hiw)]

lemma toNat_round_up (hm : m.toNat = 2 ^ k - 1) :
    ((x + m) &&& ~~~m).toNat = (x.toNat + (2 ^ k - 1)) % 2 ^ w / 2 ^ k * 2 ^ k := by
  rw [toNat_and_not_mask hm, BitVec.toNat_add, hm]

end Align
end ShitOs
