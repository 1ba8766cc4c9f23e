import Mathlib.Data.Nat.Bitwise

set_option relaxedAutoImplicit false
set_option autoImplicit false

/-!
# The bits of a byte

A byte is tested by a shift and a mask of one bit, and changed by a mask that is shifted.

## Main results

* `ByteBits.shiftRight_and_one` — the test.
* `ByteBits.testBit_or_mask`, `ByteBits.testBit_and_not_mask` — setting a bit, and clearing one.
-/

namespace Uvk5.ByteBits

variable {b k : UInt8}

/-- The test of a bit. -/
theorem shiftRight_and_one (hk : k.toNat < 8) :
    decide (b >>> k &&& 1 ≠ 0) = b.toNat.testBit k.toNat := by
  have hzero : b >>> k &&& 1 = 0 ↔ 1 &&& b.toNat >>> k.toNat = 0 := by
    rw [← UInt8.toNat_inj, UInt8.toNat_and, UInt8.toNat_shiftRight, Nat.mod_eq_of_lt hk,
      Nat.and_comm]
    rfl
  rw [Nat.testBit, bne, Bool.eq_iff_iff, decide_eq_true_iff, Ne, hzero]
  simp

/-- The mask of a bit. -/
lemma toNat_mask (hk : k.toNat < 8) : ((1 : UInt8) <<< k).toNat = 2 ^ k.toNat := by
  rw [UInt8.toNat_shiftLeft, Nat.mod_eq_of_lt hk, UInt8.toNat_one, Nat.one_shiftLeft]
  exact Nat.mod_eq_of_lt (Nat.pow_lt_pow_right (by decide) hk)

/-- A bit is set. -/
theorem testBit_or_mask (hk : k.toNat < 8) (i : ℕ) :
    (b ||| (1 : UInt8) <<< k).toNat.testBit i = (b.toNat.testBit i || decide (k.toNat = i)) := by
  rw [UInt8.toNat_or, Nat.testBit_or, toNat_mask hk, Nat.testBit_two_pow]

/-- A bit is cleared. -/
theorem testBit_and_not_mask (hk : k.toNat < 8) {i : ℕ} (hi : i < 8) :
    (b &&& ~~~((1 : UInt8) <<< k)).toNat.testBit i =
      (b.toNat.testBit i && decide (k.toNat ≠ i)) := by
  have hmask : ((1 : UInt8) <<< k).toNat < 2 ^ 8 := UInt8.toNat_lt _
  have hnot : (~~~((1 : UInt8) <<< k)).toNat = 2 ^ 8 - (((1 : UInt8) <<< k).toNat + 1) := by
    rw [UInt8.toNat_not, UInt8.size]
    omega
  rw [UInt8.toNat_and, Nat.testBit_and, hnot, Nat.testBit_two_pow_sub_succ hmask, toNat_mask hk,
    Nat.testBit_two_pow]
  simp [hi]

end Uvk5.ByteBits
