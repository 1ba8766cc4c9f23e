import Mathlib.Data.Nat.Notation
import Mathlib.Logic.Basic

set_option relaxedAutoImplicit false
set_option autoImplicit false

/-!
# The bits of a word

A word of 32 bits is tested and changed by masks of one bit.

## Main definitions

* `WordBits.bit`, `WordBits.mask` — a bit, and its mask.

## Main results

* `WordBits.and_mask_ne_zero_iff` — the test.
* `WordBits.bit_or_mask`, `WordBits.bit_and_not_mask` — setting a bit, and clearing one.
* `WordBits.bit_and`, `WordBits.bit_or`, `WordBits.bit_xor`, `WordBits.bit_not` — the operations,
  bit by bit.
-/

namespace Uvk5.WordBits

variable {w : UInt32} {i : ℕ}

/-- A bit of a word. -/
def bit (w : UInt32) (i : ℕ) : Bool := w.toBitVec.getLsbD i

/-- The mask of a bit. -/
def mask (i : ℕ) : UInt32 := (1 : UInt32) <<< UInt32.ofNat i

/-- A mask is a power of two. -/
lemma toBitVec_mask (hi : i < 32) : (mask i).toBitVec = BitVec.twoPow 32 i := by
  have hmod : (UInt32.ofNat i).toNat = i := UInt32.toNat_ofNat_of_lt' (Nat.lt_trans hi (by decide))
  rw [mask, UInt32.toBitVec_shiftLeft, BitVec.shiftLeft_eq', BitVec.twoPow, BitVec.toNat_umod]
  change 1#32 <<< ((UInt32.ofNat i).toNat % 32) = _
  rw [hmod, Nat.mod_eq_of_lt hi]

/-- A mask has the bit it is for, and no other. -/
lemma bit_mask (hi : i < 32) (j : ℕ) : bit (mask i) j = decide (i = j) := by
  rw [bit, toBitVec_mask hi, BitVec.getLsbD_twoPow, decide_eq_true hi, Bool.true_and]

/-- The test of a bit. -/
theorem and_mask_ne_zero_iff (hi : i < 32) : w &&& mask i ≠ 0 ↔ bit w i = true := by
  have hmask : BitVec.twoPow 32 i ≠ 0#32 := by
    intro hzero
    have hset := BitVec.getLsbD_twoPow (w := 32) i i
    rw [hzero, BitVec.getLsbD_zero, decide_eq_true hi] at hset
    simp at hset
  rw [ne_eq, ← UInt32.toBitVec_inj, UInt32.toBitVec_and, toBitVec_mask hi, BitVec.and_twoPow, bit]
  cases w.toBitVec.getLsbD i with
  | true => exact iff_of_true hmask rfl
  | false => exact iff_of_false (not_not.mpr rfl) nofun

/-- Zero has no bits. -/
lemma bit_zero (i : ℕ) : bit 0 i = false := BitVec.getLsbD_zero

section Operations

variable (v w : UInt32) (i : ℕ)

/-- The bits of both. -/
lemma bit_and : bit (v &&& w) i = (bit v i && bit w i) := by
  rw [bit, UInt32.toBitVec_and, BitVec.getLsbD_and]
  rfl

/-- The bits of either. -/
lemma bit_or : bit (v ||| w) i = (bit v i || bit w i) := by
  rw [bit, UInt32.toBitVec_or, BitVec.getLsbD_or]
  rfl

/-- The bits of one but not of both. -/
lemma bit_xor : bit (v ^^^ w) i = (bit v i ^^ bit w i) := by
  rw [bit, UInt32.toBitVec_xor, BitVec.getLsbD_xor]
  rfl

/-- The bits that are not there. -/
lemma bit_not {i : ℕ} (hi : i < 32) : bit (~~~w) i = !bit w i := by
  rw [bit, UInt32.toBitVec_not, BitVec.getLsbD_not, decide_eq_true hi, Bool.true_and]
  rfl

end Operations

/-- A bit is set. -/
theorem bit_or_mask (hi : i < 32) (j : ℕ) :
    bit (w ||| mask i) j = (bit w j || decide (i = j)) := by
  rw [bit_or, bit_mask hi]

/-- A bit is cleared. -/
theorem bit_and_not_mask (hi : i < 32) {j : ℕ} (hj : j < 32) :
    bit (w &&& ~~~mask i) j = (bit w j && decide (i ≠ j)) := by
  rw [bit_and, bit_not _ hj, bit_mask hi, decide_not]

end Uvk5.WordBits
