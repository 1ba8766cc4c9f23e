import Mathlib.Data.Nat.Bitwise
import Mathlib.Tactic.Ring

set_option relaxedAutoImplicit false
set_option autoImplicit false

/-!
# Shift registers, most significant bit first

Words go over a serial line most significant bit first. `ShiftRegister.msbBits` is the bit
sequence of a word; shifting it into a register gives the word back, and shifting a register
out presents it.

## Main definitions

* `ShiftRegister.msbBits` — the low `n` bits of a number, most significant first.

## Main results

* `ShiftRegister.toNat_foldl_shiftIn` — a 32-bit shift register collects a word.
* `ShiftRegister.msb_eq_testBit`, `ShiftRegister.testBit_shiftLeft_one` — a 16-bit shift
  register presents its top bit and moves the next one up.
-/

namespace Uvk5.ShiftRegister

/-- The low `n` bits of `v`, most significant first. -/
def msbBits : ℕ → ℕ → List Bool
  | 0, _ => []
  | n + 1, v => v.testBit n :: msbBits n v

/-- There are `n` bits. -/
@[simp] theorem length_msbBits (n v : ℕ) : (msbBits n v).length = n := by
  induction n with
  | zero => rfl
  | succ n ih => rw [msbBits, List.length_cons, ih]

/-- One bit into a 32-bit shift register. -/
def shiftIn (a : UInt32) (b : Bool) : UInt32 := (a <<< 1) ||| (if b then 1 else 0)

/-- Shifting in doubles the register and adds the bit, while the top bit is clear. -/
theorem toNat_shiftIn {a : UInt32} (h : a.toNat < 2 ^ 31) (b : Bool) :
    (shiftIn a b).toNat = 2 * a.toNat + b.toNat := by
  have h1 : (1 : UInt32).toNat % 32 = 1 := rfl
  have hb : (if b then 1 else 0 : UInt32).toNat = b.toNat := by cases b <;> rfl
  have hlt : b.toNat < 2 ^ 1 := by cases b <;> decide
  rw [shiftIn, UInt32.toNat_or, UInt32.toNat_shiftLeft, h1, hb,
    Nat.mod_eq_of_lt (by rw [Nat.shiftLeft_eq]; omega), ← Nat.shiftLeft_add_eq_or_of_lt hlt,
    Nat.shiftLeft_eq]
  ring

/-- The low `n + 1` bits are bit `n` and the low `n` bits. -/
theorem mod_two_pow_succ (v n : ℕ) : v % 2 ^ (n + 1) = (v.testBit n).toNat * 2 ^ n + v % 2 ^ n := by
  rw [Nat.pow_succ, Nat.mod_mul, Nat.testBit_eq_decide_div_mod_eq]
  have hbit : v / 2 ^ n % 2 = (decide (v / 2 ^ n % 2 = 1)).toNat := by
    rcases Nat.mod_two_eq_zero_or_one (v / 2 ^ n) with h | h <;> simp [h]
  rw [← hbit]
  ring

/-- **A shift register collects a word**: shifting `n` bits of `v` into a register that holds
fewer than `2 ^ k` leaves room for them as long as `k + n ≤ 32`. -/
theorem toNat_foldl_shiftIn (n v : ℕ) : ∀ (k : ℕ) (a : UInt32), a.toNat < 2 ^ k → k + n ≤ 32 →
    ((msbBits n v).foldl shiftIn a).toNat = a.toNat * 2 ^ n + v % 2 ^ n := by
  induction n with
  | zero => intro k a _ _; simp [msbBits, Nat.mod_one]
  | succ n ih =>
    intro k a ha hk
    have hroom : a.toNat < 2 ^ 31 := lt_of_lt_of_le ha (Nat.pow_le_pow_right (by omega) (by omega))
    have hstep := toNat_shiftIn hroom (v.testBit n)
    have hb := Bool.toNat_le (v.testBit n)
    have hnext : (shiftIn a (v.testBit n)).toNat < 2 ^ (k + 1) := by
      rw [hstep, Nat.pow_succ]; omega
    rw [msbBits, List.foldl_cons, ih (k + 1) _ hnext (by omega), hstep, mod_two_pow_succ]
    ring

/-- The bits of a word are those of its half and its lowest bit. -/
theorem msbBits_succ_eq (n v : ℕ) : msbBits (n + 1) v = msbBits n (v / 2) ++ [v.testBit 0] := by
  induction n with
  | zero => rfl
  | succ n ih =>
    rw [msbBits, ih, msbBits, List.cons_append, Nat.testBit_succ]

/-- The register with the last bit of a word shifted in on its own. -/
theorem toNat_shiftIn_last {n v : ℕ} (hn : n + 1 ≤ 32) (hv : v < 2 ^ (n + 1)) :
    (shiftIn ((msbBits n (v / 2)).foldl shiftIn 0) (v.testBit 0)).toNat = v := by
  have hfold := toNat_foldl_shiftIn (n + 1) v 0 0 (by decide) (by omega)
  rw [msbBits_succ_eq, List.foldl_append, List.foldl_cons, List.foldl_nil,
    Nat.mod_eq_of_lt hv] at hfold
  simpa using hfold

/-- The line a 16-bit shift register drives: its top bit. -/
def msb (w : UInt16) : Bool := w &&& 0x8000 != 0

/-- The top bit. -/
theorem msb_eq_testBit (w : UInt16) : msb w = w.toNat.testBit 15 := by
  have hmask : (0x8000 : UInt16).toNat = 2 ^ 15 := rfl
  have hz : (w &&& 0x8000 = 0) ↔ w.toNat &&& 2 ^ 15 = 0 := by
    rw [← UInt16.toNat_inj, UInt16.toNat_and, hmask]
    rfl
  have hand : w.toNat &&& 2 ^ 15 = (w.toNat.testBit 15).toNat * 2 ^ 15 := Nat.and_two_pow _ _
  rw [hand] at hz
  rw [msb, bne, Bool.not_eq_eq_eq_not, Bool.eq_iff_iff, beq_iff_eq, hz]
  cases w.toNat.testBit 15 <;> simp

/-- Shifting out moves every bit one place up. -/
theorem testBit_shiftLeft_one (w : UInt16) {i : ℕ} (hi : i + 1 < 16) :
    (w <<< 1).toNat.testBit (i + 1) = w.toNat.testBit i := by
  have h1 : (1 : UInt16).toNat % 16 = 1 := rfl
  rw [UInt16.toNat_shiftLeft, h1, Nat.testBit_mod_two_pow, Nat.testBit_shiftLeft]
  simp [hi]

end Uvk5.ShiftRegister
