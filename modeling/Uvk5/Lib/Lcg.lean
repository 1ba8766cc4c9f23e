import Mathlib.Algebra.Ring.Parity
import Mathlib.Data.Int.ModEq
import Mathlib.Logic.Function.Iterate
import Mathlib.Tactic.Ring

set_option relaxedAutoImplicit false
set_option autoImplicit false

/-!
# Linear congruential generators with a power of two as modulus

A generator replaces `x` by `a * x + c`. If `a` leaves 1 divided by 4 and `c` is odd, it runs
through all residues of every power of two before it comes back.

## Main definitions

* `Lcg.next` — the generator on the integers.

## Main results

* `Lcg.iterate_two_pow_modEq` — `2 ^ k` steps add `2 ^ k`, modulo `2 ^ (k + 1)`.
* `Lcg.exists_iterate_modEq` — every residue is reached in fewer than `2 ^ k` steps.
* `Lcg.exists_iterate_uint32` — the same for 32-bit words.
-/

namespace Uvk5.Lcg

/-- One step. -/
def next (a c x : ℤ) : ℤ := a * x + c

section Period

variable {a c : ℤ}

/-- The map of `2 ^ k` steps. Twice an affine map is one again; the square of its slope is 1 modulo
a higher power of two, and its offset is doubled, up to an odd factor. -/
lemma iterate_two_pow (ha : a ≡ 1 [ZMOD 4]) (hc : Odd c) (k : ℕ) :
    ∃ t s : ℤ, ∀ x, (next a c)^[2 ^ k] x = (1 + 2 ^ (k + 2) * t) * x + 2 ^ k * (2 * s + 1) := by
  induction k with
  | zero =>
    obtain ⟨t, ht⟩ := ha.symm.dvd
    obtain ⟨s, hs⟩ := hc
    refine ⟨t, s, fun x => ?_⟩
    rw [pow_zero, Function.iterate_one, next, hs, ← sub_add_cancel a 1, ht]
    ring
  | succ k ih =>
    obtain ⟨t, s, h⟩ := ih
    refine ⟨t + 2 ^ (k + 1) * t ^ 2, s + 2 ^ k * t * (2 * s + 1), fun x => ?_⟩
    rw [pow_succ, mul_two, Function.iterate_add_apply, h, h]
    ring

/-- **`2 ^ k` steps add `2 ^ k`**, modulo the next power of two. -/
theorem iterate_two_pow_modEq (ha : a ≡ 1 [ZMOD 4]) (hc : Odd c) (k : ℕ) (x : ℤ) :
    (next a c)^[2 ^ k] x ≡ x + 2 ^ k [ZMOD 2 ^ (k + 1)] := by
  obtain ⟨t, s, h⟩ := iterate_two_pow ha hc k
  rw [h]
  refine (Int.modEq_iff_dvd.mpr ⟨2 * t * x + s, ?_⟩).symm
  ring

/-- **Every residue is reached.**

**Proof sketch.** Induction on the exponent. A state that is right modulo `2 ^ k` is right modulo
`2 ^ (k + 1)` or off by `2 ^ k`, and then `2 ^ k` more steps put it right. -/
theorem exists_iterate_modEq (ha : a ≡ 1 [ZMOD 4]) (hc : Odd c) (k : ℕ) (x y : ℤ) :
    ∃ n < 2 ^ k, (next a c)^[n] x ≡ y [ZMOD 2 ^ k] := by
  induction k with
  | zero => exact ⟨0, by norm_num, by rw [pow_zero]; exact Int.modEq_one⟩
  | succ k ih =>
    obtain ⟨n, hn, hy⟩ := ih
    obtain ⟨q, hq⟩ := hy.dvd
    have hpow : (2 : ℕ) ^ (k + 1) = 2 ^ k + 2 ^ k := by rw [pow_succ, mul_two]
    rcases Int.even_or_odd' q with ⟨r, rfl | rfl⟩
    · refine ⟨n, by omega, Int.modEq_iff_dvd.mpr ⟨r, ?_⟩⟩
      rw [hq]
      ring
    · refine ⟨2 ^ k + n, by omega, ?_⟩
      rw [Function.iterate_add_apply]
      refine (iterate_two_pow_modEq ha hc k _).trans (Int.modEq_iff_dvd.mpr ⟨r, ?_⟩)
      rw [← sub_sub, hq]
      ring

end Period

/-! ## Words -/

/-- A step on machine words is one on numbers, up to the modulus. -/
lemma toNat_mul_add (a c x : UInt32) :
    ((x * a + c).toNat : ℤ) ≡ next a.toNat c.toNat x.toNat [ZMOD 2 ^ 32] := by
  rw [UInt32.toNat_add, UInt32.toNat_mul, next]
  push_cast
  refine (Int.mod_modEq _ _).trans (Int.ModEq.add_right _ ((Int.mod_modEq _ _).trans ?_))
  rw [mul_comm]

/-- A step respects congruence. -/
lemma next_modEq {m a c x y : ℤ} (h : x ≡ y [ZMOD m]) : next a c x ≡ next a c y [ZMOD m] :=
  (h.mul_left a).add_right c

/-- Steps on machine words are steps on numbers, up to the modulus. -/
lemma toNat_iterate (a c x : UInt32) (n : ℕ) :
    (((fun x => x * a + c)^[n] x).toNat : ℤ) ≡
      (next a.toNat c.toNat)^[n] x.toNat [ZMOD 2 ^ 32] := by
  induction n with
  | zero => rfl
  | succ n ih =>
    rw [Function.iterate_succ_apply', Function.iterate_succ_apply']
    exact (toNat_mul_add a c _).trans (next_modEq ih)

/-- **Every word is reached** in fewer than `2 ^ 32` steps. -/
theorem exists_iterate_uint32 {a c : UInt32} (ha : a.toNat % 4 = 1) (hc : c.toNat % 2 = 1)
    (x y : UInt32) : ∃ n < 2 ^ 32, (fun x => x * a + c)^[n] x = y := by
  have ha' : (a.toNat : ℤ) ≡ 1 [ZMOD 4] := by
    rw [Int.ModEq]
    omega
  have hc' : Odd (c.toNat : ℤ) := by
    rw [Int.odd_iff]
    omega
  obtain ⟨n, hn, hy⟩ := exists_iterate_modEq ha' hc' 32 x.toNat y.toNat
  refine ⟨n, hn, UInt32.toNat_inj.mp ?_⟩
  have hmod := (toNat_iterate a c x n).trans hy
  have hlt := ((fun x => x * a + c)^[n] x).toNat_lt
  have hlt' := y.toNat_lt
  rw [Int.ModEq] at hmod
  omega

end Uvk5.Lcg
