import Mathlib.Algebra.BigOperators.Group.Finset.Basic
import Mathlib.Algebra.Order.BigOperators.Group.Finset
import Mathlib.Algebra.Ring.Divisibility.Basic
import Mathlib.Algebra.Ring.Int.Defs

set_option relaxedAutoImplicit false
set_option autoImplicit false

/-!
# Counters that wrap

A counter is advanced by the same amount again and again, and wraps at a modulus. A loop that polls
it adds up how far it moves, and ends when the sum is large enough.

## Main definitions

* `Wrapping.Wraps` — a sequence of values of such a counter.

## Main results

* `Wrapping.exists_le_sum_iff` — a sum passes every bound if terms that are not zero never stop.
* `Wrapping.Wraps.changes_iff` — the residues of the counter never stop changing, unless the period
  divides both the step and the modulus.
-/

namespace Uvk5.Wrapping

/-- A sum of natural numbers passes every bound exactly if infinitely many of them are not zero. -/
theorem exists_le_sum_iff (f : ℕ → ℕ) :
    (∀ t, ∃ k, t ≤ ∑ i ∈ Finset.range k, f i) ↔ ∀ N, ∃ n, N ≤ n ∧ f n ≠ 0 := by
  constructor
  · intro h N
    by_contra hnone
    push Not at hnone
    have hafter : ∀ j, ∑ i ∈ Finset.range (N + j), f i = ∑ i ∈ Finset.range N, f i := by
      intro j
      induction j with
      | zero => rfl
      | succ j ih =>
        rw [← Nat.add_assoc, Finset.sum_range_succ, ih, hnone _ (Nat.le_add_right ..), Nat.add_zero]
    obtain ⟨k, hk⟩ := h (∑ i ∈ Finset.range N, f i + 1)
    rcases Nat.le_total k N with hle | hle
    · have hmono := Finset.sum_le_sum_of_subset (f := f) (Finset.range_mono hle)
      omega
    · obtain ⟨j, rfl⟩ := Nat.exists_eq_add_of_le hle
      rw [hafter] at hk
      omega
  · intro h t
    induction t with
    | zero => exact ⟨0, Nat.zero_le _⟩
    | succ t ih =>
      obtain ⟨k, hk⟩ := ih
      obtain ⟨n, hn, hne⟩ := h k
      refine ⟨n + 1, ?_⟩
      have hmono := Finset.sum_le_sum_of_subset (f := f) (Finset.range_mono hn)
      rw [Finset.sum_range_succ]
      omega

/-- The values of a counter that is advanced by `b` and wraps at `M`. -/
structure Wraps (b M : ℕ) (s : ℕ → ℕ) : Prop where
  pos : 0 < b
  lt_modulus : b < M
  lt : ∀ n, s n < M
  step : ∀ n, s (n + 1) = if s n + b < M then s n + b else s n + b - M

section Wraps

variable {b M : ℕ} {s : ℕ → ℕ} (h : Wraps b M s)

include h

/-- It does not wrap in every step. -/
lemma Wraps.exists_advance (N : ℕ) : ∃ n, N ≤ n ∧ s n + b < M := by
  by_contra hnone
  push Not at hnone
  have hfall : ∀ j, s (N + j) + j ≤ s N := by
    intro j
    induction j with
    | zero => exact Nat.le_refl _
    | succ j ih =>
      have hwrap := hnone (N + j) (Nat.le_add_right ..)
      have hstep := h.step (N + j)
      rw [if_neg (by omega)] at hstep
      have hb := h.lt_modulus
      rw [← Nat.add_assoc N j 1, hstep]
      omega
  have hbound := hfall (s N + 1)
  omega

/-- It wraps again and again. -/
lemma Wraps.exists_wrap (N : ℕ) : ∃ n, N ≤ n ∧ M ≤ s n + b := by
  by_contra hnone
  push Not at hnone
  have hrise : ∀ j, j ≤ s (N + j) := by
    intro j
    induction j with
    | zero => exact Nat.zero_le _
    | succ j ih =>
      have hstep := h.step (N + j)
      rw [if_pos (hnone (N + j) (Nat.le_add_right ..))] at hstep
      have hb := h.pos
      rw [← Nat.add_assoc N j 1, hstep]
      omega
  have hbound := hrise M
  have hlt := h.lt (N + M)
  omega

/-- How far a step goes: by `b`, or back by the rest of the modulus. -/
lemma Wraps.sub_eq (n : ℕ) :
    (s (n + 1) : ℤ) - s n = if s n + b < M then (b : ℤ) else (b : ℤ) - M := by
  have hstep := h.step n
  have hlt := h.lt n
  split
  · next hlt' =>
    rw [if_pos hlt'] at hstep
    omega
  · next hwrap =>
    rw [if_neg hwrap] at hstep
    omega

/-- If the period divides both, no step changes the residue. -/
lemma Wraps.dvd_sub {P : ℕ} (hP : P ∣ b ∧ P ∣ M) (n : ℕ) : (P : ℤ) ∣ s (n + 1) - s n := by
  have hb : (P : ℤ) ∣ b := Int.natCast_dvd_natCast.mpr hP.1
  rw [h.sub_eq]
  split
  · exact hb
  · exact Int.dvd_sub hb (Int.natCast_dvd_natCast.mpr hP.2)

/-- **The residues never stop changing**, unless the period divides both the step and the
modulus. -/
theorem Wraps.changes_iff (P : ℕ) :
    (∀ N, ∃ n, N ≤ n ∧ ¬ (P : ℤ) ∣ s (n + 1) - s n) ↔ ¬ (P ∣ b ∧ P ∣ M) := by
  constructor
  · intro hchanges hP
    obtain ⟨n, -, hn⟩ := hchanges 0
    exact hn (h.dvd_sub hP n)
  · intro hnot N
    by_contra hnone
    push Not at hnone
    obtain ⟨n, hn, hadvance⟩ := h.exists_advance N
    obtain ⟨m, hm, hwrap⟩ := h.exists_wrap N
    have hb := hnone n hn
    have hrest := hnone m hm
    rw [h.sub_eq, if_pos hadvance] at hb
    rw [h.sub_eq, if_neg (by omega)] at hrest
    have hM : (P : ℤ) ∣ M := (dvd_sub_right hb).mp hrest
    exact hnot ⟨Int.natCast_dvd_natCast.mp hb, Int.natCast_dvd_natCast.mp hM⟩

end Wraps

end Uvk5.Wrapping
