import Mathlib.Data.Nat.Notation
import Mathlib.Tactic.ByContra

set_option relaxedAutoImplicit false
set_option autoImplicit false

/-!
# Sampled signals

A signal is sampled again and again. How long it has been high, and what a latch remembers of two
signals.

## Main definitions

* `Signal.streak` — for how many samples the signal has been high without a break.
* `Signal.latch` — a latch that one signal sets and another resets.

## Main results

* `Signal.le_streak_iff` — a long streak in terms of the samples.
* `Signal.latch_iff` — a latch is set by the latest pulse.
-/

namespace Uvk5.Signal

/-! ## Streaks -/

/-- For how many of the first `n` samples, counted from the end, the signal has been high. -/
def streak (s : ℕ → Bool) : ℕ → ℕ
  | 0 => 0
  | n + 1 => if s n then streak s n + 1 else 0

/-- Before the first sample there is no streak. -/
@[simp] lemma streak_zero (s : ℕ → Bool) : streak s 0 = 0 := rfl

/-- A high sample makes the streak longer. -/
lemma streak_succ_of_high {s : ℕ → Bool} {n : ℕ} (h : s n = true) :
    streak s (n + 1) = streak s n + 1 := by
  simp [streak, h]

/-- A low sample ends it. -/
lemma streak_succ_of_low {s : ℕ → Bool} {n : ℕ} (h : s n = false) : streak s (n + 1) = 0 := by
  simp [streak, h]

/-- **A streak of at least `k`**: the latest `k` samples exist and are high.

**Proof sketch.** Induction on the number of samples. A low sample leaves a streak of none; a high
one makes the streak one longer, and moves the other samples one place back. -/
theorem le_streak_iff {s : ℕ → Bool} {k n : ℕ} :
    k ≤ streak s n ↔ k ≤ n ∧ ∀ i < k, s (n - 1 - i) = true := by
  induction n generalizing k with
  | zero =>
    rw [streak_zero]
    refine ⟨fun hk => ⟨hk, fun i hi => ?_⟩, fun h => h.1⟩
    omega
  | succ n ih =>
    cases k with
    | zero => simp
    | succ k =>
      cases hs : s n with
      | false =>
        rw [streak_succ_of_low hs]
        refine ⟨fun hk => by omega, fun h => ?_⟩
        have hnewest := h.2 0 (by omega)
        simp [hs] at hnewest
      | true =>
        rw [streak_succ_of_high hs, Nat.succ_le_succ_iff, ih]
        constructor
        · rintro ⟨hle, hhigh⟩
          refine ⟨by omega, fun i hi => ?_⟩
          cases i with
          | zero => simpa using hs
          | succ i =>
            have hi' := hhigh i (by omega)
            rwa [show n + 1 - 1 - (i + 1) = n - 1 - i by omega]
        · rintro ⟨hle, hhigh⟩
          refine ⟨by omega, fun i hi => ?_⟩
          have hi' := hhigh (i + 1) (by omega)
          rwa [show n + 1 - 1 - (i + 1) = n - 1 - i by omega] at hi'

/-! ## Latches -/

/-- A latch after `n` samples; a sample that sets and resets it resets it. -/
def latch (sets resets : ℕ → Bool) : ℕ → Bool
  | 0 => false
  | n + 1 => if resets n then false else if sets n then true else latch sets resets n

/-- **A latch is set by the latest pulse**, if that one does not reset it as well.

**Proof sketch.** Induction on the time. A pulse that resets leaves no earlier one; one that sets
is itself the latest; with neither, the latest is that of before. -/
theorem latch_iff {sets resets : ℕ → Bool} {n : ℕ} :
    latch sets resets n = true ↔
      ∃ m < n, sets m = true ∧ resets m = false ∧
        ∀ i, m < i → i < n → sets i = false ∧ resets i = false := by
  induction n with
  | zero => simp [latch]
  | succ n ih =>
    unfold latch
    cases hreset : resets n with
    | true =>
      simp only [if_true, Bool.false_eq_true, false_iff]
      rintro ⟨m, hm, -, hm', hquiet⟩
      rcases Nat.lt_succ_iff_lt_or_eq.mp hm with hlt | rfl
      · simp [(hquiet n hlt (by omega)).2] at hreset
      · simp [hm'] at hreset
    | false =>
      cases hset : sets n with
      | true =>
        simp only [if_true, Bool.false_eq_true, if_false, true_iff]
        exact ⟨n, by omega, hset, hreset, fun i hlt hle => by omega⟩
      | false =>
        simp only [Bool.false_eq_true, if_false]
        rw [ih]
        constructor
        · rintro ⟨m, hm, hm1, hm2, hquiet⟩
          refine ⟨m, by omega, hm1, hm2, fun i hlt hle => ?_⟩
          rcases Nat.lt_succ_iff_lt_or_eq.mp hle with hin | rfl
          · exact hquiet i hlt hin
          · exact ⟨hset, hreset⟩
        · rintro ⟨m, hm, hm1, hm2, hquiet⟩
          rcases Nat.lt_succ_iff_lt_or_eq.mp hm with hlt | rfl
          · exact ⟨m, hlt, hm1, hm2, fun i hlt' hle => hquiet i hlt' (by omega)⟩
          · simp [hm1] at hset

end Uvk5.Signal
