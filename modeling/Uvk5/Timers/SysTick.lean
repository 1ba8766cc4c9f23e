import Uvk5.Lib.Wrapping

set_option relaxedAutoImplicit false
set_option autoImplicit false

/-!
# Polling the SysTick counter (`qemu/armv7m_systick.c.patched`)

The firmware waits by reading the current value of SysTick again and again and adding up by how much
it falls. The counter hardly moves between two reads, so the model reports a value that runs ahead
of it, by an amount that grows with every read.

## Main definitions

* `SysTick.State`, `SysTick.readCurrent` — a read of the current value.
* `SysTick.delay` — the loop of the firmware.

## Main results

* `SysTick.delay_ends_iff` — when the loop ends, for a counter that moves in any way and for one
  that stands still.

## Design

The counter itself is a `ptimer` of QEMU. What it shows at each read is a parameter here.
-/

namespace Uvk5.SysTick

/-- The fields of `SysTickState` that a read of the current value uses. -/
structure State where
  /-- `ptimer_get_limit`: the reload value. -/
  limit : UInt32
  /-- `poll_boost`. -/
  pollBoost : UInt32
  /-- `poll_skew`. -/
  pollSkew : UInt32

/-- The case of the current value in `systick_read`, when `ptimer_get_count` is `count`. -/
def State.readCurrent (s : State) (count : UInt32) : UInt32 × State :=
  if s.pollBoost ≠ 0 then
    let period := s.limit + 1
    let skew := s.pollSkew + s.pollBoost
    let val := if period > 1 then
        let offset := skew % period
        if count ≥ offset then count - offset else count + period - offset
      else count
    (val, { s with pollSkew := skew })
  else (count, s)

/-- The `poll-boost` of the machine. -/
def pollBoost : UInt32 := 24000

/-- The SysTick of the machine. -/
def soc (limit skew : UInt32) : State := ⟨limit, pollBoost, skew⟩

/-! ## The loop of the firmware -/

/-- `(prev - cur) mod (L + 1)`. -/
def fallen (limit prev cur : UInt32) : ℕ :=
  (((prev.toNat : ℤ) - cur.toNat) % ((limit.toNat + 1 : ℕ) : ℤ)).toNat

/-- `while (elapsed < ticks) { cur = VAL; elapsed += (prev - cur) mod (L + 1); prev = cur; }`, after
`reads` reads. It returns how often the value was read. -/
def delayLoop (ticks : ℕ) (counts : ℕ → UInt32) : ℕ → ℕ → UInt32 → ℕ → State → Option ℕ
  | 0, reads, _, elapsed, _ => if elapsed < ticks then none else some reads
  | fuel + 1, reads, prev, elapsed, s =>
    if elapsed < ticks then
      let (cur, s') := s.readCurrent (counts reads)
      delayLoop ticks counts fuel (reads + 1) cur (elapsed + fallen s.limit prev cur) s'
    else some reads

/-- `prev = VAL; elapsed = 0;` and the loop. -/
def delay (ticks : ℕ) (counts : ℕ → UInt32) (fuel : ℕ) (s : State) : Option ℕ :=
  let (prev, s) := s.readCurrent (counts 0)
  delayLoop ticks counts fuel 1 prev 0 s

/-- The loop ends. -/
def Ends (ticks : ℕ) (counts : ℕ → UInt32) (s : State) : Prop :=
  ∃ fuel reads, delay ticks counts fuel s = some reads

/-! ## The reads -/

/-- The state after `n` reads. -/
def State.after (s : State) (counts : ℕ → UInt32) : ℕ → State
  | 0 => s
  | n + 1 => ((s.after counts n).readCurrent (counts n)).2

/-- What the read of a number reports. -/
def State.reported (s : State) (counts : ℕ → UInt32) (n : ℕ) : UInt32 :=
  ((s.after counts n).readCurrent (counts n)).1

/-- The skew after `n` reads. -/
def skewAt (skew : UInt32) (n : ℕ) : UInt32 := skew + UInt32.ofNat n * pollBoost

/-- Between the read of a number and the next one the counter moves as far back as the boost takes
it, up to whole periods. -/
def Cancels (limit skew : UInt32) (counts : ℕ → UInt32) (n : ℕ) : Prop :=
  ((limit.toNat + 1 : ℕ) : ℤ) ∣
    ((skewAt skew (n + 2)).toNat - (skewAt skew (n + 1)).toNat) -
      ((counts (n + 1)).toNat - (counts n).toNat)

/-- At the read of a number the counter is at most the reload value, or above it by no more than
the part of a period that the skew takes off. Only a reload value that was lowered while the counter
ran leaves the counter above it. -/
def InRange (limit skew : UInt32) (counts : ℕ → UInt32) (n : ℕ) : Prop :=
  (counts n).toNat ≤ limit.toNat + (skewAt skew (n + 1)).toNat % (limit.toNat + 1)

section Reads

variable (limit skew : UInt32) (counts : ℕ → UInt32)

/-- Before the first read there is the skew there was. -/
lemma skewAt_zero : skewAt skew 0 = skew := by
  rw [skewAt, show UInt32.ofNat 0 = 0 from rfl, UInt32.zero_mul, UInt32.add_zero]

/-- Every read adds the boost to the skew. -/
lemma skewAt_succ (n : ℕ) : skewAt skew (n + 1) = skewAt skew n + pollBoost := by
  rw [skewAt, skewAt, UInt32.ofNat_add, UInt32.add_mul, ← UInt32.add_assoc,
    show UInt32.ofNat 1 = 1 from rfl, UInt32.one_mul]

/-- A read with the boost of the machine. -/
lemma readCurrent_soc (count : UInt32) : (soc limit skew).readCurrent count =
    (if limit + 1 > 1 then
      if count ≥ (skew + pollBoost) % (limit + 1) then count - (skew + pollBoost) % (limit + 1)
      else count + (limit + 1) - (skew + pollBoost) % (limit + 1)
    else count, soc limit (skew + pollBoost)) := by
  rw [State.readCurrent]
  exact if_pos (show pollBoost ≠ 0 by decide)

/-- After some reads there is a larger skew, and nothing else has changed. -/
lemma after_soc (n : ℕ) : (soc limit skew).after counts n = soc limit (skewAt skew n) := by
  induction n with
  | zero => rw [State.after, skewAt_zero]
  | succ n ih => rw [State.after, ih, skewAt_succ, readCurrent_soc]

variable {limit}

/-- What a read reports, in numbers. -/
lemma reported_soc (hlimit : 1 ≤ limit.toNat ∧ limit.toNat < 2 ^ 24) (n : ℕ) :
    ((soc limit skew).reported counts n).toNat =
      if (skewAt skew (n + 1)).toNat % (limit.toNat + 1) ≤ (counts n).toNat then
        (counts n).toNat - (skewAt skew (n + 1)).toNat % (limit.toNat + 1)
      else (counts n).toNat + (limit.toNat + 1) -
        (skewAt skew (n + 1)).toNat % (limit.toNat + 1) := by
  have hperiod : (limit + 1).toNat = limit.toNat + 1 := by
    rw [UInt32.toNat_add]
    exact Nat.mod_eq_of_lt (by change limit.toNat + 1 < 2 ^ 32; omega)
  have hone : limit + 1 > 1 := by
    rw [gt_iff_lt, UInt32.lt_iff_toNat_lt, hperiod]
    change 1 < limit.toNat + 1
    omega
  have hoffset : (skewAt skew (n + 1) % (limit + 1)).toNat =
      (skewAt skew (n + 1)).toNat % (limit.toNat + 1) := by
    rw [UInt32.toNat_mod, hperiod]
  have hlt := Nat.mod_lt (skewAt skew (n + 1)).toNat (show 0 < limit.toNat + 1 by omega)
  rw [State.reported, after_soc, readCurrent_soc, ← skewAt_succ, if_pos hone]
  by_cases hge : (skewAt skew (n + 1)).toNat % (limit.toNat + 1) ≤ (counts n).toNat
  · have hge' : counts n ≥ skewAt skew (n + 1) % (limit + 1) := by
      rw [ge_iff_le, UInt32.le_iff_toNat_le, hoffset]
      exact hge
    rw [if_pos hge', if_pos hge, UInt32.toNat_sub_of_le _ _ hge', hoffset]
  · have hlt' : ¬ counts n ≥ skewAt skew (n + 1) % (limit + 1) := by
      rw [ge_iff_le, UInt32.le_iff_toNat_le, hoffset]
      exact hge
    have hsum : (counts n + (limit + 1)).toNat = (counts n).toNat + (limit.toNat + 1) := by
      rw [UInt32.toNat_add, hperiod]
      exact Nat.mod_eq_of_lt (by omega)
    rw [if_neg hlt', if_neg hge, UInt32.toNat_sub_of_le, hoffset, hsum]
    rw [UInt32.le_iff_toNat_le, hoffset, hsum]
    omega

/-- What is reported is the counter less the skew, up to whole periods. -/
lemma dvd_reported (hlimit : 1 ≤ limit.toNat ∧ limit.toNat < 2 ^ 24) (n : ℕ) :
    ((limit.toNat + 1 : ℕ) : ℤ) ∣ ((soc limit skew).reported counts n).toNat -
      ((counts n).toNat - (skewAt skew (n + 1)).toNat) := by
  rw [reported_soc skew counts hlimit]
  have hdiv := Nat.div_add_mod (skewAt skew (n + 1)).toNat (limit.toNat + 1)
  have hlt := Nat.mod_lt (skewAt skew (n + 1)).toNat (show 0 < limit.toNat + 1 by omega)
  generalize (skewAt skew (n + 1)).toNat % (limit.toNat + 1) = offset at *
  generalize (skewAt skew (n + 1)).toNat / (limit.toNat + 1) = rounds at *
  have hskew : ((skewAt skew (n + 1)).toNat : ℤ) =
      ((limit.toNat + 1 : ℕ) : ℤ) * rounds + offset := by exact_mod_cast hdiv.symm
  split
  · refine ⟨rounds, ?_⟩
    omega
  · refine ⟨rounds + 1, ?_⟩
    rw [mul_add, mul_one]
    omega

/-- What is reported is at most the reload value exactly if the counter is above it by no more than
the part of a period that the skew takes off. -/
lemma reported_le_iff (hlimit : 1 ≤ limit.toNat ∧ limit.toNat < 2 ^ 24) (n : ℕ) :
    (soc limit skew).reported counts n ≤ limit ↔ InRange limit skew counts n := by
  rw [UInt32.le_iff_toNat_le, InRange, reported_soc skew counts hlimit]
  split
  · omega
  · omega

/-- The value falls between two reads, unless the counter cancels the boost. -/
lemma fallen_eq_zero_iff (hlimit : 1 ≤ limit.toNat ∧ limit.toNat < 2 ^ 24) (n : ℕ) :
    fallen limit ((soc limit skew).reported counts n) ((soc limit skew).reported counts (n + 1)) = 0
      ↔ Cancels limit skew counts n := by
  have hpos : ((limit.toNat + 1 : ℕ) : ℤ) ≠ 0 := by omega
  have hnonneg := Int.emod_nonneg (((soc limit skew).reported counts n).toNat -
    ((soc limit skew).reported counts (n + 1)).toNat : ℤ) hpos
  have hnext : ((limit.toNat + 1 : ℕ) : ℤ) ∣ ((soc limit skew).reported counts (n + 1)).toNat -
      ((counts (n + 1)).toNat - (skewAt skew (n + 2)).toNat) :=
    dvd_reported skew counts hlimit (n + 1)
  have hboth := dvd_sub (dvd_reported skew counts hlimit n) hnext
  rw [fallen, Int.toNat_eq_zero, Cancels]
  generalize (((soc limit skew).reported counts n).toNat : ℤ) = first at *
  generalize (((soc limit skew).reported counts (n + 1)).toNat : ℤ) = next at *
  have hsame : ((limit.toNat + 1 : ℕ) : ℤ) ∣ (first - next) -
      (((skewAt skew (n + 2)).toNat - (skewAt skew (n + 1)).toNat) -
        ((counts (n + 1)).toNat - (counts n).toNat)) := by
    have hsplit : (first - next) -
        (((skewAt skew (n + 2)).toNat - (skewAt skew (n + 1)).toNat) -
          ((counts (n + 1)).toNat - (counts n).toNat)) =
        (first - ((counts n).toNat - (skewAt skew (n + 1)).toNat)) -
          (next - ((counts (n + 1)).toNat - (skewAt skew (n + 2)).toNat) : ℤ) := by omega
    rw [hsplit]
    exact hboth
  rw [← dvd_iff_dvd_of_dvd_sub hsame]
  constructor
  · intro hle
    exact Int.dvd_of_emod_eq_zero (le_antisymm hle hnonneg)
  · intro hdvd
    exact (Int.emod_eq_zero_of_dvd hdvd).le

/-! ## The loop -/

/-- By how much the value falls from the read of a number to the next one. -/
def progress (limit skew : UInt32) (counts : ℕ → UInt32) (n : ℕ) : ℕ :=
  fallen limit ((soc limit skew).reported counts n) ((soc limit skew).reported counts (n + 1))

/-- The loop ends as soon as the sum of what the value fell is large enough.

**Proof sketch.** Induction on the fuel. One turn adds what the value fell between two reads,
which is the next term of the sum; the loop ends at the first sum that is large enough. -/
lemma delayLoop_eq_some_iff (limit : UInt32) (ticks fuel n elapsed : ℕ) :
    (∃ reads, delayLoop ticks counts fuel (n + 1) ((soc limit skew).reported counts n) elapsed
      (soc limit (skewAt skew (n + 1))) = some reads) ↔
      ∃ k, k ≤ fuel ∧
        ticks ≤ elapsed + ∑ i ∈ Finset.range k, progress limit skew counts (n + i) := by
  induction fuel generalizing n elapsed with
  | zero =>
    rw [delayLoop]
    constructor
    · rintro ⟨reads, hreads⟩
      by_cases hlt : elapsed < ticks
      · rw [if_pos hlt] at hreads
        cases hreads
      · exact ⟨0, Nat.le_refl _, Nat.not_lt.mp hlt⟩
    · rintro ⟨k, hk, hsum⟩
      obtain rfl := Nat.le_zero.mp hk
      exact ⟨_, if_neg (Nat.not_lt.mpr hsum)⟩
  | succ fuel ih =>
    have hread : (soc limit (skewAt skew (n + 1))).readCurrent (counts (n + 1)) =
        ((soc limit skew).reported counts (n + 1), soc limit (skewAt skew (n + 2))) := by
      rw [State.reported, after_soc, readCurrent_soc, skewAt_succ skew (n + 1)]
    rw [delayLoop, hread]
    have hsplit : ∀ k, ∑ i ∈ Finset.range (k + 1), progress limit skew counts (n + i) =
        progress limit skew counts n +
          ∑ i ∈ Finset.range k, progress limit skew counts (n + 1 + i) := by
      intro k
      rw [Finset.sum_range_succ', Nat.add_zero, Nat.add_comm]
      simp only [Nat.add_assoc, Nat.add_comm 1]
    have hfallen : fallen (soc limit (skewAt skew (n + 1))).limit
        ((soc limit skew).reported counts n)
        ((soc limit skew).reported counts (n + 1)) = progress limit skew counts n := rfl
    by_cases hlt : elapsed < ticks
    · rw [if_pos hlt]
      refine (ih (n + 1) _).trans ⟨?_, ?_⟩
      · rintro ⟨k, hk, hsum⟩
        refine ⟨k + 1, Nat.succ_le_succ hk, ?_⟩
        rw [hsplit]
        omega
      · rintro ⟨k, hk, hsum⟩
        cases k with
        | zero => exact absurd hsum (Nat.not_le.mpr hlt)
        | succ k =>
          refine ⟨k, Nat.le_of_succ_le_succ hk, ?_⟩
          rw [hsplit] at hsum
          omega
    · rw [if_neg hlt]
      exact ⟨fun _ => ⟨0, Nat.zero_le _, Nat.not_lt.mp hlt⟩, fun _ => ⟨_, rfl⟩⟩

variable {skew counts}

/-- The loop ends if the value falls far enough in some number of reads. -/
lemma ends_iff (ticks : ℕ) : Ends ticks counts (soc limit skew) ↔
    ∃ k, ticks ≤ ∑ i ∈ Finset.range k, progress limit skew counts i := by
  have hloop := fun fuel => delayLoop_eq_some_iff skew counts limit ticks fuel 0 0
  have hfirst : (soc limit skew).readCurrent (counts 0) =
      ((soc limit skew).reported counts 0, soc limit (skewAt skew 1)) := by
    rw [State.reported, after_soc, skewAt_zero, readCurrent_soc, skewAt_succ, skewAt_zero]
  simp only [Nat.zero_add] at hloop
  constructor
  · rintro ⟨fuel, reads, hreads⟩
    rw [delay, hfirst] at hreads
    obtain ⟨k, -, hsum⟩ := (hloop fuel).mp ⟨reads, hreads⟩
    exact ⟨k, hsum⟩
  · rintro ⟨k, hsum⟩
    obtain ⟨reads, hreads⟩ := (hloop k).mpr ⟨k, Nat.le_refl _, hsum⟩
    refine ⟨k, reads, ?_⟩
    rw [delay, hfirst]
    exact hreads

/-- The skew is a counter that wraps. -/
lemma wraps_skewAt (skew : UInt32) :
    Wrapping.Wraps 24000 (2 ^ 32) fun n => (skewAt skew (n + 1)).toNat where
  pos := by decide
  lt_modulus := by decide
  lt n := UInt32.toNat_lt _
  step n := by
    have hlt := (skewAt skew (n + 1)).toNat_lt
    rw [skewAt_succ skew (n + 1), UInt32.toNat_add]
    change ((skewAt skew (n + 1)).toNat + 24000) % 2 ^ 32 = _
    split
    · next h => exact Nat.mod_eq_of_lt h
    · next h => omega

/-- The loop ends for every number of ticks unless, from some read on, the counter always cancels
the boost. -/
lemma ends_all_iff (hlimit : 1 ≤ limit.toNat ∧ limit.toNat < 2 ^ 24) :
    (∀ ticks, Ends ticks counts (soc limit skew)) ↔
      ∀ N, ∃ n, N ≤ n ∧ ¬ Cancels limit skew counts n := by
  simp only [ends_iff]
  rw [Wrapping.exists_le_sum_iff]
  simp only [ne_eq, progress, fallen_eq_zero_iff skew counts hlimit]

/-- A counter that stands still cancels nothing. -/
lemma cancels_of_still (hstill : ∀ n, counts n = counts 0) (n : ℕ) : Cancels limit skew counts n ↔
    ((limit.toNat + 1 : ℕ) : ℤ) ∣
      (skewAt skew (n + 2)).toNat - (skewAt skew (n + 1)).toNat := by
  rw [Cancels, hstill (n + 1), hstill n, sub_self, sub_zero]

/-- With a counter that stands still and such a period there is no progress. -/
lemma not_ends (hlimit : 1 ≤ limit.toNat ∧ limit.toNat < 2 ^ 24)
    (hstill : ∀ n, counts n = counts 0) (hdvd : limit.toNat + 1 ∣ 24000 ∧ limit.toNat + 1 ∣ 2 ^ 32)
    {ticks : ℕ} (hticks : ticks ≠ 0) : ¬ Ends ticks counts (soc limit skew) := by
  intro hends
  obtain ⟨k, hk⟩ := (ends_iff ticks).mp hends
  have hzero : ∀ i, progress limit skew counts i = 0 := fun i =>
    (fallen_eq_zero_iff skew counts hlimit i).mpr
      ((cancels_of_still hstill i).mpr ((wraps_skewAt skew).dvd_sub hdvd i))
  rw [Finset.sum_eq_zero fun i _ => hzero i] at hk
  exact hticks (Nat.le_zero.mp hk)

/-- A period divides the boost and the modulus of the skew exactly if it divides 64. -/
lemma dvd_boost_iff (P : ℕ) : P ∣ 24000 ∧ P ∣ 2 ^ 32 ↔ P ∣ 64 := by
  rw [← Nat.dvd_gcd_iff]
  rfl

end Reads

/-- A counter that is at most the reload value is in range at every read. -/
lemma inRange_of_le {limit skew : UInt32} {counts : ℕ → UInt32} {n : ℕ}
    (hcount : counts n ≤ limit) : InRange limit skew counts n :=
  Nat.le_add_right_of_le (UInt32.le_iff_toNat_le.mp hcount)

/-- **When the delay loop ends.** The reload value is any from 1 to `2 ^ 24 - 1`, and the skew
anything. Every read reports at most the reload value exactly if the counter is in range at every
read, as it is when it counts down from the reload value. Whatever the counter shows at the reads,
the loop ends for every number of ticks exactly if the counter does not, from some read on, always
fall back by what the boost adds. With a counter that stands still the loop ends exactly if there is
nothing to wait for, or the period is not one of the divisors of 64.

**Proof sketch.** Between two reads the value falls by the boost, less what the counter rises,
modulo the period; when the skew wraps, `2 ^ 32` comes in. The loop ends if that is not zero
infinitely often. For a counter that stands still it is zero at every read only if the period
divides both the boost and `2 ^ 32`. -/
theorem delay_ends_iff (limit skew : UInt32) (counts : ℕ → UInt32)
    (hlimit : 1 ≤ limit.toNat ∧ limit.toNat < 2 ^ 24) :
    ((∀ n, (soc limit skew).reported counts n ≤ limit) ↔ ∀ n, InRange limit skew counts n) ∧
      ((∀ n, counts n ≤ limit) → ∀ n, (soc limit skew).reported counts n ≤ limit) ∧
      ((∀ ticks, Ends ticks counts (soc limit skew)) ↔
        ∀ N, ∃ n, N ≤ n ∧ ¬ Cancels limit skew counts n) ∧
      ((∀ n, counts n = counts 0) → ∀ ticks,
        (Ends ticks counts (soc limit skew) ↔ ticks = 0 ∨ ¬ limit.toNat + 1 ∣ 64)) := by
  have hrange : (∀ n, (soc limit skew).reported counts n ≤ limit) ↔
      ∀ n, InRange limit skew counts n :=
    forall_congr' fun n => reported_le_iff skew counts hlimit n
  refine ⟨hrange, fun hcounts => hrange.mpr fun n => inRange_of_le (hcounts n),
    ends_all_iff hlimit, fun hstill ticks => ?_⟩
  rw [← dvd_boost_iff]
  constructor
  · intro hends
    by_contra hnot
    push Not at hnot
    exact not_ends hlimit hstill hnot.2 hnot.1 hends
  · rintro (rfl | hnot)
    · exact (ends_iff 0).mpr ⟨0, Nat.zero_le _⟩
    · refine (ends_all_iff hlimit).mpr (fun N => ?_) ticks
      obtain ⟨n, hn, hchanges⟩ := ((wraps_skewAt skew).changes_iff _).mpr hnot N
      exact ⟨n, hn, fun hcancels => hchanges ((cancels_of_still hstill n).mp hcancels)⟩

/-- A delay of 120 ms at 48 MHz, with a period of 10 ms and a counter that stands still. -/
theorem delay_ends_period : Ends 5760000 (fun _ => 0) (soc 479999 0) :=
  ((delay_ends_iff 479999 0 (fun _ => 0) (by decide)).2.2.2 (fun _ => rfl) 5760000).mpr
    (.inr (by decide))

/-- With a reload value of 1 and a counter that stands still, every read reports the same. -/
theorem delay_hangs : ¬ ∀ (limit skew : UInt32) (counts : ℕ → UInt32),
    1 ≤ limit.toNat ∧ limit.toNat < 2 ^ 24 → (∀ n, counts n ≤ limit) →
      (∀ n, counts n = counts 0) → ∀ ticks, Ends ticks counts (soc limit skew) := by
  intro h
  have hends := h 1 0 (fun _ => 0) (by decide) (fun _ => by decide) (fun _ => rfl) 1
  exact not_ends (by decide) (fun _ => rfl) (by decide) Nat.one_ne_zero hends

end Uvk5.SysTick
