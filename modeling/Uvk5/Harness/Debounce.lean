import Uvk5.Lib.Signal

set_option relaxedAutoImplicit false
set_option autoImplicit false

/-!
# The paddles without bounce (`stubs/cwhardware_debounce.c`, `stubs/cwhardware_stub.c`)

A press of a paddle counts from the third agreeing sample on, a release at once. The paddle that was
pressed last is remembered for the time when both are held.

## Main definitions

* `Harness.readKeysForMode` — the raw samples.
* `Harness.readKeys`, `Harness.resetKeySamples` — the debounce.
* `Harness.keySamples`, `Harness.keyOutput` — the variables and the outputs along a run.

## Main results

* `Harness.Tracks.debounce` — what a counter and a level say about the latest samples.
* `Harness.readKeys_closed_form` — the outputs in terms of the raw samples.
-/

namespace Uvk5.Harness

/-! ## The raw samples -/

/-- `CW_KEY_FLAG_REVERSED`. -/
def keyFlagReversed : UInt8 := 0x01
/-- `CW_KEY_FLAG_NO_KEYER`. -/
def keyFlagNoKeyer : UInt8 := 0x08
/-- `CW_KEY_FLAG_PORT_GROUND`. -/
def keyFlagPortGround : UInt8 := 0x10
/-- `CW_KEY_FLAG_USB_PORT`. -/
def keyFlagUsbPort : UInt8 := 0x20

/-- `SIM_CONTACT_TIP`. -/
def contactTip : UInt32 := 1
/-- `SIM_CONTACT_RING`. -/
def contactRing : UInt32 := 2

/-- `CW_ReadKeysForMode` with the contacts of `SIM_PaddleState`: the dit and the dah, or `none`
where it returns false. -/
def readKeysForMode (mode : UInt8) (contacts : UInt32) : Option (Bool × Bool) :=
  if mode &&& keyFlagNoKeyer ≠ 0 ∧ mode &&& keyFlagPortGround = 0 then none
  else
    let tip := contacts &&& contactTip ≠ 0
    let ring := contacts &&& contactRing ≠ 0
    if mode &&& keyFlagReversed ≠ 0 then some (ring, tip) else some (tip, ring)

/-! ## The debounce -/

/-- The variables of `cwhardware_debounce.c`. -/
structure KeySamples where
  /-- `s_last_dit`. -/
  lastDit : Bool
  /-- `s_last_dah`. -/
  lastDah : Bool
  /-- `s_last_is_dah`. -/
  lastIsDah : Bool
  /-- `s_dit_count`. -/
  ditCount : UInt8
  /-- `s_dah_count`. -/
  dahCount : UInt8
  deriving DecidableEq

/-- `CW_Input`. -/
structure KeyInput where
  /-- `dit_rise`. -/
  ditRise : Bool
  /-- `dah_rise`. -/
  dahRise : Bool
  /-- `dit`. -/
  dit : Bool
  /-- `dah`. -/
  dah : Bool
  /-- `last_is_dah`. -/
  lastIsDah : Bool
  deriving DecidableEq

/-- `CW_HW_ResetKeySamples`. -/
def resetKeySamples : KeySamples := ⟨false, false, false, 0, 0⟩

/-- The debounce of one paddle: the level and the counter after a sample. -/
def debounce (sample last : Bool) (count : UInt8) : Bool × UInt8 :=
  if sample = last then (last, 0)
  else if last = false then
    if count + 1 ≥ 3 then (true, 0) else (false, count + 1)
  else (false, 0)

/-- `CW_ReadKeys` in a key mode, after `CW_ReadKeysForMode` has read `raw`. -/
def readKeys (mode : UInt8) (raw : Option (Bool × Bool)) (s : KeySamples) : KeyInput × KeySamples :=
  let (nDit, nDah) := raw.getD (false, false)
  let ((dit, ditCount), (dah, dahCount)) :=
    if mode &&& keyFlagUsbPort ≠ 0 then ((nDit, s.ditCount), (nDah, s.dahCount))
    else (debounce nDit s.lastDit s.ditCount, debounce nDah s.lastDah s.dahCount)
  let ditRise := !s.lastDit && dit
  let dahRise := !s.lastDah && dah
  let lastIsDah := if ditRise then false else if dahRise then true else s.lastIsDah
  (⟨ditRise, dahRise, dit, dah, lastIsDah⟩, ⟨dit, dah, lastIsDah, ditCount, dahCount⟩)

/-! ## A run -/

section Run

variable (mode : UInt8) (raws : ℕ → Option (Bool × Bool))

/-- The variables after `n` reads. -/
def keySamples : ℕ → KeySamples
  | 0 => resetKeySamples
  | n + 1 => (readKeys mode (raws n) (keySamples n)).2

/-- The output of the read with number `n`. -/
def keyOutput (n : ℕ) : KeyInput := (readKeys mode (raws n) (keySamples mode raws n)).1

/-- The raw samples of the dit paddle; one that is not read is false. -/
def rawDit (n : ℕ) : Bool := ((raws n).getD (false, false)).1

/-- The raw samples of the dah paddle. -/
def rawDah (n : ℕ) : Bool := ((raws n).getD (false, false)).2

end Run

/-! ## What the counters say -/

open Signal

/-- A level and its counter, after a streak: the level is high from three samples on, and below the
counter is the streak. -/
structure Tracks (streak : ℕ) (last : Bool) (count : UInt8) : Prop where
  level : last = true ↔ 3 ≤ streak
  count : count.toNat = if last then 0 else streak

/-- Before the first sample the level is low, and the counter is at zero. -/
lemma tracks_reset : Tracks 0 false 0 := ⟨by simp, by simp⟩

/-- **A sample is debounced.** -/
lemma Tracks.debounce {raw : ℕ → Bool} {n : ℕ} {last : Bool} {count : UInt8}
    (h : Tracks (streak raw n) last count) :
    Tracks (streak raw (n + 1)) (debounce (raw n) last count).1
      (debounce (raw n) last count).2 := by
  obtain ⟨hlevel, hcount⟩ := h
  cases hraw : raw n with
  | false =>
    rw [streak_succ_of_low hraw]
    cases last with
    | false => exact ⟨by simp [Harness.debounce], by simp [Harness.debounce]⟩
    | true => exact ⟨by simp [Harness.debounce], by simp [Harness.debounce]⟩
  | true =>
    rw [streak_succ_of_high hraw]
    cases last with
    | true =>
      have hlong : 3 ≤ streak raw n := hlevel.mp rfl
      exact ⟨by simp [Harness.debounce]; omega, by simp [Harness.debounce]⟩
    | false =>
      have hshort : ¬ 3 ≤ streak raw n := fun hlong => by cases hlevel.mpr hlong
      simp only [Bool.false_eq_true, if_false] at hcount
      have hnext : (count + 1).toNat = streak raw n + 1 := by
        rw [UInt8.toNat_add, hcount]
        simp
        omega
      by_cases hthird : count + 1 ≥ 3
      · have hle : 3 ≤ (count + 1).toNat := hthird
        exact ⟨by simp [Harness.debounce, hthird]; omega, by simp [Harness.debounce, hthird]⟩
      · have hlt : ¬ 3 ≤ (count + 1).toNat := hthird
        exact ⟨by simp [Harness.debounce, hthird]; omega,
          by simp [Harness.debounce, hthird, hnext]⟩

/-! ## The closed form -/

section ClosedForm

variable {mode : UInt8} {raws : ℕ → Option (Bool × Bool)}

/-- The level that is put out is the one that is kept. -/
lemma keyOutput_dit (n : ℕ) :
    (keyOutput mode raws n).dit = (keySamples mode raws (n + 1)).lastDit := rfl

/-- The dah of a read is its level after that read. -/
lemma keyOutput_dah (n : ℕ) :
    (keyOutput mode raws n).dah = (keySamples mode raws (n + 1)).lastDah := rfl

/-- Which paddle was last is what the variables say after the read. -/
lemma keyOutput_lastIsDah (n : ℕ) :
    (keyOutput mode raws n).lastIsDah = (keySamples mode raws (n + 1)).lastIsDah := rfl

/-- A rise is a level that was not there. -/
lemma keyOutput_ditRise (n : ℕ) : (keyOutput mode raws n).ditRise =
    (!(keySamples mode raws n).lastDit && (keyOutput mode raws n).dit) := rfl

/-- The dah rises at a read that finds it low and leaves it high. -/
lemma keyOutput_dahRise (n : ℕ) : (keyOutput mode raws n).dahRise =
    (!(keySamples mode raws n).lastDah && (keyOutput mode raws n).dah) := rfl

/-- The levels and the counters follow the paddles. -/
lemma tracks_keySamples (hmode : mode &&& keyFlagUsbPort = 0) (n : ℕ) :
    Tracks (streak (rawDit raws) n) (keySamples mode raws n).lastDit
        (keySamples mode raws n).ditCount ∧
      Tracks (streak (rawDah raws) n) (keySamples mode raws n).lastDah
        (keySamples mode raws n).dahCount := by
  induction n with
  | zero => exact ⟨tracks_reset, tracks_reset⟩
  | succ n ih =>
    unfold keySamples readKeys
    simp only [hmode, ne_eq, not_true_eq_false, if_false]
    exact ⟨ih.1.debounce, ih.2.debounce⟩

/-- The last three samples. -/
lemma three_le_streak_iff {raw : ℕ → Bool} {n : ℕ} :
    3 ≤ streak raw (n + 1) ↔
      2 ≤ n ∧ raw n = true ∧ raw (n - 1) = true ∧ raw (n - 2) = true := by
  rw [le_streak_iff]
  constructor
  · rintro ⟨hle, hhigh⟩
    exact ⟨by omega, hhigh 0 (by omega), hhigh 1 (by omega), hhigh 2 (by omega)⟩
  · rintro ⟨hle, h0, h1, h2⟩
    refine ⟨by omega, fun i hi => ?_⟩
    obtain rfl | rfl | rfl : i = 0 ∨ i = 1 ∨ i = 2 := by omega
    · exact h0
    · exact h1
    · exact h2

/-- The level before a read is the output of the read before. -/
lemma rise_iff {last level : ℕ → Bool} (hzero : last 0 = false)
    (hsucc : ∀ n, level n = last (n + 1)) (n : ℕ) :
    (!last n && level n) = true ↔ level n = true ∧ (n = 0 ∨ level (n - 1) = false) := by
  cases n with
  | zero => simp [hzero]
  | succ n => simp [hsucc, and_comm]

/-- Which paddle was pressed last is a latch. -/
lemma lastIsDah_eq_latch (n : ℕ) : (keySamples mode raws n).lastIsDah =
    latch (fun i => (keyOutput mode raws i).dahRise)
      (fun i => (keyOutput mode raws i).ditRise) n := by
  induction n with
  | zero => rfl
  | succ n ih =>
    unfold latch
    rw [← ih]
    rfl

/-- **The outputs in closed form.** A paddle is down exactly if its last three samples are, it rises
when it was not down before, and the dah was pressed last exactly if the latest rise was one of the
dah alone.

**Proof sketch.** The counters are the lengths of the streaks of pressed samples, as far as three.
A rise is a level that was not there before, and the last of them is a latch (`latch_iff`). -/
theorem readKeys_closed_form (hmode : mode &&& keyFlagUsbPort = 0) (n : ℕ) :
    ((keyOutput mode raws n).dit = true ↔
        2 ≤ n ∧ rawDit raws n = true ∧ rawDit raws (n - 1) = true ∧ rawDit raws (n - 2) = true) ∧
      ((keyOutput mode raws n).dah = true ↔
        2 ≤ n ∧ rawDah raws n = true ∧ rawDah raws (n - 1) = true ∧ rawDah raws (n - 2) = true) ∧
      ((keyOutput mode raws n).ditRise = true ↔ (keyOutput mode raws n).dit = true ∧
        (n = 0 ∨ (keyOutput mode raws (n - 1)).dit = false)) ∧
      ((keyOutput mode raws n).dahRise = true ↔ (keyOutput mode raws n).dah = true ∧
        (n = 0 ∨ (keyOutput mode raws (n - 1)).dah = false)) ∧
      ((keyOutput mode raws n).lastIsDah = true ↔
        ∃ m ≤ n, (keyOutput mode raws m).dahRise = true ∧ (keyOutput mode raws m).ditRise = false ∧
          ∀ i, m < i → i ≤ n →
            (keyOutput mode raws i).dahRise = false ∧ (keyOutput mode raws i).ditRise = false) := by
  obtain ⟨hdit, hdah⟩ := @tracks_keySamples mode raws hmode (n + 1)
  refine ⟨?_, ?_, ?_, ?_, ?_⟩
  · rw [keyOutput_dit, hdit.level, three_le_streak_iff]
  · rw [keyOutput_dah, hdah.level, three_le_streak_iff]
  · rw [keyOutput_ditRise]
    exact @rise_iff (fun n => (keySamples mode raws n).lastDit) _ rfl keyOutput_dit n
  · rw [keyOutput_dahRise]
    exact @rise_iff (fun n => (keySamples mode raws n).lastDah) _ rfl keyOutput_dah n
  · rw [keyOutput_lastIsDah, lastIsDah_eq_latch, latch_iff]
    simp only [Nat.lt_succ_iff]

/-- Both paddles are held: the dit is put out from the third read on. -/
theorem readKeys_closed_form_both :
    (keyOutput 0x04 (fun _ => some (true, true)) 2).dit = true ∧
      (keyOutput 0x04 (fun _ => some (true, true)) 1).dit = false := by
  have hlate := (@readKeys_closed_form 0x04 (fun _ => some (true, true)) (by decide) 2).1
  have hearly := (@readKeys_closed_form 0x04 (fun _ => some (true, true)) (by decide) 1).1
  refine ⟨hlate.mpr ⟨by omega, rfl, rfl, rfl⟩, ?_⟩
  rw [Bool.eq_false_iff]
  intro hdit
  have hle := (hearly.mp hdit).1
  omega

end ClosedForm

end Uvk5.Harness
