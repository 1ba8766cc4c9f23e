import Mathlib.Tactic.SplitIfs
import Uvk5.Lib.Run
import Uvk5.Transceiver.Pins

set_option relaxedAutoImplicit false
set_option autoImplicit false

/-!
# What the receiver reports about the squelch

Every read of the interrupt register evaluates the receiver, which may announce an open squelch
or report that it closed. This file says in one equation what an evaluation does, and when a
close is reported while the signal is still there.

## Main definitions

* `BK4819.Report`, `BK4819.report` — what an evaluation has to say.
* `BK4819.Truthful` — a transaction that reports a close only below the threshold.
* `BK4819.SignalKept` — the evaluations that report a close with the signal still there.

## Main results

* `BK4819.evalReceiver_eq` — an evaluation, in closed form.
* `BK4819.truthful_iff` — along any run from reset, all close reports are truthful exactly when
  no evaluation of the run is a `SignalKept` one.
-/

namespace Uvk5.BK4819

/-! ## One evaluation -/

/-- What an evaluation has to say about the squelch. -/
inductive Report where
  /-- The squelch is open: `BK4819_INT_SQUELCH_LOST`. -/
  | opened
  /-- The squelch closed: `BK4819_INT_SQUELCH_FOUND`. -/
  | closed
  /-- Nothing. -/
  | silent
  deriving DecidableEq

/-- The flag a report raises. -/
def Report.flag : Report → UInt16
  | .opened => intSquelchLost
  | .closed => intSquelchFound
  | .silent => 0

/-- The signal an evaluation finds: at or above a threshold that is programmed. -/
def signal (s : Radio) : Prop :=
  openThresh s.regs ≠ 0 ∧ measuredRssi s.regs (s.tick + 1) ≥ openThresh s.regs

instance (s : Radio) : Decidable (signal s) := inferInstanceAs (Decidable (_ ∧ _))

/-- What the next evaluation will report. -/
def report (s : Radio) : Report :=
  if !listening s.regs then .silent
  else if (s.tick + 1) % 64 = 0 ∧ signal s then .opened
  else if s.squelchOpen then .closed
  else .silent

/-- The registers after an evaluation. -/
def evalRegs (s : Radio) : Regs :=
  let pending := s.pendingInt ||| (report s).flag
  Function.update (refreshMeters s).regs regInterrupt
    (if listening s.regs ∧ pending ≠ 0 then s.regs regInterrupt ||| 1 else s.regs regInterrupt)

/-- Measuring leaves the flags that are pending. -/
@[simp] lemma refreshMeters_pendingInt (s : Radio) :
    (refreshMeters s).pendingInt = s.pendingInt := rfl

/-- Measuring leaves the squelch. -/
@[simp] lemma refreshMeters_squelchOpen (s : Radio) :
    (refreshMeters s).squelchOpen = s.squelchOpen := rfl

/-- Measuring is a tick. -/
@[simp] lemma refreshMeters_tick (s : Radio) : (refreshMeters s).tick = s.tick + 1 := rfl

/-- Measuring leaves all registers but the two it is for. -/
lemma refreshMeters_regs (s : Radio) {r : Reg} (h₁ : r ≠ regRssi) (h₂ : r ≠ regAudioAmp) :
    (refreshMeters s).regs r = s.regs r := by
  change Function.update (Function.update s.regs regRssi _) regAudioAmp _ r = _
  rw [Function.update_of_ne h₂, Function.update_of_ne h₁]

/-- Measuring leaves the signal strength at this tick. -/
lemma refreshMeters_rssi (s : Radio) :
    (refreshMeters s).regs regRssi = measuredRssi s.regs (s.tick + 1) := by
  simp only [refreshMeters]
  rw [Function.update_of_ne (by decide), Function.update_self]

/-- Measuring leaves the threshold of the squelch. -/
lemma openThresh_refreshMeters (s : Radio) :
    openThresh (refreshMeters s).regs = openThresh s.regs := by
  rw [openThresh, refreshMeters_regs s (by decide) (by decide), openThresh]

/-- The two gates of an evaluation are one. -/
lemma evalReceiver_gate (s : Radio) :
    evalReceiver s =
      if listening s.regs then
        request (announce (refreshMeters s) ((refreshMeters s).regs regRssi))
      else { refreshMeters s with squelchOpen := false } := by
  simp only [evalReceiver, refreshMeters_regs s (show regRxEnable ≠ regRssi by decide) (by decide),
    refreshMeters_regs s (show regIntEnable ≠ regRssi by decide) (by decide), listening]
  split_ifs <;> simp_all

/-- The announcement, once the firmware listens. -/
lemma announce_refreshMeters (s : Radio) (h : listening s.regs = true) :
    announce (refreshMeters s) ((refreshMeters s).regs regRssi) =
      { refreshMeters s with
        pendingInt := s.pendingInt ||| (report s).flag
        squelchOpen := report s = .opened } := by
  have hguard : ((refreshMeters s).tick % 64 = 0 ∧ openThresh (refreshMeters s).regs ≠ 0 ∧
      (refreshMeters s).regs regRssi ≥ openThresh (refreshMeters s).regs) ↔
      (s.tick + 1) % 64 = 0 ∧ signal s := by
    rw [refreshMeters_rssi, openThresh_refreshMeters, refreshMeters_tick, signal]
  simp only [announce]
  by_cases hopen : (s.tick + 1) % 64 = 0 ∧ signal s
  · have hreport : report s = .opened := by simp [report, h, hopen]
    rw [if_pos (hguard.mpr hopen), hreport]
    rfl
  rw [if_neg (mt hguard.mp hopen)]
  cases hsq : s.squelchOpen with
  | true =>
    have hreport : report s = .closed := by simp [report, h, hopen, hsq]
    have hopened : (refreshMeters s).squelchOpen = true := hsq
    rw [if_pos hopened, hreport]
    rfl
  | false =>
    have hreport : report s = .silent := by simp [report, h, hopen, hsq]
    have hshut : ¬ (refreshMeters s).squelchOpen = true := by simp [hsq]
    rw [if_neg hshut, hreport, Report.flag, UInt16.or_zero]
    exact congrArg (fun b => { refreshMeters s with squelchOpen := b }) hsq

/-- **One evaluation, in closed form.** The pending flags gain what is reported, the squelch is
open exactly when it was announced, and the request is raised when the firmware listens and a
flag waits. -/
theorem evalReceiver_eq (s : Radio) :
    evalReceiver s =
      { pendingInt := s.pendingInt ||| (report s).flag
        squelchOpen := report s = .opened
        tick := s.tick + 1
        regs := evalRegs s } := by
  have hkeep : (refreshMeters s).regs regInterrupt = s.regs regInterrupt :=
    refreshMeters_regs s (by decide) (by decide)
  have hsame : Function.update (refreshMeters s).regs regInterrupt (s.regs regInterrupt) =
      (refreshMeters s).regs := by
    rw [← hkeep, Function.update_eq_self]
  rw [evalReceiver_gate]
  cases hl : listening s.regs with
  | false =>
    have hsilent : report s = .silent := by simp [report, hl]
    simp [hsilent, evalRegs, hl, Report.flag, hsame]
  | true =>
    rw [if_pos rfl, announce_refreshMeters s hl, request]
    by_cases hp : s.pendingInt ||| (report s).flag = 0
    · simp [hp, evalRegs, hl, hsame]
    · simp [hp, evalRegs, hl, hkeep]

/-! ## Reports of a close -/

/-- A transaction's evaluation adds `BK4819_INT_SQUELCH_FOUND` to the pending flags. -/
def AddsFound (s : Radio) (t : Txn) : Prop :=
  t = .read regInterrupt ∧ s.pendingInt &&& intSquelchFound = 0 ∧
    (t.apply s).pendingInt &&& intSquelchFound ≠ 0

/-- A close is reported only when the signal is gone: the level just computed is below the
programmed threshold, or none is programmed. -/
def Truthful (s : Radio) (t : Txn) : Prop :=
  AddsFound s t →
    (t.apply s).regs regRssi < openThresh (t.apply s).regs ∨ openThresh (t.apply s).regs = 0

/-- An evaluation between two announcements that finds the squelch still announced open and the
signal still there, with no earlier close waiting. -/
def SignalKept (s : Radio) (t : Txn) : Prop :=
  t = .read regInterrupt ∧ listening s.regs = true ∧ s.squelchOpen = true ∧
    s.pendingInt &&& intSquelchFound = 0 ∧ (s.tick + 1) % 64 ≠ 0 ∧ signal s

/-- A read of `REG_0C` evaluates the receiver. -/
lemma read_interrupt (s : Radio) : (Txn.read regInterrupt).apply s = evalReceiver s := rfl

/-- When a close is reported. -/
lemma report_eq_closed (s : Radio) :
    report s = .closed ↔ listening s.regs = true ∧ s.squelchOpen = true ∧
      ¬ ((s.tick + 1) % 64 = 0 ∧ signal s) := by
  rw [report]
  split_ifs with hl hopen hsq <;> simp_all

/-- An evaluation leaves the signal strength at its tick. -/
lemma evalReceiver_rssi (s : Radio) :
    (evalReceiver s).regs regRssi = measuredRssi s.regs (s.tick + 1) := by
  rw [evalReceiver_eq]
  change evalRegs s regRssi = _
  rw [evalRegs, Function.update_of_ne (by decide), refreshMeters_rssi]

/-- An evaluation leaves all registers but the three it is for. -/
lemma evalReceiver_regs (s : Radio) {r : Reg} (h₁ : r ≠ regRssi) (h₂ : r ≠ regAudioAmp)
    (h₃ : r ≠ regInterrupt) : (evalReceiver s).regs r = s.regs r := by
  rw [evalReceiver_eq]
  change evalRegs s r = _
  rw [evalRegs, Function.update_of_ne h₃, refreshMeters_regs s h₁ h₂]

/-- An evaluation leaves the threshold of the squelch. -/
lemma openThresh_evalReceiver (s : Radio) :
    openThresh (evalReceiver s).regs = openThresh s.regs := by
  rw [openThresh, evalReceiver_regs s (by decide) (by decide) (by decide), openThresh]

/-- Only a report of a close adds the flag. -/
lemma addsFound_iff (s : Radio) :
    AddsFound s (.read regInterrupt) ↔
      s.pendingInt &&& intSquelchFound = 0 ∧ report s = .closed := by
  have hflag : s.pendingInt &&& intSquelchFound = 0 →
      ((s.pendingInt ||| (report s).flag) &&& intSquelchFound ≠ 0 ↔ report s = .closed) := by
    intro hp
    have hdistrib : (s.pendingInt ||| (report s).flag) &&& intSquelchFound =
        (s.pendingInt &&& intSquelchFound) ||| ((report s).flag &&& intSquelchFound) := by
      apply UInt16.toNat_inj.mp
      simp only [UInt16.toNat_or, UInt16.toNat_and, Nat.and_or_distrib_right]
    rw [hdistrib, hp, UInt16.zero_or]
    cases report s <;> decide
  rw [AddsFound, read_interrupt, evalReceiver_eq]
  constructor
  · rintro ⟨-, hp, hadd⟩
    exact ⟨hp, (hflag hp).mp hadd⟩
  · rintro ⟨hp, hclosed⟩
    exact ⟨rfl, hp, (hflag hp).mpr hclosed⟩

/-- **One transaction** reports truthfully unless it is an evaluation that closes an open
squelch between announcements. -/
lemma truthful_iff_not_signalKept (s : Radio) (t : Txn) : Truthful s t ↔ ¬ SignalKept s t := by
  by_cases ht : t = .read regInterrupt
  swap
  · simp [Truthful, AddsFound, SignalKept, ht]
  subst ht
  have hgone : (evalReceiver s).regs regRssi < openThresh (evalReceiver s).regs ∨
      openThresh (evalReceiver s).regs = 0 ↔ ¬ signal s := by
    rw [evalReceiver_rssi, openThresh_evalReceiver, signal, not_and_or, not_not, ge_iff_le,
      UInt16.not_le, or_comm]
  rw [Truthful, addsFound_iff, read_interrupt, hgone, SignalKept, report_eq_closed]
  constructor
  · rintro htrue ⟨-, hl, hsq, hp, htick, hsig⟩
    exact htrue ⟨hp, hl, hsq, fun hopen => htick hopen.1⟩ hsig
  · rintro hkept ⟨hp, hl, hsq, hclosed⟩ hsig
    exact hkept ⟨rfl, hl, hsq, hp, fun htick => hclosed ⟨htick, hsig⟩, hsig⟩

/-- **The exact condition.** Along any run of register transactions from reset, every report of
a close is truthful exactly when no evaluation of the run finds the squelch announced open and
the signal still there at a poll that is not due to announce it again.

**Proof sketch.** Transaction by transaction, with the closed form of an evaluation. -/
theorem truthful_iff (ts : List Txn) :
    Run.AllSteps (fun s t => Txn.apply t s) Truthful resetRadio ts ↔
      Run.AllSteps (fun s t => Txn.apply t s) (fun s t => ¬ SignalKept s t) resetRadio ts :=
  Run.AllSteps.congr truthful_iff_not_signalKept ts resetRadio

/-- The registers after a run that opens the squelch: the receiver on, its interrupt enabled, a
threshold below the noise floor, and 64 polls. -/
def openedRadio : Radio :=
  ([.write regRxEnable 0x0001, .write regIntEnable 0x0004, .write regRssiThresh 0x0100] ++
    List.replicate 64 (.read regInterrupt) : List Txn).foldl (fun s t => t.apply s) resetRadio

/-- The next poll reports a close, and measures a level above the threshold. -/
theorem openedRadio_not_truthful : ¬ Truthful openedRadio (.read regInterrupt) := by
  intro h
  have hadd : AddsFound openedRadio (.read regInterrupt) :=
    ⟨rfl, by decide +kernel, by decide +kernel⟩
  have hthere : ¬ ((Txn.read regInterrupt).apply openedRadio).regs regRssi <
      openThresh ((Txn.read regInterrupt).apply openedRadio).regs := by decide +kernel
  have hthresh : openThresh ((Txn.read regInterrupt).apply openedRadio).regs ≠ 0 := by
    decide +kernel
  exact (h hadd).elim hthere hthresh

end Uvk5.BK4819
