import Mathlib.Tactic.SplitIfs
import Uvk5.Lib.ShiftRegister
import Uvk5.Transceiver.Device

set_option relaxedAutoImplicit false
set_option autoImplicit false

/-!
# Register transactions on the pins of the transceiver

The guest drives three lines by hand. A transaction is 24 clocks inside one chip select: eight
command bits, then sixteen bits of data in one direction or the other. This file compares the
device, edge by edge, with a machine that has registers and no pins.

## Main definitions

* `BK4819.Pin`, `BK4819.pins`, `BK4819.samples` — pin events, and what they do and deliver.
* `BK4819.Txn`, `BK4819.Txn.pins` — a transaction, and the events that carry it out.
* `BK4819.Txn.apply` — what the transaction is for, on the registers alone.
* `BK4819.Act` — a transaction, complete or cut short by releasing chip select.

## Main results

* `BK4819.pins_refine_registers` — from every reachable state, any sequence of transactions,
  aborted ones included, leaves the registers the register machine leaves, and a completed read
  delivers the register it names.

## Design

Three relations follow a transaction: `Shifting` while bits come in, for the command and for
the data of a write, and `Sending` while the data of a read goes out. Between transactions the
device is `Shifting` with nothing collected. An aborted transaction needs no fourth relation:
the registers after `n` events are those after `(n + 1) / 3` whole clocks, because only a
rising edge, the second event of a clock, can change them.
-/

namespace Uvk5.BK4819

open ShiftRegister

/-! ## Pin events -/

/-- An event on the clock or data line. -/
inductive Line where
  /-- Drive the clock. -/
  | scl (level : Bool)
  /-- Drive the data line. -/
  | sda (level : Bool)
  /-- Sample the data line. -/
  | sample

/-- A pin event. -/
inductive Pin where
  /-- Drive chip select, active low. -/
  | cs (level : Bool)
  /-- The other two lines. -/
  | line (l : Line)

/-- The device after an event on the clock or data line. -/
def lineStep (s : State) : Line → State
  | .scl level => setScl s level
  | .sda level => setSda s level
  | .sample => s

/-- The device after a pin event. -/
def pinStep (s : State) : Pin → State
  | .cs level => setCs s level
  | .line l => lineStep s l

/-- The device after a sequence of pin events. -/
def pins (s : State) (ps : List Pin) : State := ps.foldl pinStep s

/-- The levels the guest samples during a sequence of pin events. -/
def samples : State → List Pin → List Bool
  | _, [] => []
  | s, .line .sample :: ps => s.sdaIn :: samples s ps
  | s, p :: ps => samples (pinStep s p) ps

/-- Events in two stages. -/
theorem pins_append (s : State) (ps qs : List Pin) : pins s (ps ++ qs) = pins (pins s ps) qs :=
  List.foldl_append

/-- Samples in two stages. -/
theorem samples_append (s : State) (ps qs : List Pin) :
    samples s (ps ++ qs) = samples s ps ++ samples (pins s ps) qs := by
  induction ps generalizing s with
  | nil => rfl
  | cons p ps ih =>
    rw [List.cons_append]
    match p with
    | .cs level => exact ih (setCs s level)
    | .line (.scl level) => exact ih (setScl s level)
    | .line (.sda level) => exact ih (setSda s level)
    | .line .sample => exact congrArg (s.sdaIn :: ·) (ih s)

/-! ## Transactions -/

/-- One clock of a transaction. -/
inductive Clock where
  /-- The guest sends a bit: set the data line, raise the clock, lower it. -/
  | send (b : Bool)
  /-- The guest receives a bit: sample the data line, raise the clock, lower it. -/
  | receive

/-- The events of a clock. -/
def Clock.pins : Clock → List Pin
  | .send b => [.line (.sda b), .line (.scl true), .line (.scl false)]
  | .receive => [.line .sample, .line (.scl true), .line (.scl false)]

/-- A register transaction. -/
inductive Txn where
  /-- Write a value to a register. -/
  | write (r : Reg) (v : UInt16)
  /-- Read a register. -/
  | read (r : Reg)

/-- The clocks of a transaction: the command byte, its top bit set for a read, and the data,
most significant bits first. -/
def Txn.clocks : Txn → List Clock
  | .write r v => (msbBits 8 r.val).map .send ++ (msbBits 16 v.toNat).map .send
  | .read r => (msbBits 8 (128 + r.val)).map .send ++ List.replicate 16 .receive

/-- The pin events of a sequence of clocks. -/
def clockPins (cs : List Clock) : List Pin := cs.flatMap Clock.pins

/-- The pin events of a transaction. -/
def Txn.pins (t : Txn) : List Pin := clockPins t.clocks

/-! ## The register machine -/

/-- Collect the pending flags into the flag register and drop the request. -/
def acknowledge (s : Radio) : Radio :=
  { s with
    regs := Function.update (Function.update s.regs regIntFlags s.pendingInt)
      regInterrupt (s.regs regInterrupt &&& ~~~1)
    pendingInt := 0 }

/-- **The register machine.** A write stores, and then re-seeds or acknowledges where the
register asks for it; a read of the interrupt register evaluates the receiver once; any other
read changes nothing. -/
def Txn.apply : Txn → Radio → Radio
  | .write r v, s =>
    let s := { s with regs := Function.update s.regs r v }
    if r = regRevision ∧ v.toNat.testBit 15 then seedMeasurements s
    else if r = regIntFlags then acknowledge s
    else s
  | .read r, s => if r = regInterrupt then evalReceiver s else s

/-- What a read delivers. -/
def readValue (s : Radio) (r : Reg) : UInt16 := ((Txn.read r).apply s).regs r

/-- How many pin events settle a transaction: for a read the rising edge of its eighth command
bit, for a write that of its sixteenth data bit. -/
def Txn.deciding : Txn → ℕ
  | .write _ _ => 71
  | .read _ => 23

/-- One act of the guest, begun with chip select asserted and the clock low. -/
inductive Act where
  /-- A transaction to its end; chip select stays asserted. -/
  | txn (t : Txn)
  /-- A transaction cut after `n` events by releasing chip select. The other lines may move
  before the clock goes low and chip select is asserted again. -/
  | abort (t : Txn) (n : ℕ) (noise : List Line)

/-- The pin events of an act. -/
def Act.pins : Act → List Pin
  | .txn t => t.pins
  | .abort t n noise =>
    t.pins.take n ++ (.cs true :: noise.map .line ++ [.line (.scl false), .cs false])

/-- What an act is for: an aborted transaction counts once its deciding edge has come. -/
def Act.apply : Act → Radio → Radio
  | .txn t, s => t.apply s
  | .abort t n _, s => if t.deciding ≤ n then t.apply s else s

/-- The end of a write is the register machine's write. -/
theorem commit_eq_apply (s : Radio) (r : Reg) (v : UInt16) :
    commit s r v = (Txn.write r v).apply s := by
  have hbit : v &&& 0x8000 ≠ 0 ↔ v.toNat.testBit 15 = true := by
    rw [← msb_eq_testBit, msb, bne_iff_ne]
  by_cases hrev : r = regRevision
  · subst hrev
    have hne : ¬ regRevision = regIntFlags := by decide
    simp only [commit, Txn.apply, hbit, if_neg hne]
  · simp only [commit, Txn.apply, hrev, false_and, if_false, acknowledge]
    rfl

/-! ## Between transactions -/

/-- The registers hold `r` and bits are being collected: `n` of them so far, making `a`. They
are the command's while `phase` is `none`, and the data of a write to `c` once it is `some c`. -/
structure Shifting (r : Radio) (phase : Option Reg) (n : ℕ) (a : UInt32) (s : State) : Prop where
  radio : s.toRadio = r
  cs : s.cs = true
  scl : s.scl = false
  bitCount : s.bitCount = n
  shiftIn : s.shiftIn = a
  haveCmd : s.haveCmd = phase.isSome
  cmd : ∀ c, phase = some c → s.cmd = c
  reading : s.reading = false
  skipFalling : s.skipFalling = false

/-- The registers hold `r` and the data of a read goes out: `n` bits are gone and `w` is left. -/
structure Sending (r : Radio) (w : UInt16) (n : ℕ) (s : State) : Prop where
  radio : s.toRadio = r
  cs : s.cs = true
  scl : s.scl = false
  bitCount : s.bitCount = n
  shiftIn : s.shiftIn = 0
  shiftOut : s.shiftOut = w
  haveCmd : s.haveCmd = true
  reading : s.reading = true
  skipFalling : s.skipFalling = false
  sdaIn : s.sdaIn = msb w

/-- Ready for a transaction: selected, the clock low, nothing collected. -/
def Ready (r : Radio) (s : State) : Prop := Shifting r none 0 0 s

/-- While deselected, nothing is left of any transfer. -/
def IdleDeselected (s : State) : Prop :=
  s.cs = false → s.bitCount = 0 ∧ s.shiftIn = 0 ∧ s.haveCmd = false ∧ s.reading = false ∧
    s.skipFalling = false

/-- After a reset the receiver is not selected, and in the middle of nothing. -/
theorem idleDeselected_reset (s : State) : IdleDeselected (reset s) :=
  fun _ => ⟨rfl, rfl, rfl, rfl, rfl⟩

/-- While it is not selected the clock is noted, and nothing else happens. -/
theorem setScl_deselected {s : State} (h : s.cs = false) (level : Bool) :
    setScl s level = { s with scl := level } := by
  simp [setScl, h]

/-! Edges of the clock leave the other lines alone, and a falling edge also the registers. -/

/-- Driving the data line leaves chip select. -/
@[simp] theorem updateSda_cs (s : State) : (updateSda s).cs = s.cs := by
  rw [updateSda]; split_ifs <;> rfl

/-- Driving the data line leaves the clock. -/
@[simp] theorem updateSda_scl (s : State) : (updateSda s).scl = s.scl := by
  rw [updateSda]; split_ifs <;> rfl

/-- Driving the data line leaves the registers. -/
@[simp] theorem updateSda_radio (s : State) : (updateSda s).toRadio = s.toRadio := by
  rw [updateSda]; split_ifs <;> rfl

/-- A rising edge leaves chip select and the clock. -/
theorem risingEdge_lines (s : State) :
    (risingEdge s).cs = s.cs ∧ (risingEdge s).scl = s.scl := by
  have hlatch : ∀ s, (latchCommand s).cs = s.cs ∧ (latchCommand s).scl = s.scl := by
    intro s
    simp only [latchCommand]
    split_ifs <;> simp
  have hcommit : ∀ s, (commitWrite s).cs = s.cs ∧ (commitWrite s).scl = s.scl :=
    fun _ => ⟨rfl, rfl⟩
  simp only [risingEdge]
  split_ifs
  · exact hlatch _
  · exact ⟨rfl, rfl⟩
  · exact hcommit _
  · exact ⟨rfl, rfl⟩
  · exact ⟨rfl, rfl⟩

/-- A falling edge leaves the lines of the host and the registers. -/
theorem fallingEdge_frame (s : State) :
    (fallingEdge s).cs = s.cs ∧ (fallingEdge s).scl = s.scl ∧
      (fallingEdge s).toRadio = s.toRadio := by
  simp only [fallingEdge]
  split_ifs <;> simp

/-- A change of the clock changes the clock only, among the lines of the host. -/
theorem setScl_lines (s : State) (level : Bool) :
    (setScl s level).cs = s.cs ∧ (setScl s level).scl = level := by
  simp only [setScl]
  split_ifs
  · exact ⟨rfl, rfl⟩
  · exact risingEdge_lines _
  · exact ⟨(fallingEdge_frame _).1, (fallingEdge_frame _).2.1⟩
  · exact ⟨rfl, rfl⟩

/-- A falling clock leaves the registers. -/
theorem setScl_low_radio (s : State) : (setScl s false).toRadio = s.toRadio := by
  simp only [setScl, Bool.false_and]
  split_ifs
  · rfl
  · contradiction
  · exact (fallingEdge_frame _).2.2
  · rfl

/-- Not to be selected is to be idle: one pin event keeps that so. -/
theorem IdleDeselected.pinStep {s : State} (h : IdleDeselected s) (p : Pin) :
    IdleDeselected (pinStep s p) := by
  match p with
  | .cs true =>
    intro _
    cases hcs : s.cs with
    | true => simp [BK4819.pinStep, setCs, hcs]
    | false => simpa [BK4819.pinStep, setCs, hcs] using h hcs
  | .cs false => exact fun hc => by simp [BK4819.pinStep, setCs] at hc
  | .line (.scl level) =>
    intro hc
    have hcs : s.cs = false := (setScl_lines s level).1.symm.trans hc
    rw [BK4819.pinStep, lineStep, setScl_deselected hcs]
    exact h hcs
  | .line (.sda level) => exact h
  | .line .sample => exact h

/-- Any pin events keep that so. -/
theorem IdleDeselected.pins {s : State} (h : IdleDeselected s) (ps : List Pin) :
    IdleDeselected (pins s ps) := by
  induction ps generalizing s with
  | nil => exact h
  | cons p ps ih => exact ih (h.pinStep p)

/-- The registers and chip select while deselected: no line event changes them. -/
theorem lines_deselected (noise : List Line) {s : State} (h : s.cs = false) :
    (pins s (noise.map .line)).cs = false ∧
      (pins s (noise.map .line)).toRadio = s.toRadio := by
  induction noise generalizing s with
  | nil => exact ⟨h, rfl⟩
  | cons l noise ih =>
    have hstep : (lineStep s l).cs = false ∧ (lineStep s l).toRadio = s.toRadio := by
      cases l with
      | scl level => rw [lineStep, setScl_deselected h]; exact ⟨h, rfl⟩
      | sda level => exact ⟨h, rfl⟩
      | sample => exact ⟨h, rfl⟩
    have hrest := ih hstep.1
    exact ⟨hrest.1, hrest.2.trans hstep.2⟩

/-- Chip select leaves the registers. -/
theorem setCs_radio (s : State) (level : Bool) : (setCs s level).toRadio = s.toRadio := by
  simp only [setCs]
  split_ifs <;> rfl

/-- **Reselecting.** Releasing chip select, moving the lines, lowering the clock and asserting
chip select leaves the registers alone and the device ready, whatever it was doing. -/
theorem ready_reselect {s : State} (h : IdleDeselected s) (noise : List Line) :
    Ready s.toRadio
      (pins s (.cs true :: noise.map .line ++ [.line (.scl false), .cs false])) := by
  have hdesel : (setCs s true).cs = false := rfl
  obtain ⟨hcs, hradio⟩ := lines_deselected noise hdesel
  have hidle := ((h.pinStep (.cs true)).pins (noise.map .line)) hcs
  rw [List.cons_append, pins, List.foldl_cons, ← pins, pins_append]
  change Ready _ (setCs (setScl (pins (setCs s true) _) false) false)
  rw [setScl_deselected hcs]
  obtain ⟨hbit, hshift, hhave, hread, hskip⟩ := hidle
  exact
    { radio := by rw [setCs_radio]; exact hradio.trans (setCs_radio s true)
      cs := rfl
      scl := rfl
      bitCount := hbit
      shiftIn := hshift
      haveCmd := hhave
      cmd := fun _ hc => by cases hc
      reading := hread
      skipFalling := hskip }

/-! ## One clock -/

/-- A bit before the last of its phase is collected. -/
theorem Shifting.send {r : Radio} {phase : Option Reg} {n : ℕ} {a : UInt32} {s : State}
    (h : Shifting r phase n a s) (b : Bool) (hn : n + 1 < if phase.isSome then 16 else 8) :
    Shifting r phase (n + 1) (ShiftRegister.shiftIn a b) (pins s (Clock.send b).pins) := by
  obtain ⟨hradio, hcs, hscl, hbit, hshift, hhave, hcmd, hread, hskip⟩ := h
  cases phase with
  | none =>
    have h8 : ¬ n + 1 = 8 := by simp at hn; omega
    constructor <;>
      simp_all [Clock.pins, pins, pinStep, lineStep, setSda, setScl, risingEdge,
        fallingEdge, shiftBit, ShiftRegister.shiftIn]
  | some c =>
    have h16 : ¬ n + 1 = 16 := by simp at hn; omega
    constructor <;>
      simp_all [Clock.pins, pins, pinStep, lineStep, setSda, setScl, risingEdge,
        fallingEdge, shiftBit, ShiftRegister.shiftIn]

/-- The last command bit of a write opens its data phase. -/
theorem Shifting.latch_write {r : Radio} {a : UInt32} {s : State} (h : Shifting r none 7 a s)
    (b : Bool) {c : Reg} (hread : ShiftRegister.shiftIn a b &&& 0x80 = 0)
    (hc : cmdOf (ShiftRegister.shiftIn a b) = c) :
    Shifting r (some c) 0 0 (pins s (Clock.send b).pins) := by
  obtain ⟨hradio, hcs, hscl, hbit, hshift, hhave, -, -, hskip⟩ := h
  rw [ShiftRegister.shiftIn] at hread hc
  constructor <;>
    simp_all [Clock.pins, pins, pinStep, lineStep, setSda, setScl, risingEdge, fallingEdge,
      shiftBit, latchCommand]

/-- The last command bit of a read fetches the register and drives its top bit. -/
theorem Shifting.latch_read {r : Radio} {a : UInt32} {s : State} (h : Shifting r none 7 a s)
    (b : Bool) {c : Reg} (hread : ShiftRegister.shiftIn a b &&& 0x80 ≠ 0)
    (hc : cmdOf (ShiftRegister.shiftIn a b) = c) :
    Sending ((Txn.read c).apply r) (readValue r c) 0 (pins s (Clock.send b).pins) := by
  obtain ⟨hradio, hcs, hscl, hbit, hshift, hhave, -, -, hskip⟩ := h
  rw [ShiftRegister.shiftIn] at hread hc
  by_cases hint : c = regInterrupt
  · constructor <;>
      simp_all [Clock.pins, pins, pinStep, lineStep, setSda, setScl, risingEdge, fallingEdge,
        shiftBit, latchCommand, updateSda, readValue, Txn.apply, msb]
  · constructor <;>
      simp_all [Clock.pins, pins, pinStep, lineStep, setSda, setScl, risingEdge, fallingEdge,
        shiftBit, latchCommand, updateSda, readValue, Txn.apply, msb]

/-- The last data bit of a write commits it and ends the transaction. -/
theorem Shifting.commit {r : Radio} {c : Reg} {a : UInt32} {s : State}
    (h : Shifting r (some c) 15 a s) (b : Bool) {v : UInt16}
    (hv : (ShiftRegister.shiftIn a b).toUInt16 = v) :
    Ready ((Txn.write c v).apply r) (pins s (Clock.send b).pins) := by
  obtain ⟨hradio, hcs, hscl, hbit, hshift, hhave, hcmd, hread, hskip⟩ := h
  have hc := hcmd c rfl
  rw [ShiftRegister.shiftIn] at hv
  rw [← commit_eq_apply]
  constructor <;>
    simp_all [Clock.pins, pins, pinStep, lineStep, setSda, setScl, risingEdge, fallingEdge,
      shiftBit, commitWrite]

/-- A clock of a read delivers the top bit and moves the next one up. -/
theorem Sending.receive {r : Radio} {w : UInt16} {n : ℕ} {s : State} (h : Sending r w n s)
    (hn : n + 1 < 16) :
    Sending r (w <<< 1) (n + 1) (pins s Clock.receive.pins) ∧
      samples s Clock.receive.pins = [msb w] := by
  obtain ⟨hradio, hcs, hscl, hbit, hshift, hout, hhave, hread, hskip, hsda⟩ := h
  refine ⟨?_, by rw [← hsda]; rfl⟩
  constructor <;>
    simp_all [Clock.pins, pins, pinStep, lineStep, setScl, risingEdge, fallingEdge, updateSda,
      msb] <;>
    rw [if_neg (by omega)]

/-- The last clock of a read ends the transaction. -/
theorem Sending.last {r : Radio} {w : UInt16} {s : State} (h : Sending r w 15 s) :
    Ready r (pins s Clock.receive.pins) ∧ samples s Clock.receive.pins = [msb w] := by
  obtain ⟨hradio, hcs, hscl, hbit, hshift, hout, hhave, hread, hskip, hsda⟩ := h
  refine ⟨?_, by rw [← hsda]; rfl⟩
  constructor <;>
    simp_all [Clock.pins, pins, pinStep, lineStep, setScl, risingEdge, fallingEdge, updateSda]

/-! ## Whole transactions -/

/-- The pin events of some clocks and of those after them. -/
theorem clockPins_append (cs ds : List Clock) :
    clockPins (cs ++ ds) = clockPins cs ++ clockPins ds := List.flatMap_append

/-- The device after a first clock and the rest. -/
theorem pins_clockPins_cons (s : State) (c : Clock) (cs : List Clock) :
    pins s (clockPins (c :: cs)) = pins (pins s c.pins) (clockPins cs) := by
  rw [clockPins, List.flatMap_cons, pins_append, clockPins]

/-- What is sampled in a first clock and in the rest. -/
theorem samples_clockPins_cons (s : State) (c : Clock) (cs : List Clock) :
    samples s (clockPins (c :: cs)) =
      samples s c.pins ++ samples (pins s c.pins) (clockPins cs) := by
  rw [clockPins, List.flatMap_cons, samples_append, clockPins]

/-- Bits that do not fill the phase are collected. -/
theorem Shifting.sends {r : Radio} {phase : Option Reg} (bits : List Bool) {n : ℕ} {a : UInt32}
    {s : State} (h : Shifting r phase n a s)
    (hn : n + bits.length < if phase.isSome then 16 else 8) :
    Shifting r phase (n + bits.length) (bits.foldl ShiftRegister.shiftIn a)
      (pins s (clockPins (bits.map .send))) := by
  induction bits generalizing n a s with
  | nil => exact h
  | cons b bits ih =>
    rw [List.length_cons] at hn ⊢
    have hnext := ih (h.send b (by omega)) (by omega)
    rw [List.map_cons, pins_clockPins_cons, List.foldl_cons]
    rwa [show n + 1 + bits.length = n + (bits.length + 1) by omega] at hnext

/-- What the command byte names. -/
theorem cmdOf_eq {a : UInt32} {c : Reg} (h : a.toNat % 128 = c.val) : cmdOf a = c := by
  apply Fin.ext
  change (a &&& 0x7f).toNat = c.val
  rw [UInt32.toNat_and, ← h]
  exact Nat.and_two_pow_sub_one_eq_mod _ 7

/-- Whether the command byte asks for a read. -/
theorem and_0x80_eq_zero (a : UInt32) : a &&& 0x80 = 0 ↔ a.toNat.testBit 7 = false := by
  have hmask : (0x80 : UInt32).toNat = 2 ^ 7 := rfl
  rw [← UInt32.toNat_inj, UInt32.toNat_and, hmask, Nat.and_two_pow]
  cases a.toNat.testBit 7 <;> simp

/-- The command byte of a write. -/
theorem Shifting.command_write {r : Radio} {s : State} (h : Ready r s) (c : Reg) :
    Shifting r (some c) 0 0 (pins s (clockPins ((msbBits 8 c.val).map .send))) := by
  have hlen : 0 + (msbBits 7 (c.val / 2)).length < 8 := by rw [length_msbBits]; omega
  have hbits := h.sends _ hlen
  rw [length_msbBits] at hbits
  have hword := toNat_shiftIn_last (n := 7) (v := c.val) (by omega) (by have := c.isLt; omega)
  rw [msbBits_succ_eq, List.map_append, clockPins_append, pins_append]
  apply hbits.latch_write
  · rw [and_0x80_eq_zero, hword]
    exact Nat.testBit_lt_two_pow c.isLt
  · exact cmdOf_eq (by rw [hword]; exact Nat.mod_eq_of_lt c.isLt)

/-- The command byte of a read. -/
theorem Shifting.command_read {r : Radio} {s : State} (h : Ready r s) (c : Reg) :
    Sending ((Txn.read c).apply r) (readValue r c) 0
      (pins s (clockPins ((msbBits 8 (128 + c.val)).map .send))) := by
  have hlen : 0 + (msbBits 7 ((128 + c.val) / 2)).length < 8 := by rw [length_msbBits]; omega
  have hbits := h.sends _ hlen
  rw [length_msbBits] at hbits
  have hlt := c.isLt
  have hword := toNat_shiftIn_last (n := 7) (v := 128 + c.val) (by omega) (by omega)
  rw [msbBits_succ_eq, List.map_append, clockPins_append, pins_append]
  apply hbits.latch_read
  · have htop := Nat.testBit_two_pow_add_eq c.val 7
    have hlow : c.val.testBit 7 = false := Nat.testBit_lt_two_pow hlt
    rw [hlow] at htop
    rw [ne_eq, and_0x80_eq_zero, hword]
    exact ne_of_eq_of_ne htop (by decide)
  · exact cmdOf_eq (by rw [hword]; omega)

/-- The data of a write. -/
theorem Shifting.data_write {r : Radio} {c : Reg} {s : State} (h : Shifting r (some c) 0 0 s)
    (v : UInt16) :
    Ready ((Txn.write c v).apply r) (pins s (clockPins ((msbBits 16 v.toNat).map .send))) := by
  have hlen : 0 + (msbBits 15 (v.toNat / 2)).length < 16 := by rw [length_msbBits]; omega
  have hbits := h.sends _ hlen
  rw [length_msbBits] at hbits
  have hlt := v.toNat_lt
  have hword := toNat_shiftIn_last (n := 15) (v := v.toNat) (by omega) hlt
  rw [msbBits_succ_eq, List.map_append, clockPins_append, pins_append]
  apply hbits.commit
  rw [← UInt16.toNat_inj, UInt32.toNat_toUInt16, hword]
  exact Nat.mod_eq_of_lt hlt

/-- Clocks that leave some of the data behind. -/
theorem Sending.receives {r : Radio} (k : ℕ) {w : UInt16} {n : ℕ} {s : State}
    (h : Sending r w n s) (hn : n + k < 16) :
    ∃ w', Sending r w' (n + k) (pins s (clockPins (List.replicate k .receive))) := by
  induction k generalizing w n s with
  | zero => exact ⟨w, h⟩
  | succ k ih =>
    obtain ⟨w', hw'⟩ := ih (h.receive (by omega)).1 (by omega)
    refine ⟨w', ?_⟩
    rw [List.replicate_succ, pins_clockPins_cons]
    rwa [show n + 1 + k = n + (k + 1) by omega] at hw'

/-- **The data of a read.** With `k` bits to go, the guest samples the low `k` bits of any `u`
whose bits are the top ones left in the shift register, and the transaction ends. -/
theorem Sending.data_read {r : Radio} (k : ℕ) {u : ℕ} {w : UInt16} {n : ℕ} {s : State}
    (h : Sending r w n s) (hn : n + (k + 1) = 16)
    (hu : ∀ i, i ≤ k → w.toNat.testBit (15 - i) = u.testBit (k - i)) :
    Ready r (pins s (clockPins (List.replicate (k + 1) .receive))) ∧
      samples s (clockPins (List.replicate (k + 1) .receive)) = msbBits (k + 1) u := by
  have hmsb : msb w = u.testBit k := by rw [msb_eq_testBit]; exact hu 0 (by omega)
  rw [List.replicate_succ, pins_clockPins_cons, samples_clockPins_cons, msbBits]
  induction k generalizing w n s with
  | zero =>
    obtain rfl : n = 15 := by omega
    obtain ⟨hready, hsample⟩ := h.last
    exact ⟨hready, by rw [hsample, hmsb]; rfl⟩
  | succ k ih =>
    obtain ⟨hnext, hsample⟩ := h.receive (by omega)
    have hshift : ∀ i, i ≤ k → (w <<< 1).toNat.testBit (15 - i) = u.testBit (k - i) := by
      intro i hi
      have hbit := hu (i + 1) (by omega)
      rw [show 15 - i = (14 - i) + 1 by omega, testBit_shiftLeft_one w (by omega)]
      rwa [show 15 - (i + 1) = 14 - i by omega, show k + 1 - (i + 1) = k - i by omega] at hbit
    have hrest := ih hnext (by omega) hshift (by rw [msb_eq_testBit]; exact hshift 0 (by omega))
    rw [hsample, hmsb, List.replicate_succ, pins_clockPins_cons, samples_clockPins_cons, msbBits,
      hrest.2]
    exact ⟨hrest.1, rfl⟩

/-- **A complete transaction** does what the register machine does, and leaves the device ready
for the next one. -/
theorem Ready.txn {r : Radio} {s : State} (h : Ready r s) (t : Txn) :
    Ready (t.apply r) (pins s t.pins) := by
  cases t with
  | write c v =>
    rw [Txn.pins, Txn.clocks, clockPins_append, pins_append]
    exact (Shifting.command_write h c).data_write v
  | read c =>
    rw [Txn.pins, Txn.clocks, clockPins_append, pins_append]
    have hsending := Shifting.command_read h c
    exact (hsending.data_read 15 (by omega) (fun i _ => rfl)).1

/-- **A complete read** delivers the register it names. -/
theorem Ready.samples_read {r : Radio} {s : State} (h : Ready r s) (c : Reg) :
    samples s (Txn.read c).pins = msbBits 16 (readValue r c).toNat := by
  have hsending := Shifting.command_read h c
  have hcommand : ∀ (bits : List Bool) (s : State),
      samples s (clockPins (bits.map .send)) = [] := by
    intro bits
    induction bits with
    | nil => exact fun _ => rfl
    | cons b bits ih =>
      intro s
      rw [List.map_cons, samples_clockPins_cons, ih]
      rfl
  rw [Txn.pins, Txn.clocks, clockPins_append, samples_append, hcommand, List.nil_append]
  exact (hsending.data_read 15 (by omega) (fun i _ => rfl)).2

/-! ## Aborted transactions -/

/-- The clocks after which a transaction has had its effect. -/
def Txn.decidingClocks : Txn → ℕ
  | .write _ _ => 24
  | .read _ => 8

/-- The registers after the first `k` clocks of a transaction.

**Proof sketch.** By the number of clocks. During the command nothing is decided; a read is
decided when the command ends, a write with its last bit of data. -/
theorem Ready.take_clocks {r : Radio} {s : State} (h : Ready r s) (t : Txn) (k : ℕ) :
    (pins s (clockPins (t.clocks.take k))).toRadio =
      if t.decidingClocks ≤ k then t.apply r else r := by
  have hshort : ∀ v, k < 8 →
      (pins s (clockPins (((msbBits 8 v).map Clock.send).take k))).toRadio = r := by
    intro v hk
    have hlen : 0 + ((msbBits 8 v).take k).length < 8 := by
      rw [List.length_take, length_msbBits]; omega
    rw [← List.map_take]
    exact (h.sends _ hlen).radio
  cases t with
  | write c v =>
    rw [Txn.clocks, Txn.decidingClocks, List.take_append, List.length_map, length_msbBits]
    rcases Nat.lt_or_ge k 8 with hk | hk
    · rw [if_neg (by omega), show k - 8 = 0 by omega, List.take_zero, List.append_nil]
      exact hshort _ hk
    · rw [List.take_of_length_le (by simpa using hk), clockPins_append, pins_append]
      have hdata := Shifting.command_write h c
      rcases Nat.lt_or_ge k 24 with hk' | hk'
      · have hlen : 0 + ((msbBits 16 v.toNat).take (k - 8)).length < 16 := by
          rw [List.length_take, length_msbBits]; omega
        rw [if_neg (by omega), ← List.map_take]
        exact (hdata.sends _ hlen).radio
      · rw [if_pos hk', List.take_of_length_le (by simp; omega)]
        exact (hdata.data_write v).radio
  | read c =>
    rw [Txn.clocks, Txn.decidingClocks, List.take_append, List.length_map, length_msbBits]
    rcases Nat.lt_or_ge k 8 with hk | hk
    · rw [if_neg (by omega), show k - 8 = 0 by omega, List.take_zero, List.append_nil]
      exact hshort _ hk
    · rw [if_pos hk, List.take_of_length_le (by simpa using hk), clockPins_append, pins_append,
        List.take_replicate]
      have hdata := Shifting.command_read h c
      rcases Nat.lt_or_ge (k - 8) 16 with hk' | hk'
      · obtain ⟨w, hw⟩ := hdata.receives (min (k - 8) 16) (by omega)
        exact hw.radio
      · rw [Nat.min_eq_right hk']
        exact (hdata.data_read 15 (by omega) (fun i _ => rfl)).1.radio

/-- The lines after one clock, and the registers inside it: only its rising edge, the second
event, can change them. -/
theorem clock_prefix {s : State} (c : Clock) (hcs : s.cs = true) (hscl : s.scl = false) :
    (pins s c.pins).cs = true ∧ (pins s c.pins).scl = false ∧
      (pins s (c.pins.take 1)).toRadio = s.toRadio ∧
      (pins s (c.pins.take 2)).toRadio = (pins s c.pins).toRadio := by
  have hclock : ∀ s', s'.cs = true → s'.scl = false → s'.toRadio = s.toRadio →
      (setScl (setScl s' true) false).cs = true ∧ (setScl (setScl s' true) false).scl = false ∧
      s'.toRadio = s.toRadio ∧
      (setScl s' true).toRadio = (setScl (setScl s' true) false).toRadio := by
    intro s' hcs' _ hradio'
    refine ⟨?_, (setScl_lines _ _).2, hradio', (setScl_low_radio _).symm⟩
    rw [(setScl_lines _ _).1, (setScl_lines _ _).1, hcs']
  cases c with
  | send b => exact hclock (setSda s b) hcs hscl rfl
  | receive => exact hclock s hcs hscl rfl

/-- **The registers inside a transaction** after `n` events are those after `(n + 1) / 3`
clocks. -/
theorem take_clockPins (cs : List Clock) : ∀ (n : ℕ) {s : State}, s.cs = true → s.scl = false →
    (pins s ((clockPins cs).take n)).toRadio =
      (pins s (clockPins (cs.take ((n + 1) / 3)))).toRadio := by
  induction cs with
  | nil => intro n s _ _; simp [clockPins]
  | cons c cs ih =>
    intro n s hcs hscl
    obtain ⟨hcs', hscl', hone, htwo⟩ := clock_prefix c hcs hscl
    have hlen : c.pins.length = 3 := by cases c <;> rfl
    have hcons : clockPins (c :: cs) = c.pins ++ clockPins cs := List.flatMap_cons
    rw [hcons, List.take_append, hlen]
    match n with
    | 0 => rfl
    | 1 => rw [List.take_zero, List.append_nil, hone]; rfl
    | 2 =>
      rw [List.take_zero, List.append_nil, htwo]
      change _ = (pins s (clockPins [c])).toRadio
      rw [clockPins, List.flatMap_singleton]
    | n + 3 =>
      rw [List.take_of_length_le (by omega), pins_append, show n + 3 - 3 = n by omega,
        ih n hcs' hscl', show (n + 3 + 1) / 3 = (n + 1) / 3 + 1 by omega, List.take_succ_cons,
        pins_clockPins_cons]

/-- **An aborted transaction** has its effect if its deciding edge had come, and none
otherwise, and leaves the device ready. -/
theorem Ready.abort {r : Radio} {s : State} (h : Ready r s) (t : Txn) (n : ℕ)
    (noise : List Line) :
    Ready ((Act.abort t n noise).apply r) (pins s (Act.abort t n noise).pins) := by
  have hidle : IdleDeselected s := fun hc => by rw [h.cs] at hc; cases hc
  have hradio : (pins s (t.pins.take n)).toRadio = (Act.abort t n noise).apply r := by
    rw [Txn.pins, take_clockPins _ n h.cs h.scl, h.take_clocks t]
    cases t with
    | write c v => simp only [Act.apply, Txn.deciding, Txn.decidingClocks]; congr 1; simp; omega
    | read c => simp only [Act.apply, Txn.deciding, Txn.decidingClocks]; congr 1; simp; omega
  rw [Act.pins, pins_append, ← hradio]
  exact ready_reselect (hidle.pins _) noise

/-- A sequence of acts, aborted ones included. -/
theorem Ready.acts (acts : List Act) {r : Radio} {s : State} (h : Ready r s) :
    Ready (acts.foldl (fun r a => a.apply r) r) (pins s (acts.flatMap Act.pins)) := by
  induction acts generalizing r s with
  | nil => exact h
  | cons a acts ih =>
    have hone : Ready (a.apply r) (pins s a.pins) := by
      cases a with
      | txn t => exact h.txn t
      | abort t n noise => exact h.abort t n noise
    rw [List.flatMap_cons, pins_append]
    exact ih hone

/-- **The pins refine the registers.** Take any reachable state, assert chip select with the
clock low, and drive any sequence of transactions, each complete or cut short anywhere. The
registers and the receiver are then those of the register machine, and a read that follows
samples the register it names, most significant bit first.

**Proof sketch.** Whatever the history left behind, releasing chip select clears it, so the
device is ready; every act leaves it ready again with the registers the machine says. -/
theorem pins_refine_registers (s₀ : State) (history : List Pin) (acts : List Act) :
    let s := pins (reset s₀) history
    let s' := pins s ([.cs true, .line (.scl false), .cs false] ++ acts.flatMap Act.pins)
    let r := acts.foldl (fun r a => a.apply r) s.toRadio
    s'.toRadio = r ∧
      ∀ c, samples s' (Txn.read c).pins = msbBits 16 (((Txn.read c).apply r).regs c).toNat := by
  intro s s' r
  have hready : Ready s.toRadio (pins s [.cs true, .line (.scl false), .cs false]) :=
    ready_reselect ((idleDeselected_reset s₀).pins history) []
  have hacts : Ready r s' := by
    change Ready r (pins s (_ ++ _))
    rw [pins_append]
    exact hready.acts acts
  exact ⟨hacts.radio, fun c => hacts.samples_read c⟩

end Uvk5.BK4819
