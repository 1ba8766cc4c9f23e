import Mathlib.Data.Nat.Notation
import Mathlib.Logic.Function.Basic
import Mathlib.Data.Fin.Basic

set_option relaxedAutoImplicit false
set_option autoImplicit false

/-!
# The BK4819 transceiver (`qemu/py32f071.c`)

The register interface of the radio chip on its software-driven three-wire bus: chip select,
clock and data lines in, one data line out. Rising clock edges shift a command byte and the
data of a write in; falling edges shift the data of a read out.

## Main definitions

* `BK4819.State` — the device state.
* `BK4819.setCs`, `BK4819.setScl`, `BK4819.setSda` — `bk4819_set_cs`, `bk4819_set_scl`,
  `bk4819_set_sda`.
* `BK4819.rssiFor` — `bk4819_rssi_for`, `BK4819.evalReceiver` — `bk4819_eval_receiver`,
  `BK4819.seedMeasurements` — `bk4819_seed_measurements`, `BK4819.reset` — `bk4819_reset`.

## Design

The register number has seven bits and is carried as an index into the 128 registers. `sdaIn`
is the level last driven on the line the guest samples. The bit counter never exceeds sixteen.
The probe that reassembles the bits clocked out (`out_seen`, `out_bits`) is written and never
read by the device, and is left out.
-/

namespace Uvk5.BK4819

/-! ## Registers -/

/-- A register number. -/
abbrev Reg := Fin 128

/-- The register file. -/
abbrev Regs := Reg → UInt16

/-- `BK4819_REG_REVISION`; bit 15 of a write is a soft reset. -/
def regRevision : Reg := 0x00
/-- `BK4819_REG_INT_FLAGS`: which interrupts; written to acknowledge. -/
def regIntFlags : Reg := 0x02
/-- `BK4819_REG_INTERRUPT`: bit 0 is the pending request. -/
def regInterrupt : Reg := 0x0C
/-- `BK4819_REG_RX_ENABLE`. -/
def regRxEnable : Reg := 0x30
/-- The low half of the tuned frequency. -/
def regFreqLow : Reg := 0x38
/-- The high half of the tuned frequency. -/
def regFreqHigh : Reg := 0x39
/-- `BK4819_REG_INT_ENABLE`: which interrupts the firmware wants. -/
def regIntEnable : Reg := 0x3F
/-- `BK4819_REG_GLITCH`. -/
def regGlitch : Reg := 0x63
/-- `BK4819_REG_AUDIO_AMP`. -/
def regAudioAmp : Reg := 0x64
/-- `BK4819_REG_NOISE`. -/
def regNoise : Reg := 0x65
/-- `BK4819_REG_RSSI`. -/
def regRssi : Reg := 0x67
/-- `BK4819_REG_RSSI_THRESH`: the open level in bits 15:8, 0.5 dB a step. -/
def regRssiThresh : Reg := 0x78

/-- `BK4819_INT_SQUELCH_LOST`: the squelch opened, a signal is there. -/
def intSquelchLost : UInt16 := (1 : UInt16) <<< 2
/-- `BK4819_INT_SQUELCH_FOUND`: the squelch closed again. -/
def intSquelchFound : UInt16 := (1 : UInt16) <<< 3
/-- `BK4819_REG_30_ENABLE_RX_DSP`. -/
def enableRxDsp : UInt16 := (1 : UInt16) <<< 0

/-- The part of `BK4819State` behind the bus: the registers and the receiver. -/
structure Radio where
  /-- Interrupt flags awaiting collection. -/
  pendingInt : UInt16
  /-- The squelch was announced open. -/
  squelchOpen : Bool
  /-- Evaluations so far. -/
  tick : UInt32
  /-- The register file. -/
  regs : Regs

/-- `BK4819State`. -/
structure State extends Radio where
  /-- Selected. -/
  cs : Bool
  /-- The clock line. -/
  scl : Bool
  /-- The data line as the guest drives it. -/
  sdaOut : Bool
  /-- Bits shifted since the phase began. -/
  bitCount : ℕ
  /-- Bits clocked in from the guest. -/
  shiftIn : UInt32
  /-- The register number, once known. -/
  cmd : Reg
  /-- The command byte is complete. -/
  haveCmd : Bool
  /-- The command is a read. -/
  reading : Bool
  /-- The next falling edge is the command byte's trailing edge. -/
  skipFalling : Bool
  /-- Bits being clocked out to the guest. -/
  shiftOut : UInt16
  /-- The level driven on the guest's data input. -/
  sdaIn : Bool

/-! ## The receiver -/

/-- `bk4819_seed_measurements`: values for the registers hardware keeps updating. -/
def seedMeasurements (s : Radio) : Radio :=
  { s with regs := Function.update (Function.update (Function.update (Function.update s.regs
      regInterrupt 0x0000) regRssi 0x01E0) regGlitch 0x0010) regNoise 0x0010 }

/-- `bk4819_tuned_hz10`: the tuned frequency in units of 10 Hz. -/
def tunedHz10 (regs : Regs) : UInt32 :=
  ((regs regFreqHigh).toUInt32 <<< 16) ||| (regs regFreqLow).toUInt32

/-- `BK4819Station`: a centre frequency in units of 10 Hz and the level there. -/
structure Station where
  /-- The centre frequency. -/
  hz10 : UInt32
  /-- The level at the centre, in RSSI counts. -/
  peakRssi : UInt16

/-- `bk4819_stations`. -/
def stations : List Station :=
  [⟨40000000, 0x01E0⟩, ⟨40012500, 0x0170⟩, ⟨43550000, 0x01A8⟩, ⟨14550000, 0x0150⟩]

/-- `BK4819_NOISE_FLOOR`. -/
def noiseFloor : UInt16 := 0x008C

/-- `BK4819_FADE_STEP_HZ10`. -/
def fadeStepHz10 : UInt32 := 1250

/-- `BK4819_FADE_PER_STEP`. -/
def fadePerStep : UInt32 := 0x30

/-- The best level so far, after one more station. -/
def betterLevel (tuned : UInt32) (best : UInt16) (station : Station) : UInt16 :=
  let centre := station.hz10
  let offset := if tuned > centre then tuned - centre else centre - tuned
  let fade := offset / fadeStepHz10 * fadePerStep
  if fade ≥ station.peakRssi.toUInt32 then best
  else
    let level := (station.peakRssi.toUInt32 - fade).toUInt16
    if level > best then level else best

/-- `bk4819_rssi_for`: the level at the tuned frequency. -/
def rssiFor (regs : Regs) : UInt16 :=
  let tuned := tunedHz10 regs
  if tuned = 0 then noiseFloor else stations.foldl (betterLevel tuned) noiseFloor

/-- The threshold the firmware programmed, in RSSI counts. -/
def openThresh (regs : Regs) : UInt16 := ((regs regRssiThresh >>> 8) &&& 0xff) * 2

/-- The level an evaluation at `tick` measures: the tuned level with a little jitter. -/
def measuredRssi (regs : Regs) (tick : UInt32) : UInt16 :=
  rssiFor regs + ((tick * 7) &&& 0x07).toUInt16

/-- The receiver is on and the firmware wants to hear about the squelch. -/
def listening (regs : Regs) : Bool :=
  regs regRxEnable &&& enableRxDsp != 0 && regs regIntEnable &&& intSquelchLost != 0

/-- The meters at the moment the firmware asks. -/
def refreshMeters (s : Radio) : Radio :=
  let tick := s.tick + 1
  { s with
    tick := tick
    regs := Function.update
      (Function.update s.regs regRssi (measuredRssi s.regs tick))
      regAudioAmp (0x0400 + ((tick * 23) &&& 0x07FF).toUInt16) }

/-- Announce an open squelch every 64 polls, and close it otherwise. -/
def announce (s : Radio) (rssi : UInt16) : Radio :=
  let thresh := openThresh s.regs
  let mayAnnounce := s.tick % 64 = 0
  if mayAnnounce ∧ thresh ≠ 0 ∧ rssi ≥ thresh then
    { s with pendingInt := s.pendingInt ||| intSquelchLost, squelchOpen := true }
  else if s.squelchOpen then
    { s with pendingInt := s.pendingInt ||| intSquelchFound, squelchOpen := false }
  else s

/-- Assert the request bit when something is waiting. -/
def request (s : Radio) : Radio :=
  if s.pendingInt ≠ 0 then
    { s with regs := Function.update s.regs regInterrupt (s.regs regInterrupt ||| 1) }
  else s

/-- `bk4819_eval_receiver`: one evaluation of the receiver, made when the guest reads the
interrupt register. -/
def evalReceiver (s : Radio) : Radio :=
  let s := refreshMeters s
  if s.regs regRxEnable &&& enableRxDsp = 0 then { s with squelchOpen := false }
  else if s.regs regIntEnable &&& intSquelchLost = 0 then { s with squelchOpen := false }
  else request (announce s (s.regs regRssi))

/-- The registers and the receiver after a reset. -/
def resetRadio : Radio := seedMeasurements ⟨0, false, 0, fun _ => 0⟩

/-- `bk4819_reset`, on a device whose other fields hold the given values. -/
def reset (s : State) : State :=
  { s with
    toRadio := resetRadio
    cs := false, scl := false, bitCount := 0, shiftIn := 0, haveCmd := false
    reading := false, shiftOut := 0, skipFalling := false }

/-! ## The bus -/

/-- `bk4819_update_sda`: drive the line, only during a read. -/
def updateSda (s : State) : State :=
  if s.cs && s.reading then { s with sdaIn := s.shiftOut &&& 0x8000 != 0 } else s

/-- `bk4819_set_cs`: deselecting ends the transfer, whatever state it reached. Active low. -/
def setCs (s : State) (level : Bool) : State :=
  let selected := !level
  let s :=
    if !selected && s.cs then
      { s with bitCount := 0, shiftIn := 0, haveCmd := false, reading := false,
               skipFalling := false }
    else s
  { s with cs := selected }

/-- `bk4819_set_sda`. -/
def setSda (s : State) (level : Bool) : State := { s with sdaOut := level }

/-- The register number in the low seven bits of the shift register. -/
def cmdOf (shiftIn : UInt32) : Reg :=
  ⟨(shiftIn &&& 0x7f).toNat, by
    rw [UInt32.toNat_and]
    exact lt_of_le_of_lt Nat.and_le_right (by decide)⟩

/-- The eighth command bit: latch the command, and for a read fetch the register. -/
def latchCommand (s : State) : State :=
  let reading := s.shiftIn &&& 0x80 != 0
  let cmd := cmdOf s.shiftIn
  let s := { s with reading := reading, cmd := cmd, haveCmd := true, bitCount := 0, shiftIn := 0 }
  if reading then
    let s := if cmd = regInterrupt then { s with toRadio := evalReceiver s.toRadio } else s
    updateSda { s with shiftOut := s.regs cmd, skipFalling := true }
  else s

/-- What the end of a write does to the register it names: store it, then re-seed the
measurements or collect the pending flags. -/
def commit (s : Radio) (cmd : Reg) (data : UInt16) : Radio :=
  let s := { s with regs := Function.update s.regs cmd data }
  let s := if cmd = regRevision ∧ data &&& 0x8000 ≠ 0 then seedMeasurements s else s
  if cmd = regIntFlags then
    let regs := Function.update s.regs regIntFlags s.pendingInt
    { s with
      regs := Function.update regs regInterrupt (regs regInterrupt &&& ~~~1)
      pendingInt := 0 }
  else s

/-- The sixteenth data bit of a write. -/
def commitWrite (s : State) : State :=
  { s with
    toRadio := commit s.toRadio s.cmd s.shiftIn.toUInt16
    bitCount := 0, shiftIn := 0, haveCmd := false }

/-- A bit shifted in from the guest. -/
def shiftBit (s : State) : State :=
  { s with shiftIn := (s.shiftIn <<< 1) ||| (if s.sdaOut then 1 else 0)
           bitCount := s.bitCount + 1 }

/-- A rising clock edge while selected. -/
def risingEdge (s : State) : State :=
  if !s.haveCmd then
    let s := shiftBit s
    if s.bitCount = 8 then latchCommand s else s
  else if !s.reading then
    let s := shiftBit s
    if s.bitCount = 16 then commitWrite s else s
  else s

/-- A falling clock edge while selected: the next bit of a read, unless it is the command
byte's own trailing edge. -/
def fallingEdge (s : State) : State :=
  if s.skipFalling then { s with skipFalling := false }
  else if s.haveCmd && s.reading then
    let s := updateSda { s with shiftOut := s.shiftOut <<< 1, bitCount := s.bitCount + 1 }
    if s.bitCount ≥ 16 then { s with bitCount := 0, haveCmd := false, reading := false } else s
  else s

/-- `bk4819_set_scl`. -/
def setScl (s : State) (level : Bool) : State :=
  let rising := level && !s.scl
  let falling := !level && s.scl
  let s := { s with scl := level }
  if !s.cs then s
  else if rising then risingEdge s
  else if falling then fallingEdge s
  else s

end Uvk5.BK4819
