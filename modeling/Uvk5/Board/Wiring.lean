import Uvk5.Board.Keypad
import Uvk5.Dma.Bus
import Uvk5.Lib.Interleaving
import Uvk5.Transceiver.Pins

set_option relaxedAutoImplicit false
set_option autoImplicit false

/-!
# What is wired to the ports (`qemu/py32f071.c`)

The columns of the keypad, the chip select of the panel and two lines of the transceiver are pins of
port B; the third line of the transceiver is a pin of port F; the chip select of the flash, the
command line of the panel and the enable line of the amplifier are pins of port A. One register
write may change several of them, and the transceiver and the keypad drive pins of port B in turn.
The firmware talks to the transceiver by hand, while its interrupt handlers do everything else.

## Main definitions

* `Wiring.Machine` — the ports and what is wired to them.
* `Wiring.Machine.write` — a register write, with everyone told what changed.
* `Wiring.Machine.step`, `drive` — a step of anyone, and those of the driver of the
  transceiver.

## Main results

* `Wiring.write_b_eq` — a write of port B does to the keypad and to the transceiver what it does to
  each alone.
* `Wiring.radio_among_others` — the transactions of the transceiver, among everything else.
-/

namespace Uvk5.Wiring

open Dma (Device Soc)
open Gpio WordBits
open PY25Q16 (Host)

/-- A port has pins. -/
scoped instance neZeroPins : NeZero (16 : ℕ) := ⟨by decide⟩

/-! ## The devices -/

/-- `UVK5AudioState`. -/
structure Audio where
  /-- `path_on`. -/
  pathOn : Bool
  /-- `transitions`. -/
  transitions : UInt32
  deriving DecidableEq

/-- `audio_set_path`. -/
def Audio.setPath (s : Audio) (level : Bool) : Audio :=
  if level ≠ s.pathOn then ⟨level, s.transitions + 1⟩ else s

/-- The chip select of the panel. -/
def setPanelCs (s : Soc Device) (level : Bool) : Soc Device :=
  match (s.spi 0).device with
  | .panel p => s.setSpi 0 { s.spi 0 with device := .panel (Panel.setCs p level) }
  | .flash _ => s

/-- The ports that something is wired to. -/
inductive Name where
  /-- Port A. -/
  | a
  /-- Port B. -/
  | b
  /-- Port F. -/
  | f
  deriving DecidableEq

/-- The ports, and what is wired to them. -/
structure Machine where
  /-- Port A. -/
  gpioA : Port
  /-- Port B, and the keypad. -/
  keypad : Keypad.Board
  /-- Port F. -/
  gpioF : Port
  /-- The controllers with the panel and the flash. -/
  spi : Dma.Board
  /-- The transceiver. -/
  radio : BK4819.State
  /-- The amplifier. -/
  audio : Audio

namespace Machine

variable (m : Machine)

/-- A port. -/
def port : Name → Port
  | .a => m.gpioA
  | .b => m.keypad.port
  | .f => m.gpioF

/-- The machine with another state of a port. -/
def setPort (name : Name) (p : Port) : Machine :=
  match name with
  | .a => { m with gpioA := p }
  | .b => { m with keypad := { m.keypad with port := p } }
  | .f => { m with gpioF := p }

/-- A line of the transceiver changes; its data line is pin 9 of port B. -/
def radioPin (p : BK4819.Pin) : Machine :=
  { m with
    radio := BK4819.pinStep m.radio p
    keypad := m.keypad.step (.sda (BK4819.pinStep m.radio p).sdaIn) }

/-- The level of an output pin changes. -/
def pinOut (name : Name) (i : Fin 16) (level : Bool) (io : Host) : Machine :=
  match name with
  | .a =>
    if i = 3 then { m with spi := m.spi.setFlashCs level io }
    else if i = 6 then { m with spi := { m.spi with soc := Dma.setPanelA0 m.spi.soc level } }
    else if i = 8 then { m with audio := m.audio.setPath level }
    else m
  | .b =>
    if i = 2 then { m with spi := { m.spi with soc := setPanelCs m.spi.soc level } }
    else if i = 8 then m.radioPin (.line (.scl level))
    else if i = 9 then m.radioPin (.line (.sda level))
    else { m with keypad := m.keypad.pinOut i level }
  | .f => if i = 9 then m.radioPin (.cs level) else m

/-- The body of the loop of `py32_gpio_update`. -/
def notify (name : Name) (changed : UInt32) (io : Host) (m : Machine) (i : Fin 16) : Machine :=
  if changed &&& mask i ≠ 0 then m.pinOut name i ((m.port name).odr &&& mask i ≠ 0) io else m

/-- `py32_gpio_write`. -/
def write (name : Name) (addr : ℕ) (value : UInt32) (io : Host) : Machine :=
  match nextOdr (m.port name).odr addr value with
  | some odr => (List.finRange 16).foldl (notify name ((m.port name).odr ^^^ odr) io)
      (m.setPort name { m.port name with odr := odr })
  | none => m.setPort name ((m.port name).writeOther addr value)

end Machine

/-- `py32_gpio_reset` of a port other than B. -/
def resetPort : Port := ⟨0, 0, 0, 0, 0, 0, 0, 0, 0xffff⟩

/-- A reset of the ports and what is wired to them, apart from the controllers; the data line of the
transceiver is low then. -/
def Machine.reset (m : Machine) (gpioFirst : Bool) : Machine where
  gpioA := resetPort
  keypad := m.keypad.reset gpioFirst
  gpioF := resetPort
  spi := m.spi
  radio := { BK4819.reset m.radio with sdaIn := false }
  audio := ⟨false, 0⟩

/-- What may happen. -/
inductive Event where
  /-- The guest writes a register of a port. -/
  | write (name : Name) (addr : ℕ) (value : UInt32) (io : Host)
  /-- The guest reads a register of a port. -/
  | read (name : Name) (addr : ℕ)
  /-- Something happens at the controllers. -/
  | bus (access : Dma.Access Device)
  /-- A key line of the keypad changes. -/
  | key (line : ℕ) (level : Bool)
  /-- The property `press` is written. -/
  | press (value : String)
  /-- The property `ptt` is written. -/
  | ptt (value : Bool)
  /-- Everything is reset. -/
  | reset (gpioFirst : Bool)

/-- The event is a reset. -/
def Event.isReset : Event → Bool
  | .reset _ => true
  | _ => false

/-- One step. -/
def Machine.step (m : Machine) : Event → Machine
  | .write name addr value io => m.write name addr value io
  | .read _ _ => m
  | .bus access => { m with spi := { m.spi with soc := m.spi.soc.step access } }
  | .key line level => { m with keypad := m.keypad.step (.key line level) }
  | .press value => { m with keypad := m.keypad.step (.press value) }
  | .ptt value => { m with keypad := m.keypad.step (.ptt value) }
  | .reset gpioFirst => m.reset gpioFirst

/-- The guest drives a pin by the register that sets pins, or by the one that clears them. -/
def drivePin (name : Name) (i : Fin 16) (level : Bool) : Event :=
  if level then .write name 0x18 (mask i) .ok else .write name 0x28 (mask i) .ok

/-- How the driver of the transceiver moves its lines. -/
def drive : BK4819.Pin → Event
  | .cs level => drivePin .f 9 level
  | .line (.scl level) => drivePin .b 8 level
  | .line (.sda level) => drivePin .b 9 level
  | .line .sample => .read .b 0x10

/-! ## Who is told -/

section Told

variable (changed : UInt32) (io : Host) (m : Machine)

/-- The transceiver is told of a pin if it changed. -/
def Machine.tell (i : Fin 16) (p : BK4819.Pin) : Machine :=
  if bit changed i then m.radioPin p else m

/-- The keypad does not listen to a pin that is no column. -/
lemma notify_of_not_column {i : Fin 16} (h : Keypad.columnAt i = none) (k : Keypad.Board) :
    k.notify changed i = k := by
  rw [Keypad.Board.notify, Keypad.Board.pinOut, h]
  split
  · rfl
  · rfl

/-- Lines that are no columns of the keypad leave it as it is. -/
lemma foldl_notify_of_not_column {l : List (Fin 16)} (h : ∀ i ∈ l, Keypad.columnAt i = none)
    (k : Keypad.Board) : l.foldl (Keypad.Board.notify changed) k = k := by
  induction l generalizing k with
  | nil => rfl
  | cons i l ih =>
    rw [List.foldl_cons, notify_of_not_column changed (h i (List.mem_cons_self ..))]
    exact ih (fun j hj => h j (List.mem_cons_of_mem i hj)) k

/-- A pin of port B that is not a line of the transceiver. -/
lemma notify_b_other {i : Fin 16} (h8 : i ≠ 8) (h9 : i ≠ 9) :
    ∃ spi, Machine.notify .b changed io m i =
      { m with keypad := m.keypad.notify changed i, spi := spi } := by
  rw [Machine.notify, Keypad.Board.notify]
  split
  · rw [Machine.pinOut]
    by_cases h2 : i = 2
    · subst h2
      have hnone : Keypad.columnAt 2 = none := by decide
      rw [if_pos rfl, Keypad.Board.pinOut, hnone]
      exact ⟨_, rfl⟩
    · rw [if_neg h2, if_neg h8, if_neg h9]
      exact ⟨_, rfl⟩
  · exact ⟨_, rfl⟩

/-- Lines of `GPIOB` that are not the bus to the transceiver reach the keypad and the chip selects
only. -/
lemma foldl_notify_b {l : List (Fin 16)} (h : ∀ i ∈ l, i ≠ 8 ∧ i ≠ 9) (m : Machine) :
    ∃ spi, l.foldl (Machine.notify .b changed io) m =
      { m with keypad := l.foldl (Keypad.Board.notify changed) m.keypad, spi := spi } := by
  induction l generalizing m with
  | nil => exact ⟨m.spi, rfl⟩
  | cons i l ih =>
    obtain ⟨h8, h9⟩ := h i (List.mem_cons_self ..)
    obtain ⟨spi, hfirst⟩ := notify_b_other changed io m h8 h9
    obtain ⟨spi', hrest⟩ := ih (fun j hj => h j (List.mem_cons_of_mem i hj))
      (Machine.notify .b changed io m i)
    refine ⟨spi', ?_⟩
    rw [List.foldl_cons, hrest, hfirst]
    rfl

/-- The source tests a line by masking the word; it is the bit of that line. -/
lemma mask_test (w : UInt32) (i : Fin 16) : (w &&& mask i ≠ 0) ↔ bit w i = true :=
  and_mask_ne_zero_iff (Nat.lt_trans i.isLt (by decide))

/-- The lines of the transceiver at port B. -/
lemma notify_b_scl : Machine.notify .b changed io m 8 =
    m.tell changed 8 (.line (.scl (bit m.keypad.port.odr 8))) := by
  rw [Machine.notify, Machine.tell]
  simp only [mask_test, Bool.decide_eq_true]
  split
  · rw [Machine.pinOut, if_neg (by decide), if_pos rfl]
    rfl
  · rfl

/-- Line 9 of `GPIOB` tells the transceiver the level of its data line. -/
lemma notify_b_sda : Machine.notify .b changed io m 9 =
    m.tell changed 9 (.line (.sda (bit m.keypad.port.odr 9))) := by
  rw [Machine.notify, Machine.tell]
  simp only [mask_test, Bool.decide_eq_true]
  split
  · rw [Machine.pinOut, if_neg (by decide), if_neg (by decide), if_pos rfl]
    rfl
  · rfl

/-- What the transceiver is told does not depend on the serial ports. -/
lemma tell_spi (i : Fin 16) (p : BK4819.Pin) (spi : Dma.Board) :
    ({ m with spi := spi } : Machine).tell changed i p =
      { m.tell changed i p with spi := spi } := by
  rw [Machine.tell, Machine.tell]
  split
  · rfl
  · rfl

/-- Telling the transceiver something leaves the output register of `GPIOB`. -/
@[simp] lemma tell_odr (i : Fin 16) (p : BK4819.Pin) :
    (m.tell changed i p).keypad.port.odr = m.keypad.port.odr := by
  rw [Machine.tell]
  split
  · exact setInput_odr ..
  · rfl

/-- The pins of a port, around the lines of the transceiver at port B. -/
lemma finRange_eq : List.finRange 16 =
    [0, 1, 2, 3, 4, 5, 6, 7] ++ ([8, 9] ++ [10, 11, 12, 13, 14, 15]) := by decide

end Told

/-- **A write of port B** does to the keypad what it does to the keypad alone, and then the
transceiver is told of its lines.

**Proof sketch.** The pins are told in order. The columns come before the lines of the transceiver,
and the pins after these are nobody's. -/
theorem write_b_eq {m : Machine} {addr : ℕ} {value odr : UInt32} (io : Host)
    (h : nextOdr m.keypad.port.odr addr value = some odr) :
    ∃ spi, m.write .b addr value io =
      { ({ m with keypad := m.keypad.write addr value }.tell (m.keypad.port.odr ^^^ odr) 8
          (.line (.scl (bit odr 8)))).tell (m.keypad.port.odr ^^^ odr) 9
          (.line (.sda (bit odr 9))) with spi := spi } := by
  let changed := m.keypad.port.odr ^^^ odr
  let k : Keypad.Board := { m.keypad with port := { m.keypad.port with odr := odr } }
  have hkeys : m.keypad.write addr value =
      [0, 1, 2, 3, 4, 5, 6, 7].foldl (Keypad.Board.notify changed) k := by
    rw [Keypad.Board.write, h]
    dsimp only
    rw [Keypad.Board.gpioUpdate, finRange_eq, List.foldl_append, List.foldl_append,
      foldl_notify_of_not_column _ (l := [8, 9]) (by decide),
      foldl_notify_of_not_column _ (l := [10, 11, 12, 13, 14, 15]) (by decide)]
  have hodr : (m.keypad.write addr value).port.odr = odr := by
    rw [hkeys]
    exact Run.foldl_of_step (I := fun b : Keypad.Board => b.port.odr = odr)
      (fun b i hb => (Keypad.notify_odr _ b i).trans hb) _ rfl
  have hwrite : m.write .b addr value io =
      (List.finRange 16).foldl (Machine.notify .b changed io) { m with keypad := k } := by
    rw [Machine.write, Machine.port, h]
    rfl
  obtain ⟨spi, hfirst⟩ := foldl_notify_b changed io (l := [0, 1, 2, 3, 4, 5, 6, 7]) (by decide)
    { m with keypad := k }
  obtain ⟨spi', hlast⟩ := foldl_notify_b changed io (l := [10, 11, 12, 13, 14, 15]) (by decide)
    ([8, 9].foldl (Machine.notify .b changed io)
      ([0, 1, 2, 3, 4, 5, 6, 7].foldl (Machine.notify .b changed io) { m with keypad := k }))
  refine ⟨spi', ?_⟩
  rw [hwrite, finRange_eq, List.foldl_append, List.foldl_append, hlast,
    foldl_notify_of_not_column _ (l := [10, 11, 12, 13, 14, 15]) (by decide), hfirst, ← hkeys,
    List.foldl_cons, List.foldl_cons, List.foldl_nil, notify_b_scl, notify_b_sda, tell_odr]
  dsimp only
  rw [hodr]
  have hscl := tell_spi changed { m with keypad := m.keypad.write addr value } 8
    (.line (.scl (bit odr 8))) spi
  have hsda := tell_spi changed (Machine.tell changed
    { m with keypad := m.keypad.write addr value } 8 (.line (.scl (bit odr 8)))) 9
    (.line (.sda (bit odr 9))) spi
  dsimp only at hscl hsda
  rw [hscl, hsda]

section OtherPorts

variable (changed : UInt32) (io : Host) (m : Machine)

/-- A pin of port F that is not a line of the transceiver. -/
lemma foldl_notify_f {l : List (Fin 16)} (h : ∀ i ∈ l, i ≠ 9) (m : Machine) :
    l.foldl (Machine.notify .f changed io) m = m := by
  induction l generalizing m with
  | nil => rfl
  | cons i l ih =>
    have hfirst : Machine.notify .f changed io m i = m := by
      rw [Machine.notify, Machine.pinOut, if_neg (h i (List.mem_cons_self ..))]
      split
      · rfl
      · rfl
    rw [List.foldl_cons, hfirst]
    exact ih (fun j hj => h j (List.mem_cons_of_mem i hj)) m

/-- Line 9 of `GPIOF` tells the transceiver the level of its chip select. -/
lemma notify_f_cs : Machine.notify .f changed io m 9 =
    m.tell changed 9 (.cs (bit m.gpioF.odr 9)) := by
  rw [Machine.notify, Machine.tell]
  simp only [mask_test, Bool.decide_eq_true]
  split
  · rw [Machine.pinOut, if_pos rfl]
    rfl
  · rfl

/-- Pins of port A that the amplifier does not listen to. -/
lemma foldl_notify_a {l : List (Fin 16)} (h : ∀ i ∈ l, i ≠ 8) (m : Machine) :
    ∃ spi, l.foldl (Machine.notify .a changed io) m = { m with spi := spi } := by
  induction l generalizing m with
  | nil => exact ⟨m.spi, rfl⟩
  | cons i l ih =>
    have hfirst : ∃ spi, Machine.notify .a changed io m i = { m with spi := spi } := by
      rw [Machine.notify, Machine.pinOut]
      split
      · split
        · exact ⟨_, rfl⟩
        split
        · exact ⟨_, rfl⟩
        · rw [if_neg (h i (List.mem_cons_self ..))]
          exact ⟨_, rfl⟩
      · exact ⟨_, rfl⟩
    obtain ⟨spi, hfirst⟩ := hfirst
    obtain ⟨spi', hrest⟩ := ih (fun j hj => h j (List.mem_cons_of_mem i hj))
      (Machine.notify .a changed io m i)
    refine ⟨spi', ?_⟩
    rw [List.foldl_cons, hrest, hfirst]

/-- Line 8 of `GPIOA` switches the amplifier, if it has changed. -/
lemma notify_a_path : Machine.notify .a changed io m 8 =
    { m with audio := if bit changed 8 then m.audio.setPath (bit m.gpioA.odr 8) else m.audio } := by
  rw [Machine.notify]
  simp only [mask_test, Bool.decide_eq_true]
  have hpin : ((8 : Fin 16) : ℕ) = 8 := rfl
  rw [hpin]
  by_cases hchanged : bit changed 8 = true
  · rw [if_pos hchanged, if_pos hchanged, Machine.pinOut, if_neg (by decide), if_neg (by decide),
      if_pos rfl]
    rfl
  · rw [if_neg hchanged, if_neg hchanged]

/-- The sixteen lines, those before the clock line and those after it. -/
lemma finRange_around_eight : List.finRange 16 =
    [0, 1, 2, 3, 4, 5, 6, 7] ++ ([8] ++ [9, 10, 11, 12, 13, 14, 15]) := by decide

/-- The sixteen lines, those before line 9 and those after it. -/
lemma finRange_around_nine : List.finRange 16 =
    [0, 1, 2, 3, 4, 5, 6, 7, 8] ++ ([9] ++ [10, 11, 12, 13, 14, 15]) := by decide

end OtherPorts

/-- A write of port F tells the transceiver of its chip select. -/
lemma write_f_eq {m : Machine} {addr : ℕ} {value odr : UInt32} (io : Host)
    (h : nextOdr m.gpioF.odr addr value = some odr) :
    m.write .f addr value io = ({ m with gpioF := { m.gpioF with odr := odr } } : Machine).tell
      (m.gpioF.odr ^^^ odr) 9 (.cs (bit odr 9)) := by
  rw [Machine.write, Machine.port, h]
  dsimp only
  rw [finRange_around_nine, List.foldl_append, List.foldl_append,
    foldl_notify_f _ io (l := [10, 11, 12, 13, 14, 15]) (by decide),
    foldl_notify_f _ io (l := [0, 1, 2, 3, 4, 5, 6, 7, 8]) (by decide), List.foldl_cons,
    List.foldl_nil, notify_f_cs]
  rfl

/-- A write of port A tells the amplifier of its enable line. -/
lemma write_a_eq {m : Machine} {addr : ℕ} {value odr : UInt32} (io : Host)
    (h : nextOdr m.gpioA.odr addr value = some odr) :
    ∃ spi, m.write .a addr value io = { m with
      gpioA := { m.gpioA with odr := odr }
      spi := spi
      audio := if bit (m.gpioA.odr ^^^ odr) 8 then m.audio.setPath (bit odr 8) else m.audio } := by
  obtain ⟨spi, hfirst⟩ := foldl_notify_a (m.gpioA.odr ^^^ odr) io (l := [0, 1, 2, 3, 4, 5, 6, 7])
    (by decide) { m with gpioA := { m.gpioA with odr := odr } }
  obtain ⟨spi', hlast⟩ := foldl_notify_a (m.gpioA.odr ^^^ odr) io
    (l := [9, 10, 11, 12, 13, 14, 15]) (by decide)
    ([8].foldl (Machine.notify .a (m.gpioA.odr ^^^ odr) io)
      ([0, 1, 2, 3, 4, 5, 6, 7].foldl (Machine.notify .a (m.gpioA.odr ^^^ odr) io)
        { m with gpioA := { m.gpioA with odr := odr } }))
  have hwrite : m.write .a addr value io =
      (List.finRange 16).foldl (Machine.notify .a (m.gpioA.odr ^^^ odr) io)
        { m with gpioA := { m.gpioA with odr := odr } } := by
    rw [Machine.write, Machine.port, h]
    rfl
  refine ⟨spi', ?_⟩
  rw [hwrite, finRange_around_eight, List.foldl_append, List.foldl_append, hlast, hfirst,
    List.foldl_cons, List.foldl_nil, notify_a_path]

/-! ## The transceiver and its lines -/

section Lines

open BK4819

variable (s : State) (level : Bool)

/-- Driving the line back leaves what the firmware drives. -/
lemma updateSda_sdaOut : (updateSda s).sdaOut = s.sdaOut := by
  rw [updateSda]
  split
  · rfl
  · rfl

/-- A rising clock edge leaves what the firmware drives. -/
lemma risingEdge_sdaOut : (risingEdge s).sdaOut = s.sdaOut := by
  have hlatch : ∀ s, (latchCommand s).sdaOut = s.sdaOut := by
    intro s
    simp only [latchCommand]
    split_ifs
    · exact updateSda_sdaOut _
    · exact updateSda_sdaOut _
    · rfl
  simp only [risingEdge]
  split_ifs
  · exact hlatch _
  · rfl
  · rfl
  · rfl
  · rfl

/-- A falling clock edge leaves what the firmware drives. -/
lemma fallingEdge_sdaOut : (fallingEdge s).sdaOut = s.sdaOut := by
  simp only [fallingEdge]
  split_ifs
  · rfl
  · exact updateSda_sdaOut _
  · exact updateSda_sdaOut _
  · rfl

/-- A change of the clock leaves what the firmware drives on the data line. -/
lemma setScl_sdaOut : (setScl s level).sdaOut = s.sdaOut := by
  simp only [setScl]
  split_ifs
  · rfl
  · exact risingEdge_sdaOut _
  · exact fallingEdge_sdaOut _
  · rfl

/-- A chip select edge moves the chip select, and neither the clock nor the data line. -/
lemma setCs_lines : (setCs s level).cs = !level ∧ (setCs s level).scl = s.scl ∧
    (setCs s level).sdaOut = s.sdaOut := by
  refine ⟨rfl, ?_, ?_⟩
  · simp only [setCs]
    split
    · rfl
    · rfl
  · simp only [setCs]
    split
    · rfl
    · rfl

/-- A line that is told the level it has. -/
lemma setScl_same (h : s.scl = level) : setScl s level = s := by
  subst h
  simp [setScl]

/-- An edge to the level that is there changes nothing. -/
lemma setCs_same (h : s.cs = !level) : setCs s level = s := by
  cases level with
  | true => simp [setCs, ← h]
  | false => simp [setCs, ← h]

end Lines

/-- Pin 9 of port B is not the keypad's. -/
lemma write_line (k : Keypad.Board) (addr : ℕ) (value : UInt32) :
    bit (k.write addr value).port.idr 9 = bit k.port.idr 9 := by
  have hrows : ∀ k : Keypad.Board, bit k.updateRows.port.idr 9 = bit k.port.idr 9 :=
    fun k => Keypad.bit_foldl_other _ _ _ (by decide) (by decide)
  have hpin : ∀ (k : Keypad.Board) (i : Fin 16) (level : Bool),
      bit (k.pinOut i level).port.idr 9 = bit k.port.idr 9 := by
    intro k i level
    rw [Keypad.Board.pinOut]
    split
    · rw [Keypad.Board.colChanged]
      split
      · rfl
      · exact hrows _
    · rfl
  rw [Keypad.Board.write]
  split
  · next odr _ =>
    refine Run.foldl_of_step (I := fun k' : Keypad.Board =>
      bit k'.port.idr 9 = bit k.port.idr 9) (fun k' i hk => ?_) _ rfl
    rw [Keypad.Board.notify]
    split
    · exact (hpin k' i _).trans hk
    · exact hk
  · rw [writeOther_idr]

/-! ## What a write tells -/

/-- What the transceiver is told of the pins of port B. -/
def toldB (old new : UInt32) : List BK4819.Pin :=
  (if bit old 8 = bit new 8 then [] else [.line (.scl (bit new 8))]) ++
    (if bit old 9 = bit new 9 then [] else [.line (.sda (bit new 9))])

/-- What the transceiver is told of the pins of port F. -/
def toldF (old new : UInt32) : List BK4819.Pin :=
  if bit old 9 = bit new 9 then [] else [.cs (bit new 9)]

section ToldLines

variable (s : BK4819.State) (old new : UInt32)

/-- A write that leaves both lines of the bus tells the transceiver nothing. -/
lemma toldB_same (h8 : bit old 8 = bit new 8) (h9 : bit old 9 = bit new 9) :
    toldB old new = [] := by
  rw [toldB, if_pos h8, if_pos h9]
  rfl

/-- The lines of the transceiver after a write of port B. -/
lemma pins_toldB (h : s.scl = bit old 8) :
    (BK4819.pins s (toldB old new)).cs = s.cs ∧
      (BK4819.pins s (toldB old new)).scl = bit new 8 ∧
      (BK4819.pins s (toldB old new)).sdaOut =
        if bit old 9 = bit new 9 then s.sdaOut else bit new 9 := by
  have hscl : ∃ s', BK4819.pins s
      (if bit old 8 = bit new 8 then [] else [.line (.scl (bit new 8))]) = s' ∧
        s'.cs = s.cs ∧ s'.scl = bit new 8 ∧ s'.sdaOut = s.sdaOut := by
    refine ⟨_, rfl, ?_⟩
    by_cases h8 : bit old 8 = bit new 8
    · rw [if_pos h8]
      exact ⟨rfl, h.trans h8, rfl⟩
    · rw [if_neg h8]
      obtain ⟨hcs, hlevel⟩ := BK4819.setScl_lines s (bit new 8)
      exact ⟨hcs, hlevel, setScl_sdaOut s _⟩
  obtain ⟨s', hs', hcs, hlevel, hsda⟩ := hscl
  rw [toldB, BK4819.pins_append, hs']
  by_cases h9 : bit old 9 = bit new 9
  · rw [if_pos h9, if_pos h9]
    exact ⟨hcs, hlevel, hsda⟩
  · rw [if_neg h9, if_neg h9]
    exact ⟨hcs, hlevel, rfl⟩

/-- The lines of the transceiver after a write of port F. -/
lemma pins_toldF :
    (BK4819.pins s (toldF old new)).cs =
        (if bit old 9 = bit new 9 then s.cs else !bit new 9) ∧
      (BK4819.pins s (toldF old new)).scl = s.scl ∧
      (BK4819.pins s (toldF old new)).sdaOut = s.sdaOut := by
  rw [toldF]
  by_cases h9 : bit old 9 = bit new 9
  · rw [if_pos h9, if_pos h9]
    exact ⟨rfl, rfl, rfl⟩
  · rw [if_neg h9, if_neg h9]
    exact setCs_lines s _

end ToldLines

/-- The transceiver was told of pins, and drove its line in turn. -/
structure Told (m : Machine) (ps : List BK4819.Pin) (k : Keypad.Board) (f : Port) (m' : Machine) :
    Prop where
  /-- The transceiver. -/
  radio : m'.radio = BK4819.pins m.radio ps
  /-- The keypad, whose port is driven. -/
  keypad : ∃ sdas : List Bool,
    m'.keypad = (sdas.map Keypad.Event.sda).foldl Keypad.Board.step k
  /-- The level that is driven. -/
  line : bit k.port.idr 9 = m.radio.sdaIn → bit m'.keypad.port.idr 9 = m'.radio.sdaIn
  /-- Port A. -/
  gpioA : m'.gpioA = m.gpioA
  /-- Port F. -/
  gpioF : m'.gpioF = f
  /-- The amplifier. -/
  audio : m'.audio = m.audio

section Tell

variable {m : Machine} {ps : List BK4819.Pin} {k : Keypad.Board} {f : Port} {m' : Machine}

/-- Nothing told, and nothing changed. -/
lemma told_nil (m : Machine) : Told m [] m.keypad m.gpioF m :=
  ⟨rfl, ⟨[], rfl⟩, id, rfl, rfl, rfl⟩

/-- A changed pin, in terms of its levels. -/
lemma told_tell (m : Machine) (old new : UInt32) (i : Fin 16) (p : BK4819.Pin) :
    Told m (if bit old i = bit new i then [] else [p]) m.keypad m.gpioF
      (m.tell (old ^^^ new) i p) := by
  rw [Machine.tell, bit_xor]
  by_cases hsame : bit old i = bit new i
  · rw [if_pos hsame, if_neg (by simp [hsame])]
    exact told_nil m
  · have hxor : (bit old i ^^ bit new i) = true := by simpa using hsame
    rw [if_neg hsame, if_pos hxor]
    exact ⟨rfl, ⟨[_], rfl⟩,
      fun _ => (bit_setInput _ (by decide) (by decide) _).trans (if_pos rfl), rfl, rfl, rfl⟩

/-- What two steps tell the transceiver is told one after the other. -/
lemma Told.trans {qs : List BK4819.Pin} {m'' : Machine} (h : Told m ps k f m')
    (h' : Told m' qs m'.keypad m'.gpioF m'') : Told m (ps ++ qs) k f m'' := by
  obtain ⟨sdas, hkeypad⟩ := h.keypad
  obtain ⟨sdas', hkeypad'⟩ := h'.keypad
  refine ⟨?_, ⟨sdas ++ sdas', ?_⟩, fun hline => h'.line (h.line hline), h'.gpioA.trans h.gpioA,
    h'.gpioF.trans h.gpioF, h'.audio.trans h.audio⟩
  · rw [h'.radio, h.radio, BK4819.pins_append]
  · rw [hkeypad', hkeypad, List.map_append, List.foldl_append]

/-- Levels on the data input leave the output register of `GPIOB`. -/
lemma sdas_odr (sdas : List Bool) (k : Keypad.Board) :
    ((sdas.map Keypad.Event.sda).foldl Keypad.Board.step k).port.odr = k.port.odr := by
  induction sdas generalizing k with
  | nil => rfl
  | cons level sdas ih =>
    rw [List.map_cons, List.foldl_cons, ih]
    exact setInput_odr ..

/-- Telling the transceiver leaves the output register of `GPIOB`. -/
lemma Told.odr (h : Told m ps k f m') : m'.keypad.port.odr = k.port.odr := by
  obtain ⟨sdas, hkeypad⟩ := h.keypad
  rw [hkeypad, sdas_odr]

end Tell

section Write

variable (m : Machine) (addr : ℕ) (value : UInt32) (io : Host)

/-- **A write of port B** tells the keypad what it tells the keypad alone, and the transceiver of
its lines. -/
lemma told_write_b :
    Told m (toldB m.keypad.port.odr (m.keypad.write addr value).port.odr)
      (m.keypad.write addr value) m.gpioF (m.write .b addr value io) := by
  cases hnext : nextOdr m.keypad.port.odr addr value with
  | none =>
    have hkeys : m.keypad.write addr value =
        { m.keypad with port := m.keypad.port.writeOther addr value } := by
      rw [Keypad.Board.write, hnext]
    have hwrite : m.write .b addr value io = { m with keypad := m.keypad.write addr value } := by
      rw [Machine.write, Machine.port, hnext, hkeys]
      rfl
    have hodr : (m.keypad.write addr value).port.odr = m.keypad.port.odr := by
      rw [hkeys]
      exact writeOther_odr ..
    rw [hwrite, toldB_same _ _ (by rw [hodr]) (by rw [hodr])]
    exact ⟨rfl, ⟨[], rfl⟩, id, rfl, rfl, rfl⟩
  | some odr =>
    have hodr : (m.keypad.write addr value).port.odr = odr := by
      rw [Keypad.Board.write, hnext]
      exact Keypad.gpioUpdate_odr _ _
    obtain ⟨spi, hwrite⟩ := write_b_eq io hnext
    have hscl := told_tell { m with keypad := m.keypad.write addr value } m.keypad.port.odr odr 8
      (.line (.scl (bit odr 8)))
    have hboth := hscl.trans (told_tell _ m.keypad.port.odr odr 9 (.line (.sda (bit odr 9))))
    rw [hwrite, hodr]
    exact ⟨hboth.radio, hboth.keypad, hboth.line, hboth.gpioA, hboth.gpioF, hboth.audio⟩

/-- The output levels after a write of port B. -/
lemma write_odr (k : Keypad.Board) :
    (k.write addr value).port.odr = (nextOdr k.port.odr addr value).getD k.port.odr := by
  rw [Keypad.Board.write]
  split
  · next odr hnext =>
    rw [hnext]
    exact Keypad.gpioUpdate_odr _ _
  · next hnext =>
    rw [hnext]
    exact writeOther_odr ..

/-- **A write of port F** tells the transceiver of its chip select. -/
lemma told_write_f : ∃ f : Port, f.odr = (nextOdr m.gpioF.odr addr value).getD m.gpioF.odr ∧
    Told m (toldF m.gpioF.odr f.odr) m.keypad f (m.write .f addr value io) := by
  cases hnext : nextOdr m.gpioF.odr addr value with
  | none =>
    have hwrite : m.write .f addr value io =
        { m with gpioF := m.gpioF.writeOther addr value } := by
      rw [Machine.write, Machine.port, hnext]
      rfl
    refine ⟨m.gpioF.writeOther addr value, writeOther_odr .., ?_⟩
    rw [hwrite, writeOther_odr, toldF, if_pos rfl]
    exact ⟨rfl, ⟨[], rfl⟩, id, rfl, rfl, rfl⟩
  | some odr =>
    have htell := told_tell { m with gpioF := { m.gpioF with odr := odr } } m.gpioF.odr odr 9
      (.cs (bit odr 9))
    refine ⟨{ m.gpioF with odr := odr }, rfl, ?_⟩
    rw [write_f_eq io hnext]
    exact ⟨htell.radio, htell.keypad, htell.line, htell.gpioA, htell.gpioF, htell.audio⟩

/-- **A write of port A** tells the amplifier of its enable line. -/
lemma write_a (h : m.audio.pathOn = bit m.gpioA.odr 8) :
    ∃ a spi audio, audio.pathOn = bit a.odr 8 ∧
      m.write .a addr value io = { m with gpioA := a, spi := spi, audio := audio } := by
  cases hnext : nextOdr m.gpioA.odr addr value with
  | none =>
    refine ⟨m.gpioA.writeOther addr value, m.spi, m.audio, ?_, ?_⟩
    · rw [writeOther_odr, h]
    · rw [Machine.write, Machine.port, hnext]
      rfl
  | some odr =>
    obtain ⟨spi, hwrite⟩ := write_a_eq io hnext
    refine ⟨_, spi, _, ?_, hwrite⟩
    dsimp only
    rw [bit_xor, ← h, Audio.setPath]
    cases bit odr 8 <;> cases hpath : m.audio.pathOn <;> simp [hpath]

end Write

/-! ## What every step keeps -/

/-- The lines that are wired agree. -/
structure Wired (m : Machine) : Prop where
  /-- The transceiver holds nothing of a transfer while it is not selected. -/
  idle : BK4819.IdleDeselected m.radio
  /-- The clock. -/
  scl : m.radio.scl = bit m.keypad.port.odr 8
  /-- What the transceiver drives. -/
  line : bit m.keypad.port.idr 9 = m.radio.sdaIn
  /-- Chip select, if it is high. -/
  released : bit m.gpioF.odr 9 = true → m.radio.cs = false
  /-- The data line, if it is high. -/
  raised : bit m.keypad.port.odr 9 = true → m.radio.sdaOut = true
  /-- The enable line of the amplifier. -/
  audio : m.audio.pathOn = bit m.gpioA.odr 8

/-- Chip select and the data line agree also if they are low. A reset leaves them low at the ports,
but the transceiver not selected, and its data line as it was. -/
structure Synced (m : Machine) : Prop extends Wired m where
  /-- Chip select. -/
  cs : m.radio.cs = !bit m.gpioF.odr 9
  /-- The data line. -/
  sda : m.radio.sdaOut = bit m.keypad.port.odr 9

section Keeps

variable {m : Machine}

/-- After a reset in either order the lines that are wired agree. -/
lemma wired_reset (m : Machine) (gpioFirst : Bool) : Wired (m.reset gpioFirst) := by
  have hidle : bit resetB.idr 9 = false := by decide
  have hodr : (m.keypad.reset gpioFirst).port.odr = 0 ∧
      bit (m.keypad.reset gpioFirst).port.idr 9 = false := by
    cases gpioFirst with
    | true =>
      refine ⟨(Keypad.updateRows_odr _).trans (setInput_odr ..), ?_⟩
      exact (Keypad.bit_foldl_other _ _ _ (by decide) (by decide)).trans
        ((bit_setInput _ (by decide) (by decide) true).trans ((if_neg (by decide)).trans hidle))
    | false => exact ⟨rfl, hidle⟩
  refine ⟨fun _ => ⟨rfl, rfl, rfl, rfl, rfl⟩, ?_, hodr.2, fun _ => rfl, fun hhigh => ?_, ?_⟩
  · change false = bit (m.keypad.reset gpioFirst).port.odr 8
    rw [hodr.1, bit_zero]
  · change bit (m.keypad.reset gpioFirst).port.odr 9 = true at hhigh
    rw [hodr.1, bit_zero] at hhigh
    cases hhigh
  · exact (bit_zero 8).symm

/-- A key changes, and the rows with it. -/
lemma hold_line (k : Keypad.Board) (pressed : Fin 5 → Fin 4 → Bool) :
    (k.hold pressed).port.odr = k.port.odr ∧
      bit (k.hold pressed).port.idr 9 = bit k.port.idr 9 :=
  ⟨Keypad.updateRows_odr _, Keypad.bit_foldl_other _ _ _ (by decide) (by decide)⟩

/-- A key that is pressed or released leaves the output register and the data input of `GPIOB`. -/
lemma keyChanged_line (k : Keypad.Board) (line : ℕ) (level : Bool) :
    (k.keyChanged line level).port.odr = k.port.odr ∧
      bit (k.keyChanged line level).port.idr 9 = bit k.port.idr 9 := by
  rw [Keypad.Board.keyChanged]
  split
  · exact hold_line k _
  · exact ⟨rfl, rfl⟩

/-- Pressing keys by name leaves the output register and the data input of `GPIOB`. -/
lemma setPress_line (k : Keypad.Board) (value : String) :
    (k.setPress value).2.port.odr = k.port.odr ∧
      bit (k.setPress value).2.port.idr 9 = bit k.port.idr 9 := by
  rw [Keypad.Board.setPress]
  split
  · exact hold_line k _
  · split
    · exact ⟨rfl, rfl⟩
    · exact hold_line k _

/-- The PTT key leaves the output register and the data input of `GPIOB`. -/
lemma setPtt_line (k : Keypad.Board) (value : Bool) :
    (k.setPtt value).port.odr = k.port.odr ∧
      bit (k.setPtt value).port.idr 9 = bit k.port.idr 9 :=
  ⟨setInput_odr .., (bit_setInput _ (by decide) (by decide) _).trans (if_neg (by decide))⟩

/-- The keypad changes, but no line of the transceiver. -/
lemma Wired.of_keypad (h : Wired m) {k : Keypad.Board}
    (hk : k.port.odr = m.keypad.port.odr ∧ bit k.port.idr 9 = bit m.keypad.port.idr 9) :
    Wired { m with keypad := k } := by
  obtain ⟨hodr, hidr⟩ := hk
  refine ⟨h.idle, ?_, hidr.trans h.line, h.released, fun hhigh => h.raised ?_, h.audio⟩
  · dsimp only
    rw [hodr]
    exact h.scl
  · rwa [← hodr]

/-- The lines agree still if the keypad leaves those of the transceiver. -/
lemma Synced.of_keypad (h : Synced m) {k : Keypad.Board}
    (hk : k.port.odr = m.keypad.port.odr ∧ bit k.port.idr 9 = bit m.keypad.port.idr 9) :
    Synced { m with keypad := k } := by
  refine ⟨h.toWired.of_keypad hk, h.cs, ?_⟩
  dsimp only
  rw [hk.1]
  exact h.sda

/-- A write to `GPIOA` keeps the wired lines in agreement, the amplifier with its new level. -/
lemma Wired.write_a (h : Wired m) (addr : ℕ) (value : UInt32) (io : Host) :
    Wired (m.write .a addr value io) := by
  obtain ⟨a, spi, audio, hpath, hwrite⟩ := Wiring.write_a m addr value io h.audio
  rw [hwrite]
  exact ⟨h.idle, h.scl, h.line, h.released, h.raised, hpath⟩

/-- A write to `GPIOB` keeps the wired lines in agreement, the clock and the data line with their
new levels. -/
lemma Wired.write_b (h : Wired m) (addr : ℕ) (value : UInt32) (io : Host) :
    Wired (m.write .b addr value io) := by
  have htold := told_write_b m addr value io
  obtain ⟨hcs, hscl, hsda⟩ := pins_toldB m.radio m.keypad.port.odr
    (m.keypad.write addr value).port.odr h.scl
  have hline := htold.line ((write_line _ _ _).trans h.line)
  refine ⟨?_, ?_, hline, fun hhigh => ?_, fun hhigh => ?_, ?_⟩
  · rw [htold.radio]
    exact h.idle.pins _
  · rw [htold.radio, hscl, htold.odr]
  · rw [htold.gpioF] at hhigh
    rw [htold.radio, hcs, h.released hhigh]
  · rw [htold.odr] at hhigh
    rw [htold.radio, hsda]
    split
    · next hsame => exact h.raised (hsame.trans hhigh)
    · exact hhigh
  · rw [htold.audio, htold.gpioA, h.audio]

/-- A write to `GPIOF` keeps the wired lines in agreement, chip select with its new level. -/
lemma Wired.write_f (h : Wired m) (addr : ℕ) (value : UInt32) (io : Host) :
    Wired (m.write .f addr value io) := by
  obtain ⟨f, -, htold⟩ := told_write_f m addr value io
  obtain ⟨hcs, hscl, hsda⟩ := pins_toldF m.radio m.gpioF.odr f.odr
  refine ⟨?_, ?_, htold.line h.line, fun hhigh => ?_, fun hhigh => ?_, ?_⟩
  · rw [htold.radio]
    exact h.idle.pins _
  · rw [htold.radio, hscl, htold.odr, h.scl]
  · rw [htold.gpioF] at hhigh
    rw [htold.radio, hcs]
    split
    · next hsame => exact h.released (hsame.trans hhigh)
    · rw [hhigh, Bool.not_true]
  · rw [htold.odr] at hhigh
    rw [htold.radio, hsda, h.raised hhigh]
  · rw [htold.audio, htold.gpioA, h.audio]

/-- **One step** leaves the lines in agreement. -/
lemma Wired.step (h : Wired m) (e : Event) : Wired (m.step e) := by
  cases e with
  | write name addr value io =>
    cases name with
    | a => exact h.write_a addr value io
    | b => exact h.write_b addr value io
    | f => exact h.write_f addr value io
  | read name addr => exact h
  | bus access => exact ⟨h.idle, h.scl, h.line, h.released, h.raised, h.audio⟩
  | key line level => exact h.of_keypad (keyChanged_line _ _ _)
  | press value => exact h.of_keypad (setPress_line _ _)
  | ptt value => exact h.of_keypad (setPtt_line _ _)
  | reset gpioFirst => exact wired_reset m gpioFirst

/-- A write to `GPIOB` keeps the lines in agreement when they are low, too. -/
lemma Synced.write_b (h : Synced m) (addr : ℕ) (value : UInt32) (io : Host) :
    Synced (m.write .b addr value io) := by
  have htold := told_write_b m addr value io
  obtain ⟨hcs, hscl, hsda⟩ := pins_toldB m.radio m.keypad.port.odr
    (m.keypad.write addr value).port.odr h.scl
  refine ⟨h.toWired.write_b addr value io, ?_, ?_⟩
  · rw [htold.radio, hcs, htold.gpioF, h.cs]
  · rw [htold.radio, hsda, htold.odr]
    split
    · next hsame => rw [h.sda, hsame]
    · rfl

/-- A write to `GPIOF` keeps the lines in agreement when they are low, too. -/
lemma Synced.write_f (h : Synced m) (addr : ℕ) (value : UInt32) (io : Host) :
    Synced (m.write .f addr value io) := by
  obtain ⟨f, -, htold⟩ := told_write_f m addr value io
  obtain ⟨hcs, hscl, hsda⟩ := pins_toldF m.radio m.gpioF.odr f.odr
  refine ⟨h.toWired.write_f addr value io, ?_, ?_⟩
  · rw [htold.radio, hcs, htold.gpioF]
    split
    · next hsame => rw [h.cs, hsame]
    · rfl
  · rw [htold.radio, hsda, htold.odr, h.sda]

/-- A write to `GPIOA` keeps the lines in agreement when they are low, too. -/
lemma Synced.write_a (h : Synced m) (addr : ℕ) (value : UInt32) (io : Host) :
    Synced (m.write .a addr value io) := by
  obtain ⟨a, spi, audio, hpath, hwrite⟩ := Wiring.write_a m addr value io h.audio
  rw [hwrite]
  exact ⟨⟨h.idle, h.scl, h.line, h.released, h.raised, hpath⟩, h.cs, h.sda⟩

/-- No step but a reset makes them disagree. -/
lemma Synced.step (h : Synced m) {e : Event} (he : e.isReset = false) :
    Synced (m.step e) := by
  cases e with
  | write name addr value io =>
    cases name with
    | a => exact h.write_a addr value io
    | b => exact h.write_b addr value io
    | f => exact h.write_f addr value io
  | read name addr => exact h
  | bus access => exact ⟨h.toWired.step (.bus access), h.cs, h.sda⟩
  | key line level => exact h.of_keypad (keyChanged_line _ _ _)
  | press value => exact h.of_keypad (setPress_line _ _)
  | ptt value => exact h.of_keypad (setPtt_line _ _)
  | reset gpioFirst => cases he

end Keeps

/-! ## The driver, and the others -/

section Drive

variable {m : Machine}

/-- A register that sets pins, and one that clears them. -/
lemma nextOdr_drive (odr : UInt32) (i : Fin 16) (level : Bool) :
    ∃ addr new, (∀ name, drivePin name i level = .write name addr (mask i) .ok) ∧
      nextOdr odr addr (mask i) = some new ∧
      ∀ j < 16, bit new j = if j = i then level else bit odr j := by
  have hlt : i.val < 32 := Nat.lt_trans i.isLt (by decide)
  have hlow : mask i &&& 0xffff = mask i := by
    revert i
    decide
  have hhigh : mask i >>> 16 = 0 := by
    revert i
    decide
  cases level with
  | true =>
    refine ⟨0x18, odr ||| mask i, fun _ => rfl, ?_, fun j hj => ?_⟩
    · rw [nextOdr, hlow, hhigh]
      simp
    · rw [bit_or_mask hlt]
      by_cases hij : j = i
      · simp [hij]
      · simp [hij, Ne.symm hij]
  | false =>
    refine ⟨0x28, odr &&& ~~~mask i, fun _ => rfl, ?_, fun j hj => ?_⟩
    · rw [nextOdr, hlow]
    · rw [bit_and_not_mask hlt (by omega)]
      by_cases hij : j = i
      · simp [hij]
      · simp [hij, Ne.symm hij]

/-- The driver's steps reach the transceiver.

**Proof sketch.** By the line. The write to a set or clear register leaves the level at the bit of
that pin and the other bits as they were, so no other line is told. Where the level is the one the
pin had, the transceiver is told nothing, and being told the level it has would change nothing. -/
lemma Synced.radio_drive (h : Synced m) (p : BK4819.Pin) :
    (m.step (drive p)).radio = BK4819.pinStep m.radio p := by
  cases p with
  | cs level =>
    obtain ⟨addr, new, hdrive, hnext, hbit⟩ := nextOdr_drive m.gpioF.odr 9 level
    obtain ⟨f, hodr, htold⟩ := told_write_f m addr (mask (9 : Fin 16)) .ok
    rw [hnext, Option.getD_some] at hodr
    have h9 : bit new 9 = level := (hbit 9 (by decide)).trans (if_pos rfl)
    have hstep : m.step (drive (.cs level)) = m.write .f addr (mask (9 : Fin 16)) .ok := by
      rw [drive, hdrive]
      rfl
    rw [hstep, htold.radio, hodr, toldF, h9]
    split
    · next hsame => exact (setCs_same _ _ (h.cs.trans (by rw [hsame]))).symm
    · rfl
  | line l =>
    cases l with
    | scl level =>
      obtain ⟨addr, new, hdrive, hnext, hbit⟩ := nextOdr_drive m.keypad.port.odr 8 level
      have htold := told_write_b m addr (mask (8 : Fin 16)) .ok
      have h8 : bit new 8 = level := (hbit 8 (by decide)).trans (if_pos rfl)
      have h9 : bit new 9 = bit m.keypad.port.odr 9 :=
        (hbit 9 (by decide)).trans (if_neg (by decide))
      have hstep : m.step (drive (.line (.scl level))) =
          m.write .b addr (mask (8 : Fin 16)) .ok := by
        rw [drive, hdrive]
        rfl
      rw [hstep, htold.radio, write_odr, hnext, Option.getD_some, toldB, if_pos h9.symm,
        List.append_nil, h8]
      split
      · next hsame => exact (setScl_same _ _ (h.scl.trans hsame)).symm
      · rfl
    | sda level =>
      obtain ⟨addr, new, hdrive, hnext, hbit⟩ := nextOdr_drive m.keypad.port.odr 9 level
      have htold := told_write_b m addr (mask (9 : Fin 16)) .ok
      have h9 : bit new 9 = level := (hbit 9 (by decide)).trans (if_pos rfl)
      have h8 : bit new 8 = bit m.keypad.port.odr 8 :=
        (hbit 8 (by decide)).trans (if_neg (by decide))
      have hstep : m.step (drive (.line (.sda level))) =
          m.write .b addr (mask (9 : Fin 16)) .ok := by
        rw [drive, hdrive]
        rfl
      rw [hstep, htold.radio, write_odr, hnext, Option.getD_some, toldB, if_pos h8.symm,
        List.nil_append, h9]
      split
      · next hsame =>
        have hsda : m.radio.sdaOut = level := by rw [h.sda, hsame]
        subst hsda
        rfl
      · rfl
    | sample => rfl

end Drive

/-- A step of someone else that leaves the lines of the transceiver as they are. -/
def Machine.Spares (m : Machine) (e : Event) : Prop :=
  e.isReset = false ∧ bit (m.step e).gpioF.odr 9 = bit m.gpioF.odr 9 ∧
    bit (m.step e).keypad.port.odr 8 = bit m.keypad.port.odr 8 ∧
    bit (m.step e).keypad.port.odr 9 = bit m.keypad.port.odr 9

instance Machine.Spares.decidable (m : Machine) (e : Event) : Decidable (m.Spares e) :=
  inferInstanceAs (Decidable (_ ∧ _))

/-- The transceiver hears nothing of it.

**Proof sketch.** Only writes of ports B and F tell the transceiver anything, and only of pins
that change; an event that spares it leaves those three pins as they are. -/
lemma Machine.Spares.radio {m : Machine} {e : Event} (h : m.Spares e) :
    (m.step e).radio = m.radio := by
  obtain ⟨hreset, hcs, hscl, hsda⟩ := h
  cases e with
  | write name addr value io =>
    cases name with
    | a =>
      change (m.write .a addr value io).radio = m.radio
      cases hnext : nextOdr m.gpioA.odr addr value with
      | none =>
        rw [Machine.write, Machine.port, hnext]
        rfl
      | some odr =>
        obtain ⟨spi, hwrite⟩ := write_a_eq io hnext
        rw [hwrite]
    | b =>
      have htold := told_write_b m addr value io
      change bit (m.write .b addr value io).keypad.port.odr 8 = _ at hscl
      change bit (m.write .b addr value io).keypad.port.odr 9 = _ at hsda
      change (m.write .b addr value io).radio = m.radio
      rw [htold.odr] at hscl hsda
      rw [htold.radio, toldB_same _ _ hscl.symm hsda.symm]
      rfl
    | f =>
      obtain ⟨f, -, htold⟩ := told_write_f m addr value io
      change bit (m.write .f addr value io).gpioF.odr 9 = _ at hcs
      change (m.write .f addr value io).radio = m.radio
      rw [htold.gpioF] at hcs
      rw [htold.radio, toldF, if_pos hcs.symm]
      rfl
  | read name addr => rfl
  | bus access => rfl
  | key line level => rfl
  | press value => rfl
  | ptt value => rfl
  | reset gpioFirst => cases hreset

/-- A step of the driver, or of someone else. -/
def Machine.either (m : Machine) : BK4819.Pin ⊕ Event → Machine
  | .inl p => m.step (drive p)
  | .inr e => m.step e

/-- The others spare the lines, and the data line is an input where it is sampled. -/
def Allowed (m : Machine) : BK4819.Pin ⊕ Event → Prop
  | .inl (.line .sample) => ¬ m.keypad.port.isOutput 9
  | .inl _ => True
  | .inr e => m.Spares e

instance Allowed.decidable (m : Machine) : ∀ x, Decidable (Allowed m x)
  | .inl (.line .sample) => inferInstanceAs (Decidable (¬ m.keypad.port.isOutput 9))
  | .inl (.line (.scl _)) => inferInstanceAs (Decidable True)
  | .inl (.line (.sda _)) => inferInstanceAs (Decidable True)
  | .inl (.cs _) => inferInstanceAs (Decidable True)
  | .inr e => inferInstanceAs (Decidable (m.Spares e))

/-- What the driver reads at its data line. -/
def sampled (m : Machine) : BK4819.Pin → List Bool
  | .line .sample => [bit ((m.port .b).read 0x10) 9]
  | _ => []

section Run

variable {m : Machine}

/-- Whatever is allowed to happen keeps the lines in agreement. -/
lemma Synced.either (h : Synced m) {x : BK4819.Pin ⊕ Event} (hx : Allowed m x) :
    Synced (m.either x) := by
  have hdrive : ∀ p, (drive p).isReset = false := by
    intro p
    cases p with
    | cs level => cases level <;> rfl
    | line l =>
      cases l with
      | scl level => cases level <;> rfl
      | sda level => cases level <;> rfl
      | sample => rfl
  cases x with
  | inl p => exact h.step (hdrive p)
  | inr e => exact h.step hx.1

/-- The driver reads what the transceiver drives. -/
lemma Synced.sampled_eq (h : Synced m) {p : BK4819.Pin} (hp : Allowed m (.inl p)) :
    sampled m p = BK4819.samples m.radio [p] := by
  cases p with
  | cs level => rfl
  | line l =>
    cases l with
    | scl level => rfl
    | sda level => rfl
    | sample =>
      change [bit (m.keypad.port.read 0x10) 9] = [m.radio.sdaIn]
      rw [bit_readIdr _ (by decide), if_neg hp, h.line]

/-- What an interleaving of the transceiver with the rest puts out is what the transceiver alone is
sampled as. -/
lemma outputs_samples (s : BK4819.State) (ps : List BK4819.Pin) :
    Interleaving.outputs BK4819.pinStep (fun s p => BK4819.samples s [p]) s ps =
      BK4819.samples s ps := by
  induction ps generalizing s with
  | nil => rfl
  | cons p ps ih =>
    rw [Interleaving.outputs, ih]
    exact (BK4819.samples_append s [p] ps).symm

/-- **The transceiver goes through the run of its driver**, and the driver samples what it drives
there, whatever else happens in between. -/
theorem Synced.run (h : Synced m) {es : List (BK4819.Pin ⊕ Event)}
    (hallowed : Run.AllSteps Machine.either Allowed m es) :
    (es.foldl Machine.either m).radio = BK4819.pins m.radio (Interleaving.own es) ∧
      Interleaving.ownOutputs Machine.either sampled m es =
        BK4819.samples m.radio (Interleaving.own es) := by
  have hkeeps : ∀ m x, Synced m → Allowed m x → Synced (m.either x) := fun _ _ h hx => h.either hx
  have hown : ∀ (m : Machine) p, Synced m →
      (m.either (.inl p)).radio = BK4819.pinStep m.radio p := fun _ p h => h.radio_drive p
  have hother : ∀ (m : Machine) e, Synced m → Allowed m (.inr e) →
      (m.either (.inr e)).radio = m.radio := fun _ _ _ he => Machine.Spares.radio he
  obtain ⟨-, hradio⟩ := Interleaving.view_foldl hkeeps hown hother es h hallowed
  refine ⟨hradio, ?_⟩
  rw [← outputs_samples]
  exact Interleaving.ownOutputs_eq hkeeps hown hother (fun _ _ h hp => h.sampled_eq hp) es h
    hallowed

end Run

/-- Chip select and the data line are high, and no reset was since. -/
lemma Wired.synced {m : Machine} (h : Wired m) (hcs : bit m.gpioF.odr 9 = true)
    (hsda : bit m.keypad.port.odr 9 = true) : Synced m :=
  ⟨h, by rw [hcs, h.released hcs]; rfl, by rw [hsda, h.raised hsda]⟩

/-- The selection of the transceiver, with the clock low. -/
def selection : List BK4819.Pin := [.line (.scl false), .cs false]

/-- **The transceiver among everything else.** After a reset anything happens, resets included,
until chip select and the data line are high. The driver then selects the transceiver, makes any
sequence of transactions, each complete or cut short, and reads a register; meanwhile anything else
happens at the ports, the keypad and the controllers, in any order, that leaves the three lines as
they are and makes no reset, and the data line is an input whenever it is sampled. The registers and
the receiver are those of the register machine, and the last levels that are sampled are the
register, most significant bit first.

**Proof sketch.** The lines agree after a reset as far as they are high, and everything keeps that;
a line that was high agrees from then on. So the steps of the driver reach the transceiver, those of
the others do not, and a transaction there is one on the pins alone. -/
theorem radio_among_others (m₀ : Machine) (gpioFirst : Bool) (history : List Event)
    (es : List (BK4819.Pin ⊕ Event)) (acts : List BK4819.Act) (c : BK4819.Reg) :
    let m := history.foldl Machine.step (m₀.reset gpioFirst)
    let r := acts.foldl (fun r a => a.apply r) m.radio.toRadio
    bit m.gpioF.odr 9 = true → bit m.keypad.port.odr 9 = true →
      Run.AllSteps Machine.either Allowed m es →
      Interleaving.own es = selection ++ acts.flatMap BK4819.Act.pins ++ (BK4819.Txn.read c).pins →
      (es.foldl Machine.either m).radio.toRadio = (BK4819.Txn.read c).apply r ∧
        ShiftRegister.msbBits 16 (BK4819.readValue r c).toNat <:+
          Interleaving.ownOutputs Machine.either sampled m es := by
  intro m r hcs hsda hallowed hown
  have hwired : Wired m := Run.foldl_of_step (fun _ e h => h.step e) history
    (wired_reset m₀ gpioFirst)
  obtain ⟨hradio, hsamples⟩ := (hwired.synced hcs hsda).run hallowed
  have hready : BK4819.Ready m.radio.toRadio (BK4819.pins m.radio selection) := by
    have hselect := BK4819.ready_reselect hwired.idle []
    rwa [List.map_nil, List.cons_append, BK4819.pins, List.foldl_cons, BK4819.pinStep,
      setCs_same _ _ (hwired.released hcs)] at hselect
  have hacts := hready.acts acts
  rw [← BK4819.pins_append] at hacts
  rw [hradio, hsamples, hown, BK4819.pins_append, BK4819.samples_append]
  refine ⟨(hacts.txn (.read c)).radio, ?_⟩
  rw [hacts.samples_read c]
  exact List.suffix_append _ _

/-- A machine before the first reset. -/
def unpowered : Machine where
  gpioA := resetPort
  keypad := Keypad.unpowered
  gpioF := resetPort
  spi := Dma.smallBoard
  radio :=
    { BK4819.resetRadio with
      cs := false, scl := false, sdaOut := false, bitCount := 0, shiftIn := 0
      cmd := BK4819.regRevision
      haveCmd := false, reading := false, skipFalling := false, shiftOut := 0, sdaIn := false }
  audio := ⟨false, 0⟩

/-- Chip select and the data line are driven high. -/
def idleBus : List Event := [drive (.cs true), drive (.line (.sda true))]

/-- A threshold is written, and another write is cut short. -/
def someActs : List BK4819.Act :=
  [.txn (.write BK4819.regRssiThresh 0x4600), .abort (.write BK4819.regFreqLow 0x1234) 5 []]

/-- The threshold is read back, while the keypad is scanned after the selection. -/
def readWhileScanning : List (BK4819.Pin ⊕ Event) :=
  selection.map .inl ++ [.inr (.write .b 0x18 0x78 .ok), .inr (.press "5")] ++
    (someActs.flatMap BK4819.Act.pins).map .inl ++
    (BK4819.Txn.read BK4819.regRssiThresh).pins.map .inl

/-- The levels that are sampled are the threshold. -/
theorem radio_among_others_scan :
    let m := idleBus.foldl Machine.step (unpowered.reset true)
    let r := someActs.foldl (fun r a => a.apply r) m.radio.toRadio
    (readWhileScanning.foldl Machine.either m).radio.toRadio =
        (BK4819.Txn.read BK4819.regRssiThresh).apply r ∧
      ShiftRegister.msbBits 16 (BK4819.readValue r BK4819.regRssiThresh).toNat <:+
        Interleaving.ownOutputs Machine.either sampled m readWhileScanning := by
  have hcs : bit (idleBus.foldl Machine.step (unpowered.reset true)).gpioF.odr 9 = true := by
    decide +kernel
  have hsda : bit (idleBus.foldl Machine.step (unpowered.reset true)).keypad.port.odr 9 = true := by
    decide +kernel
  have hallowed : Run.AllSteps Machine.either Allowed
      (idleBus.foldl Machine.step (unpowered.reset true)) readWhileScanning := by
    decide +kernel
  have hown : Interleaving.own readWhileScanning = selection ++ someActs.flatMap BK4819.Act.pins ++
      (BK4819.Txn.read BK4819.regRssiThresh).pins := by
    rw [readWhileScanning, Interleaving.own_append, Interleaving.own_append,
      Interleaving.own_append, Interleaving.own_map_inl, Interleaving.own_map_inl,
      Interleaving.own_map_inl]
    rfl
  exact radio_among_others unpowered true idleBus readWhileScanning someActs BK4819.regRssiThresh hcs
    hsda hallowed hown

/-! ## The keypad, and the amplifier -/

/-- The machine, with the columns of the keypad that were driven high since the last reset. -/
structure Watch where
  /-- The machine. -/
  machine : Machine
  /-- The columns whose pin was high. -/
  driven : Fin 5 → Bool

/-- One step. -/
def Watch.step (w : Watch) (e : Event) : Watch where
  machine := w.machine.step e
  driven := match e with
    | .write .b _ _ _ =>
      fun c => w.driven c || bit (w.machine.step e).keypad.port.odr (Keypad.colPin c)
    | .reset _ => fun _ => false
    | _ => w.driven

/-- The keypad, as it is watched alone. -/
def Watch.keypad (w : Watch) : Keypad.Watch := ⟨w.machine.keypad, w.driven⟩

/-- Levels on the data input keep the keypad in step with the columns that are driven. -/
lemma tracks_sdas {w : Keypad.Watch} (h : Keypad.Tracks w) (sdas : List Bool) :
    Keypad.Tracks ⟨(sdas.map Keypad.Event.sda).foldl Keypad.Board.step w.board, w.driven⟩ := by
  induction sdas generalizing w with
  | nil => exact h
  | cons level sdas ih => exact ih (h.step (.sda level))

/-- **One step** of anyone is to the keypad one of its own, and changes of the line that the
transceiver drives.

**Proof sketch.** By the event. A write of port B is one of the keypad's board, and afterwards the
transceiver may change the data line; a write of port F may do only that; a write of port A does
nothing to the keypad. -/
lemma Watch.tracks_step {w : Watch} (h : Keypad.Tracks w.keypad) (e : Event) :
    Keypad.Tracks (w.step e).keypad := by
  cases e with
  | write name addr value io =>
    cases name with
    | a =>
      have hkeypad : (w.machine.write .a addr value io).keypad = w.machine.keypad := by
        cases hnext : nextOdr w.machine.gpioA.odr addr value with
        | none =>
          rw [Machine.write, Machine.port, hnext]
          rfl
        | some odr =>
          obtain ⟨spi, hwrite⟩ := write_a_eq io hnext
          rw [hwrite]
      change Keypad.Tracks ⟨(w.machine.write .a addr value io).keypad, w.driven⟩
      rw [hkeypad]
      exact h
    | b =>
      have htold := told_write_b w.machine addr value io
      obtain ⟨sdas, hkeypad⟩ := htold.keypad
      have hwrite := tracks_sdas (h.step (.write addr value)) sdas
      change Keypad.Tracks ⟨(w.machine.write .b addr value io).keypad, fun c => w.driven c ||
        bit (w.machine.write .b addr value io).keypad.port.odr (Keypad.colPin c)⟩
      rw [htold.odr, hkeypad]
      exact hwrite
    | f =>
      obtain ⟨f, -, htold⟩ := told_write_f w.machine addr value io
      obtain ⟨sdas, hkeypad⟩ := htold.keypad
      change Keypad.Tracks ⟨(w.machine.write .f addr value io).keypad, w.driven⟩
      rw [hkeypad]
      exact tracks_sdas h sdas
  | read name addr => exact h
  | bus access => exact h
  | key line level => exact h.step (.key line level)
  | press value => exact h.step (.press value)
  | ptt value => exact h.step (.ptt value)
  | reset gpioFirst => exact h.step (.reset gpioFirst)

/-- **The whole board.** Whatever happens after a reset, in any order: the clock of the transceiver
is the output bit of its pin, the input bit of its data line is the level it drives, chip select and
the data line are high at the transceiver if they are at the ports, the path of the amplifier is
open exactly while its output bit is high, and the law of the rows holds whenever every column pin
was driven high since the last reset.

**Proof sketch.** Both parts hold after a reset and are kept by every event (`Wired.step`,
`Watch.tracks_step`). -/
theorem board_law (m₀ : Machine) (gpioFirst : Bool) (es : List Event) :
    let w := es.foldl Watch.step ⟨m₀.reset gpioFirst, fun _ => false⟩
    Wired w.machine ∧
      ((∀ c ∈ Keypad.columns, w.driven c = true) → Keypad.Law w.machine.keypad) := by
  intro w
  have hboth : Wired w.machine ∧ Keypad.Tracks w.keypad :=
    Run.foldl_of_step (I := fun w : Watch => Wired w.machine ∧ Keypad.Tracks w.keypad)
      (fun _ e h => ⟨h.1.step e, Watch.tracks_step h.2 e⟩) es
      ⟨wired_reset m₀ gpioFirst, Keypad.tracks_reset m₀.keypad gpioFirst⟩
  exact ⟨hboth.1, hboth.2.law⟩

end Uvk5.Wiring
