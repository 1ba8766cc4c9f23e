import Uvk5.Flash.Controller
import Uvk5.Lib.Windows
import Uvk5.Lib.WordBits
import Uvk5.Web.Loaders

set_option relaxedAutoImplicit false
set_option autoImplicit false

/-!
# The memory map (`qemu/py32f071.c`)

The core and the DMA controller see one address space: the internal flash, which also shows at
address 0 from the application on, the memory, the peripherals, and behind these a device that
answers wherever no other does. Most peripherals are registers that keep what is written to them; of
the clock control and the converter the guest waits for flags.

## Main definitions

* `MemoryMap.windows` — the windows, in the order in which they are added.
* `MemoryMap.State.read`, `MemoryMap.State.write` — an access.
* `MemoryMap.State.step` — what may happen to the devices.

## Main results

* `MemoryMap.apart_windows` — windows of one priority do not overlap.
* `MemoryMap.resolve_named`, `MemoryMap.resolve_catchall` — which device answers.

## Design

The core has windows of its own above the others, which are left out. What is read from a device
that has a model of its own is left to that model.
-/

namespace Uvk5.MemoryMap

open FlashCtl (flashSize eraseCall)
open Image (py32FlashBase)
open Windows (Window resolve)
open WordBits

/-! ## The windows -/

/-- What answers in a window. -/
inductive Device where
  /-- The internal flash, from an offset on. -/
  | flash (offset : ℕ)
  /-- The memory. -/
  | sram
  /-- `py32-rcc`. -/
  | rcc
  /-- `py32-adc`. -/
  | adc
  /-- `py32-tim2`. -/
  | tim2
  /-- `py32-spi`. -/
  | spi (name : String)
  /-- `py32-dma`. -/
  | dma
  /-- `py32-gpio`. -/
  | gpio (name : String)
  /-- `py32-stub`. -/
  | stub (name : String)
  deriving DecidableEq

/-- Where a window of the flash begins in the array. -/
def Device.flashOffset : Device → Option ℕ
  | .flash offset => some offset
  | _ => none

/-- `py32_stubs`. -/
def py32Stubs : List (String × ℕ × ℕ) :=
  [("flash-ctl", 0x40022000, 0x400), ("pwr", 0x40007000, 0x400), ("syscfg", 0x40010000, 0x400),
    ("exti", 0x40021800, 0x400), ("crc", 0x40023000, 0x400), ("usart1", 0x40013800, 0x400),
    ("usart2", 0x40004400, 0x400), ("i2c1", 0x40005400, 0x400), ("i2c2", 0x40005800, 0x400),
    ("tim1", 0x40012c00, 0x400), ("tim3", 0x40000400, 0x400), ("tim6", 0x40001000, 0x400),
    ("tim7", 0x40001400, 0x400), ("tim14", 0x40002000, 0x400), ("tim15", 0x40014000, 0x400),
    ("tim16", 0x40014400, 0x400), ("tim17", 0x40014800, 0x400), ("usb", 0x40005c00, 0x400),
    ("rtc", 0x40002800, 0x400), ("iwdg", 0x40003000, 0x400), ("wwdg", 0x40002c00, 0x400),
    ("usart3", 0x40004800, 0x400), ("usart4", 0x40004c00, 0x400), ("dbgmcu", 0x40015800, 0x400),
    ("lcd-ctl", 0x40002400, 0x400), ("unk-30000000", 0x30000000, 0x1000),
    ("catchall", 0x40000000, 0x80000), ("info-block", 0x1FFF3000, 0x400)]

/-- The window of a stub. -/
def stubWindow (stub : String × ℕ × ℕ) : Window Device :=
  ⟨stub.2.1, stub.2.2, if stub.1 = "catchall" then -1 else 0, .stub stub.1⟩

/-- The windows that are always the same. -/
def fixedWindows : List (Window Device) :=
  [⟨py32FlashBase, flashSize, 0, .flash 0⟩, ⟨0x20000000, 16 * 1024, 0, .sram⟩,
    ⟨0x40021000, 0x400, 0, .rcc⟩, ⟨0x40012400, 0x400, 0, .adc⟩, ⟨0x40000000, 0x400, 0, .tim2⟩,
    ⟨0x40013000, 0x400, 0, .spi "1"⟩, ⟨0x40003800, 0x400, 0, .spi "2"⟩,
    ⟨0x40020000, 0x400, 0, .dma⟩, ⟨0x50000000, 0x400, 0, .gpio "a"⟩,
    ⟨0x50000400, 0x400, 0, .gpio "b"⟩, ⟨0x50000800, 0x400, 0, .gpio "c"⟩,
    ⟨0x50001400, 0x400, 0, .gpio "f"⟩] ++ py32Stubs.map stubWindow

/-- `py32f071_soc_realize`: the windows of the container. -/
def windows (appOffset : ℕ) : List (Window Device) :=
  fixedWindows ++ [⟨0, flashSize - appOffset, 0, .flash appOffset⟩]

/-! ## The devices -/

/-- An access. -/
structure Access where
  /-- The address. -/
  addr : ℕ
  /-- The number of bytes. -/
  size : ℕ
  /-- It is one that the core makes. -/
  aligned : (size = 1 ∨ size = 2 ∨ size = 4) ∧ addr % size = 0

/-- The access has the byte at an address. -/
def Access.Covers (a : Access) (addr : ℕ) : Prop := a.addr ≤ addr ∧ addr < a.addr + a.size

instance (a : Access) (addr : ℕ) : Decidable (a.Covers addr) :=
  inferInstanceAs (Decidable (_ ∧ _))

/-- What an access has of a value. -/
def Access.masked (a : Access) (value : UInt32) : UInt32 :=
  UInt32.ofNat (value.toNat % 2 ^ (8 * a.size))

/-- A byte of a value. -/
def byteOf (value : UInt32) (i : ℕ) : UInt8 := UInt8.ofNat (value.toNat / 2 ^ (8 * i))

/-- Bytes are stored. -/
def store (memory : ℕ → UInt8) (offset size : ℕ) (value : UInt32) : ℕ → UInt8 := fun i =>
  if offset ≤ i ∧ i < offset + size then byteOf value (i - offset) else memory i

/-- Bytes are loaded. -/
def load (memory : ℕ → UInt8) (offset size : ℕ) : UInt32 :=
  UInt32.ofNat (Bytes.ofLe ((List.range size).map fun i => memory (offset + i)))

/-- `py32_rcc_read`. -/
def rccRead (regs : ℕ → UInt32) (addr : ℕ) : UInt32 :=
  let idx := addr / 4
  if idx ≥ 0x40 then 0
  else
    let value := regs idx
    if addr = 0x00 then
      let value := if value &&& mask 8 ≠ 0 then value ||| mask 10 else value
      let value := if value &&& mask 16 ≠ 0 then value ||| mask 17 else value
      let value := if value &&& mask 24 ≠ 0 then value ||| mask 25 else value
      value ||| mask 1
    else if addr = 0x08 then (value &&& ~~~(0x38 : UInt32)) ||| ((value &&& 0x7) <<< (3 : UInt32))
    else value

/-- `py32_rcc_write`. -/
def rccWrite (regs : ℕ → UInt32) (addr : ℕ) (value : UInt32) : ℕ → UInt32 :=
  let idx := addr / 4
  if idx ≥ 0x40 then regs else Function.update regs idx value

/-- `py32_rcc_reset`. -/
def rccReset : ℕ → UInt32 := Function.update (fun _ => 0) 0 (mask 8 ||| mask 10)

/-- `PY32AdcState`. -/
structure Adc where
  /-- `regs`. -/
  regs : ℕ → UInt32
  /-- `result`. -/
  result : UInt32

/-- `ADC_SR_EOC`. -/
def srEoc : UInt32 := mask 1
/-- `ADC_SR_STRT`. -/
def srStrt : UInt32 := mask 4
/-- `ADC_CR2_ADON`. -/
def cr2Adon : UInt32 := mask 0
/-- `ADC_CR2_CAL`. -/
def cr2Cal : UInt32 := mask 2
/-- `ADC_CR2_RSTCAL`. -/
def cr2Rstcal : UInt32 := mask 3

/-- `py32_adc_read`. -/
def adcRead (s : Adc) (addr : ℕ) : UInt32 × Adc :=
  let idx := addr / 4
  if idx ≥ 0x20 then (0, s)
  else if addr = 0x50 then
    (s.result, { s with regs := Function.update s.regs 0 (s.regs 0 &&& ~~~srEoc) })
  else (s.regs idx, s)

/-- `py32_adc_write`. -/
def adcWrite (s : Adc) (addr : ℕ) (value : UInt32) : Adc :=
  let idx := addr / 4
  if idx ≥ 0x20 then s
  else if addr = 0x08 then
    let s := { s with regs := Function.update s.regs idx (value &&& ~~~(cr2Cal ||| cr2Rstcal)) }
    if value &&& cr2Adon ≠ 0 then
      { s with regs := Function.update s.regs 0 (s.regs 0 ||| (srEoc ||| srStrt)) }
    else s
  else if addr = 0x00 then { s with regs := Function.update s.regs idx (s.regs idx &&& value) }
  else { s with regs := Function.update s.regs idx value }

/-- `py32_adc_reset`. -/
def adcReset : Adc := ⟨fun _ => 0, 2200⟩

/-- `py32_adc_set_result`. -/
def adcSetResult (s : Adc) (value : ℕ) : Adc :=
  { s with result := if value > 0xfff then 0xfff else UInt32.ofNat value }

/-- The offsets of the flash controller that its own model writes. -/
def flashCtlWrites : List ℕ := [0x04, 0x0c, 0x10, 0x14]

/-- `py32_stub_write`, as far as `regs` is concerned. -/
def stubWrite (name : String) (regs : ℕ → UInt32) (addr : ℕ) (value : UInt32) : ℕ → UInt32 :=
  if name = "flash-ctl" ∧ addr ∈ flashCtlWrites then regs
  else if addr / 4 < 0x100 then Function.update regs (addr / 4) value else regs

/-- `py32_stub_read`, where it reads `regs`. -/
def stubRead (regs : ℕ → UInt32) (addr : ℕ) : UInt32 :=
  if addr / 4 < 0x100 then regs (addr / 4) else 0

/-- The registers that the stubs of the serial port and of the flash controller do not read from
`regs`. -/
def Elsewhere (name : String) (addr : ℕ) : Prop :=
  name = "usart1" ∧ (addr = 0x00 ∨ addr = 0x04) ∨
    name = "flash-ctl" ∧ (addr = 0x0c ∨ addr = 0x10 ∨ addr = 0x14)

instance (name : String) (addr : ℕ) : Decidable (Elsewhere name addr) :=
  inferInstanceAs (Decidable (_ ∨ _))

/-! ## Accesses -/

/-- What the peripherals keep. -/
structure State where
  /-- The internal flash. -/
  flash : ℕ → UInt8
  /-- The registers of the clock control. -/
  rcc : ℕ → UInt32
  /-- The converter. -/
  adc : Adc
  /-- `regs` of every stub. -/
  stub : String → ℕ → UInt32

/-- A write to a device. The clock control and the converter take words only. -/
def State.writeDevice (s : State) (a : Access) (value : UInt32) (addr : ℕ) : Device → State
  | .flash offset => { s with flash := store s.flash (offset + addr) a.size value }
  | .rcc => if a.size = 4 then { s with rcc := rccWrite s.rcc addr value } else s
  | .adc => if a.size = 4 then { s with adc := adcWrite s.adc addr value } else s
  | .stub name =>
    { s with
      stub := Function.update s.stub name (stubWrite name (s.stub name) addr (a.masked value)) }
  | _ => s

/-- A read from a device. There is no answer from one that has a model of its own. -/
def State.readDevice (s : State) (a : Access) (addr : ℕ) : Device → Option UInt32 × State
  | .flash offset => (some (load s.flash (offset + addr) a.size), s)
  | .rcc => if a.size = 4 then (some (rccRead s.rcc addr), s) else (none, s)
  | .adc =>
    if a.size = 4 then (some (adcRead s.adc addr).1, { s with adc := (adcRead s.adc addr).2 })
    else (none, s)
  | .stub name =>
    if Elsewhere name addr then (none, s)
    else (some (a.masked (stubRead (s.stub name) addr)), s)
  | _ => (none, s)

variable (appOffset : ℕ)

/-- A write. -/
def State.write (s : State) (a : Access) (value : UInt32) : State :=
  (resolve (windows appOffset) a.addr).elim s fun w =>
    s.writeDevice a value (a.addr - w.base) w.device

/-- A read. -/
def State.read (s : State) (a : Access) : Option UInt32 × State :=
  (resolve (windows appOffset) a.addr).elim (none, s) fun w =>
    s.readDevice a (a.addr - w.base) w.device

/-- What happens. -/
inductive Event where
  /-- A write by the core or by the DMA controller. -/
  | write (a : Access) (value : UInt32)
  /-- A read. -/
  | read (a : Access)
  /-- The flash controller erases the whole array, or the page at AR. -/
  | erase (ar : UInt32) (whole : Bool)
  /-- The property `adc-result` is written. -/
  | adcResult (value : ℕ)
  /-- A reset, when the loader puts the image into the flash again. The stubs have none. -/
  | reset (loaded : ℕ → Option UInt8)

/-- One event. -/
def State.step (s : State) : Event → State
  | .write a value => s.write appOffset a value
  | .read a => (s.read appOffset a).2
  | .erase ar whole =>
    { s with flash := (eraseCall ar whole).elim s.flash fun call => call.apply s.flash }
  | .adcResult value => { s with adc := adcSetResult s.adc value }
  | .reset loaded =>
    { s with flash := fun i => (loaded i).getD (s.flash i), rcc := rccReset, adc := adcReset }

/-! ## Which window answers -/

/-- What the fixed windows have in common. -/
lemma fixedWindows_spec : ∀ w ∈ fixedWindows, flashSize ≤ w.base ∧ w.priority ≤ 0 ∧
    (w = ⟨py32FlashBase, flashSize, 0, .flash 0⟩ ∨ w.device.flashOffset = none) := by
  decide +kernel

/-- The windows overlap only where the priority says which answers. -/
lemma apart_windows (appOffset : ℕ) : Windows.Apart (windows appOffset) := by
  have hfixed : Windows.Apart fixedWindows := by decide +kernel
  refine List.pairwise_append.mpr ⟨hfixed, List.pairwise_singleton .., fun w hw w' hw' _ => ?_⟩
  rw [List.mem_singleton.mp hw']
  have hbase := (fixedWindows_spec w hw).1
  exact .inr (by dsimp only; omega)

/-- No priority is above that of the named windows. -/
lemma priority_le {w : Window Device} (h : w ∈ windows appOffset) : w.priority ≤ 0 := by
  rcases List.mem_append.mp h with hold | hnew
  · exact (fixedWindows_spec w hold).2.1
  · rw [List.mem_singleton.mp hnew]

/-- A named device answers everywhere in its window. -/
lemma resolve_named {w : Window Device} (h : w ∈ windows appOffset) (hpriority : w.priority = 0)
    {addr : ℕ} (haddr : w.Contains addr) : resolve (windows appOffset) addr = some w := by
  refine (Windows.resolve_eq_some_iff (apart_windows appOffset)).mpr ⟨h, haddr, fun w' hw' _ => ?_⟩
  rw [hpriority]
  exact priority_le appOffset hw'

/-- Whatever answers has the address. -/
lemma resolve_contains {addr : ℕ} {w : Window Device}
    (h : resolve (windows appOffset) addr = some w) : w ∈ windows appOffset ∧ w.Contains addr := by
  obtain ⟨hmem, hcontains, -⟩ := Windows.resolve_spec h
  exact ⟨hmem, hcontains⟩

/-- The device behind the others answers where no named device does. -/
lemma resolve_catchall {addr : ℕ} (hlow : 0x40000000 ≤ addr) (hhigh : addr < 0x40080000)
    (hnone : ∀ w ∈ windows appOffset, w.Contains addr → w.priority ≠ 0) :
    resolve (windows appOffset) addr = some (stubWindow ("catchall", 0x40000000, 0x80000)) := by
  have hmem : stubWindow ("catchall", 0x40000000, 0x80000) ∈ windows appOffset := by
    refine List.mem_append_left _ (List.mem_append_right _ (List.mem_map_of_mem ?_))
    simp [py32Stubs]
  refine (Windows.resolve_eq_some_iff (apart_windows appOffset)).mpr
    ⟨hmem, ⟨hlow, hhigh⟩, fun w hw hcontains => ?_⟩
  have hle := priority_le appOffset hw
  have hne := hnone w hw hcontains
  change w.priority ≤ -1
  omega

end Uvk5.MemoryMap
