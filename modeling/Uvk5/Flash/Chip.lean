import Mathlib.Data.Nat.Notation
import Mathlib.Logic.Function.Basic
import Uvk5.Lib.File

set_option relaxedAutoImplicit false
set_option autoImplicit false

/-!
# The PY25Q16 serial flash (`qemu/py32f071.c`)

The 2 MiB SPI NOR part of the emulated radio: a command interpreter fed one byte at a time,
a chip-select line that frames commands, and a write-back of the changed range to a host file
when the chip is deselected or the emulator exits.

## Main definitions

* `PY25Q16.State` — the device state, `PY25Q16.Machine` — the device with its backing file.
* `PY25Q16.xfer` — `py25q16_xfer`, `PY25Q16.markDirty` — `py25q16_mark_dirty`,
  `PY25Q16.flush` — `py25q16_flush`, `PY25Q16.setCs` — `py25q16_set_cs`,
  `PY25Q16.exitNotify` — `py25q16_exit_notify`, `PY25Q16.realize` — `py25q16_realize`.
* `PY25Q16.Host` — the host's answers to the calls of one write-back attempt.

## Design

`addr` and `phase` are the source's 32-bit counters and wrap as they do there. The dirty
bounds never exceed the size of the part, so they are plain numbers. The diagnostic probes
(`probe_*`, the `UVK5_*_PROBE` logs) are written and never read back, and are left out.

A write-back runs against a host that may refuse each call. `Host` has one answer for every
call whose result the source looks at; `reached` is what a failing in-place write left behind
in the range it was asked to write. `fclose` on the temporary file is not looked at by the
source, and a temporary file that took all the bytes is taken to hold them.
-/

namespace Uvk5.PY25Q16

/-- `PY25Q16_SIZE`, 2 MiB. -/
def size : ℕ := 2 * 1024 * 1024

/-- `PY25Q16_PAGE_SIZE`, the page-program buffer. -/
def pageSize : UInt32 := 0x100

/-! ## Opcodes -/

/-- No command latched; also the opcode `0x00`. -/
def cmdNone : UInt8 := 0x00
/-- Page program. -/
def cmdPp : UInt8 := 0x02
/-- Read. -/
def cmdRead : UInt8 := 0x03
/-- Write disable. -/
def cmdWrdi : UInt8 := 0x04
/-- Read the status register. -/
def cmdRdsr : UInt8 := 0x05
/-- Write enable. -/
def cmdWren : UInt8 := 0x06
/-- Sector erase, 4 KiB. -/
def cmdSe : UInt8 := 0x20
/-- Read the manufacturer and device identification. -/
def cmdJedec : UInt8 := 0x9f

/-! ## State -/

/-- The storage array. -/
abbrev Memory := Fin size → UInt8

/-- `a % PY25Q16_SIZE` as an index into the array. -/
def wrap (a : ℕ) : Fin size := ⟨a % size, Nat.mod_lt a (by decide)⟩

/-- `PY25Q16State`. -/
structure State where
  /-- The array. -/
  data : Memory
  /-- The backing file's name, if the property was set. -/
  imagePath : Option String
  /-- Chip select asserted. -/
  selected : Bool
  /-- The command being executed, `cmdNone` while waiting for an opcode. -/
  cmd : UInt8
  /-- The address counter. -/
  addr : UInt32
  /-- Bytes consumed since the command byte. -/
  phase : UInt32
  /-- The write-enable latch. -/
  writeEnabled : Bool
  /-- The array differs from the backing file. -/
  dirty : Bool
  /-- Start of the range changed since the last write-back. -/
  dirtyLo : ℕ
  /-- End of the range changed since the last write-back. -/
  dirtyHi : ℕ

/-! ## The command interpreter -/

/-- `py25q16_mark_dirty`: grow the dirty range by `[addr, addr + len)`. -/
def markDirty (s : State) (addr len : ℕ) : State :=
  let addr := if size ≤ addr then addr % size else addr
  let len := if size < len then size else len
  let len := if size < addr + len then size - addr else len
  { s with
    dirtyLo := if !s.dirty || addr < s.dirtyLo then addr else s.dirtyLo
    dirtyHi := if !s.dirty || s.dirtyHi < addr + len then addr + len else s.dirtyHi
    dirty := true }

/-- The opcode byte: latch it, except for the two commands that act at once. -/
def latchOpcode (s : State) (out : UInt8) : State :=
  let s := { s with cmd := out, phase := 0, addr := 0 }
  if out = cmdWren then { s with writeEnabled := true, cmd := cmdNone }
  else if out = cmdWrdi then { s with writeEnabled := false, cmd := cmdNone }
  else s

/-- One more byte of the 24-bit address, most significant first. -/
def shiftAddr (s : State) (out : UInt8) : State :=
  { s with addr := (s.addr <<< 8) ||| out.toUInt32 }

/-- A byte of a `READ`. -/
def readByte (s : State) (out : UInt8) : UInt8 × State :=
  if s.phase ≤ 3 then (0xff, shiftAddr s out)
  else (s.data (wrap s.addr.toNat), { s with addr := s.addr + 1 })

/-- Clear bits of the addressed byte: NOR can only clear bits without an erase. -/
def program (s : State) (out : UInt8) : State :=
  let i := wrap s.addr.toNat
  markDirty { s with data := Function.update s.data i (s.data i &&& out) } i 1

/-- A byte of a `PAGE PROGRAM`, wrapping inside its page. -/
def ppByte (s : State) (out : UInt8) : UInt8 × State :=
  if s.phase ≤ 3 then (0xff, shiftAddr s out)
  else
    let s := if s.writeEnabled then program s out else s
    (0xff, { s with
      addr := (s.addr &&& ~~~(pageSize - 1)) ||| ((s.addr + 1) &&& (pageSize - 1)) })

/-- Set the addressed 4 KiB sector to `0xff`. -/
def eraseSector (s : State) : State :=
  let sector := (wrap (s.addr / 0x1000 * 0x1000).toNat : ℕ)
  markDirty { s with
    data := fun i => if sector ≤ i ∧ i < sector + 0x1000 then 0xff else s.data i } sector 0x1000

/-- A byte of a `SECTOR ERASE`, which acts on the third address byte. -/
def seByte (s : State) (out : UInt8) : UInt8 × State :=
  if s.phase ≤ 3 then
    let s := shiftAddr s out
    (0xff, if s.phase = 3 ∧ s.writeEnabled then eraseSector s else s)
  else (0xff, s)

/-- The reply to a byte of the identification: `85 60 15`, then nothing. -/
def jedecReply (phase : UInt32) : UInt8 :=
  if phase = 1 then 0x85 else if phase = 2 then 0x60 else if phase = 3 then 0x15 else 0xff

/-- A byte after the opcode, dispatched on the command. -/
def clockByte (s : State) (out : UInt8) : UInt8 × State :=
  if s.cmd = cmdRead then readByte s out
  else if s.cmd = cmdPp then ppByte s out
  else if s.cmd = cmdSe then seByte s out
  else if s.cmd = cmdRdsr then (if s.writeEnabled then 0x02 else 0x00, s)
  else if s.cmd = cmdJedec then (jedecReply s.phase, s)
  else (0xff, s)

/-- `py25q16_xfer`: clock one byte through the part and return the byte it drives. -/
def xfer (s : State) (out : UInt8) : UInt8 × State :=
  if !s.selected then (0xff, s)
  else if s.cmd = cmdNone then (0xff, latchOpcode s out)
  else clockByte { s with phase := s.phase + 1 } out

/-! ## The backing file -/

/-- The host's answers to the calls of one write-back attempt. -/
structure Host where
  /-- `fopen(image, "r+b")` works on an existing file. -/
  openOk : Bool
  /-- `fseek` works. -/
  seekOk : Bool
  /-- `fwrite` took the whole range. -/
  writeOk : Bool
  /-- `fclose` reported no late error. -/
  closeOk : Bool
  /-- What a failing in-place write left in the file, from the start of the range. -/
  reached : List UInt8
  /-- `fopen(tmp, "wb")` works. -/
  tmpOpenOk : Bool
  /-- `fwrite` took the whole image. -/
  tmpWriteOk : Bool
  /-- `g_rename` works. -/
  renameOk : Bool

/-- A host on which nothing fails. -/
def Host.ok : Host := ⟨true, true, true, true, [], true, true, true⟩

/-- The device together with the file its `image` property names, if that file exists. -/
structure Machine where
  /-- The device. -/
  chip : State
  /-- The backing file. -/
  file : Option (List UInt8)

/-- The `image` property names a file: set and not the empty string. -/
def hasImage (s : State) : Bool := s.imagePath.any (· ≠ "")

/-- `len` bytes of the array from offset `off`. -/
def dataRange (s : State) (off len : ℕ) : List UInt8 :=
  (List.range len).map fun k => s.data (wrap (off + k))

/-- The in-place write-back of the dirty range to an open file. -/
def flushInPlace (m : Machine) (file : List UInt8) (io : Host) : Machine :=
  let len := m.chip.dirtyHi - m.chip.dirtyLo
  let wrote := io.seekOk && io.writeOk && io.closeOk
  if wrote then
    { chip := { m.chip with dirty := false, dirtyLo := 0, dirtyHi := 0 }
      file := some (File.pwrite 0 file m.chip.dirtyLo (dataRange m.chip m.chip.dirtyLo len)) }
  else if io.seekOk then
    { m with file := some (File.pwrite 0 file m.chip.dirtyLo (io.reached.take len)) }
  else m

/-- The write-back of the whole image through a temporary file and a rename. -/
def flushRename (m : Machine) (io : Host) : Machine :=
  if io.tmpOpenOk && io.tmpWriteOk && io.renameOk then
    { chip := { m.chip with dirty := false }
      file := some (dataRange m.chip 0 size) }
  else m

/-- `py25q16_flush`: write the dirty range back in place, or the whole image if the file
cannot be opened for update. -/
def flush (m : Machine) (io : Host) : Machine :=
  if !m.chip.dirty || !hasImage m.chip then m
  else match m.file with
    | some file => if io.openOk then flushInPlace m file io else flushRename m io
    | none => flushRename m io

/-- The host lets a write-back of `file` through, on whichever path the source takes. -/
def Host.succeeds (io : Host) (file : Option (List UInt8)) : Bool :=
  if file.isSome && io.openOk then io.seekOk && io.writeOk && io.closeOk
  else io.tmpOpenOk && io.tmpWriteOk && io.renameOk

/-- `py25q16_set_cs`: both edges end the command in progress, the rising one also writes
back. Chip select is active low. -/
def setCs (m : Machine) (level : Bool) (io : Host) : Machine :=
  let selected := !level
  let m :=
    if !m.chip.selected && selected then
      { m with chip := { m.chip with cmd := cmdNone, phase := 0 } }
    else m
  let m :=
    if m.chip.selected && !selected then
      flush { m with chip := { m.chip with cmd := cmdNone, phase := 0 } } io
    else m
  { m with chip := { m.chip with selected := selected } }

/-- `py25q16_exit_notify`: on the way out, write everything back if anything changed. -/
def exitNotify (m : Machine) (io : Host) : Machine :=
  if m.chip.dirty then
    flush { m with chip := { m.chip with dirtyLo := 0, dirtyHi := size } } io
  else flush m io

/-- The array `py25q16_realize` loads: the file over a `0xff` prefill. -/
def load (file : List UInt8) : Memory := fun i => file.getD i 0xff

/-- `py25q16_realize`: a fresh device on the given file. -/
def realize (imagePath : Option String) (file : Option (List UInt8)) : Machine where
  chip :=
    { data := if imagePath.any (· ≠ "") then load (file.getD []) else load []
      imagePath := imagePath
      selected := false, cmd := cmdNone, addr := 0, phase := 0, writeEnabled := false
      dirty := false, dirtyLo := 0, dirtyHi := 0 }
  file := file

/-! ## What a write-back can do -/

/-- **The write-back by cases**: nothing, the dirty range in place, a torn range in place, or
the whole image through a rename.

**Proof sketch.** A chip that is not dirty or has no image is left alone. Otherwise an image that
can be opened is written in place, whole or torn as the host decides; one that is missing or
cannot be opened goes through the temporary file, all or nothing. -/
theorem flush_cases (m : Machine) (io : Host) :
    (flush m io = m ∧
      (m.chip.dirty = true → hasImage m.chip = true → io.succeeds m.file = false)) ∨
    (∃ f, m.file = some f ∧ m.chip.dirty = true ∧ io.succeeds m.file = true ∧
      flush m io =
        { chip := { m.chip with dirty := false, dirtyLo := 0, dirtyHi := 0 }
          file := some (File.pwrite 0 f m.chip.dirtyLo
            (dataRange m.chip m.chip.dirtyLo (m.chip.dirtyHi - m.chip.dirtyLo))) }) ∨
    (∃ f, m.file = some f ∧ m.chip.dirty = true ∧ io.succeeds m.file = false ∧
      flush m io = { m with file := some (File.pwrite 0 f m.chip.dirtyLo
        (io.reached.take (m.chip.dirtyHi - m.chip.dirtyLo))) }) ∨
    (m.chip.dirty = true ∧ io.succeeds m.file = true ∧
      flush m io =
        { chip := { m.chip with dirty := false }, file := some (dataRange m.chip 0 size) }) := by
  by_cases hskip : (!m.chip.dirty || !hasImage m.chip) = true
  · refine Or.inl ⟨by simp only [flush, hskip, if_true], fun hd hi => ?_⟩
    simp [hd, hi] at hskip
  have hd : m.chip.dirty = true := by
    by_contra h
    simp [h] at hskip
  have hflush : flush m io = match m.file with
      | some file => if io.openOk then flushInPlace m file io else flushRename m io
      | none => flushRename m io := by
    rw [flush, if_neg hskip]
  -- the rename path is shared by a missing file and one that cannot be opened for update
  have hrename : io.succeeds m.file = (io.tmpOpenOk && io.tmpWriteOk && io.renameOk) →
      (flushRename m io = m ∧ io.succeeds m.file = false) ∨
      (io.succeeds m.file = true ∧ flushRename m io =
        { chip := { m.chip with dirty := false }, file := some (dataRange m.chip 0 size) }) := by
    intro hs
    rw [hs, flushRename]
    by_cases hr : (io.tmpOpenOk && io.tmpWriteOk && io.renameOk) = true
    · exact Or.inr ⟨hr, if_pos hr⟩
    · exact Or.inl ⟨if_neg hr, by simpa using hr⟩
  rcases hf : m.file with _ | f
  · rw [hf] at hflush hrename
    rw [hflush]
    rcases hrename (by simp [Host.succeeds]) with ⟨h, hs⟩ | ⟨hs, h⟩
    · exact Or.inl ⟨h, fun _ _ => hs⟩
    · exact Or.inr (Or.inr (Or.inr ⟨hd, hs, h⟩))
  · rw [hf] at hflush hrename
    rw [hflush]
    by_cases ho : io.openOk = true
    · have hs : io.succeeds (some f) = (io.seekOk && io.writeOk && io.closeOk) := by
        simp [Host.succeeds, ho]
      simp only [ho, if_true, flushInPlace, hs]
      by_cases hw : (io.seekOk && io.writeOk && io.closeOk) = true
      · exact Or.inr (Or.inl ⟨f, rfl, hd, hw, if_pos hw⟩)
      have hw' : (io.seekOk && io.writeOk && io.closeOk) = false := by simpa using hw
      rw [if_neg hw]
      by_cases hseek : io.seekOk = true
      · exact Or.inr (Or.inr (Or.inl ⟨f, rfl, hd, hw', if_pos hseek⟩))
      · exact Or.inl ⟨if_neg hseek, fun _ _ => hw'⟩
    · simp only [ho, if_false, Bool.false_eq_true]
      rcases hrename (by simp [Host.succeeds, ho]) with ⟨h, hs⟩ | ⟨hs, h⟩
      · exact Or.inl ⟨h, fun _ _ => hs⟩
      · exact Or.inr (Or.inr (Or.inr ⟨hd, hs, h⟩))

/-! ## Runs -/

/-- What can happen to the device. -/
inductive Event where
  /-- A byte on the bus. -/
  | xfer (out : UInt8)
  /-- The chip-select line is driven. -/
  | setCs (level : Bool) (io : Host)
  /-- The emulator exits. -/
  | exitNotify (io : Host)

/-- One event. -/
def step (m : Machine) : Event → Machine
  | .xfer out => { m with chip := (xfer m.chip out).2 }
  | .setCs level io => setCs m level io
  | .exitNotify io => exitNotify m io

end Uvk5.PY25Q16
