import Mathlib.Data.List.Basic
import Uvk5.Lib.Bytes

set_option relaxedAutoImplicit false
set_option autoImplicit false

/-!
# Firmware images (`tools/uvk5_image.py`)

Where an image has to be loaded is read from its vector table.

## Main definitions

* `Image.vectorAt` — a plausible vector table.
* `Image.detect` — the shape of an image.
-/

namespace Uvk5.Image

open Bytes

/-- `FLASH_BASE`. -/
def flashBase : ℕ := 0x08000000
/-- `APP_OFFSET`. -/
def appOffset : ℕ := 0x2800
/-- `SRAM_BASE`. -/
def sramBase : ℕ := 0x20000000
/-- `SRAM_TOP`. -/
def sramTop : ℕ := 0x20004000
/-- `ELF_MAGIC`. -/
def elfMagic : List UInt8 := [0x7f, 0x45, 0x4c, 0x46]
/-- `MAX_IMAGE`. -/
def maxImage : ℕ := 4 * 1024 * 1024

/-- `ImageError`. -/
inductive ImageError where
  /-- There is no such file. -/
  | noFile
  /-- The file is empty. -/
  | empty
  /-- The file is larger than any image. -/
  | tooLarge (size : ℕ)
  /-- There is no vector table at its beginning. -/
  | noVector
  deriving DecidableEq

/-- The kind of an image. -/
inductive Kind where
  /-- `"application"`. -/
  | application
  /-- `"full-flash"`. -/
  | fullFlash
  /-- `"elf"`. -/
  | elf
  deriving DecidableEq

/-- `ImageInfo`, without the path. -/
structure Shape where
  /-- `kind`. -/
  kind : Kind
  /-- `app_offset`. -/
  appOffset : ℕ
  /-- `size`. -/
  size : ℕ
  /-- `sp` and `reset`. -/
  vector : Option (ℕ × ℕ)
  deriving DecidableEq

/-- `_vector_at`. -/
def vectorAt (data : List UInt8) (offset : ℕ) : Option (ℕ × ℕ) :=
  if offset + 8 > data.length then none
  else
    let sp := ofLe (slice data offset (offset + 4))
    let reset := ofLe (slice data (offset + 4) (offset + 8))
    if ¬ (sramBase < sp ∧ sp ≤ sramTop) then none
    else if ¬ (flashBase ≤ reset ∧ reset < flashBase + data.length) then none
    else some (sp, reset)

/-- `detect`, of the file with these bytes or of no file. -/
def detect (file : Option (List UInt8)) : Except ImageError Shape :=
  match file with
  | none => .error .noFile
  | some data =>
    if data.length = 0 then .error .empty
    else if data.length > maxImage then .error (.tooLarge data.length)
    else if data.take 4 = elfMagic then .ok ⟨.elf, appOffset, data.length, none⟩
    else
      match vectorAt data 0 with
      | none => .error .noVector
      | some (sp, reset) =>
        if reset < flashBase + appOffset then .ok ⟨.fullFlash, 0, data.length, some (sp, reset)⟩
        else .ok ⟨.application, appOffset, data.length, some (sp, reset)⟩

end Uvk5.Image
