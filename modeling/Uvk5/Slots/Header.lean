import Mathlib.Logic.Function.Iterate
import Uvk5.Lib.Bytes

set_option relaxedAutoImplicit false
set_option autoImplicit false

/-!
# Firmware slot headers (`tools/uvk5_slots.py`)

The 64-byte header in front of a firmware image in a slot of the external flash.

## Main definitions

* `Slots.crc32` — `zlib.crc32`.
* `Slots.buildHeader` — `build_header`.

## Main results

* `Slots.length_buildHeader` — a header is 64 bytes long.
-/

namespace Uvk5.Slots

open Bytes

/-- One bit of the reflected CRC-32. -/
def crc32Bit (crc : UInt32) : UInt32 :=
  if crc &&& 1 ≠ 0 then (crc >>> 1) ^^^ 0xEDB88320 else crc >>> 1

/-- One byte of the CRC-32. -/
def crc32Byte (crc : UInt32) (byte : UInt8) : UInt32 := crc32Bit^[8] (crc ^^^ byte.toUInt32)

/-- `zlib.crc32(data) & 0xFFFFFFFF`. -/
def crc32 (data : List UInt8) : UInt32 := data.foldl crc32Byte 0xFFFFFFFF ^^^ 0xFFFFFFFF

/-- `SLOT_MAGIC`. -/
def slotMagic : ℕ := 0x31424D46
/-- `HDR_VERSION`. -/
def hdrVersion : ℕ := 1
/-- `MB_FLAG_COMMITTED`. -/
def mbFlagCommitted : ℕ := 1
/-- `SLOT_STRIDE`. -/
def slotStride : ℕ := 0x20000
/-- `SLOT_IMAGE_OFFSET`. -/
def slotImageOffset : ℕ := 0x1000

/-- `s.encode("ascii", "replace")`: a question mark for every other character. -/
def encodeAscii (s : String) : List UInt8 :=
  s.toList.map fun c => if c.val < 128 then c.val.toUInt8 else 0x3F

/-- A text field: `encode("ascii", "replace")[:15].ljust(16, b"\\x00")`. -/
def textField (s : String) : List UInt8 := ((encodeAscii s).take 15).rightpad 16 0

/-- `build_header`, with `none` for the `ValueError` of an image that is too long. -/
def buildHeader (image : List UInt8) (name fwVersion : String) : Option (List UInt8) :=
  if image.length > slotStride - slotImageOffset then none
  else some <|
    toLe 4 slotMagic ++ toLe 2 hdrVersion ++ toLe 2 mbFlagCommitted ++ toLe 4 image.length ++
      toLe 4 (crc32 image).toNat ++ textField name ++ textField fwVersion ++ List.replicate 16 0

/-- A text in a header takes sixteen bytes. -/
lemma length_textField (s : String) : (textField s).length = 16 := by
  rw [textField, List.length_rightpad, List.length_take]
  omega

/-- A header is 64 bytes long. -/
theorem length_buildHeader {image header : List UInt8} {name fwVersion : String}
    (h : buildHeader image name fwVersion = some header) : header.length = 64 := by
  rw [buildHeader] at h
  split at h
  · cases h
  · obtain rfl := Option.some.inj h
    simp only [List.length_append, length_toLe, length_textField, List.length_replicate]

end Uvk5.Slots
