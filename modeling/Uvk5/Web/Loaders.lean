import Uvk5.Web.Image

set_option relaxedAutoImplicit false
set_option autoImplicit false

/-!
# The readers of an image (`qemu/py32f071.c`, `tools/bin2elf.py`)

Three programs read the vector table of an image: the page, which says where the image is loaded,
the machine, which loads it, and a tool that wraps it in an ELF file.

## Main definitions

* `Image.sniffAppOffset` — where the machine loads an image.
* `Image.buildElf` — the ELF file of an application.

## Main results

* `Image.detect_eq_sniff` — the page and the machine agree on every image that the page accepts.
* `Image.detect_application_iff` — which applications the page accepts.
-/

namespace Uvk5.Image

open Bytes

/-! ## The machine -/

/-- `PY32_FLASH_BASE`. -/
def py32FlashBase : ℕ := 0x08000000
/-- `PY32_APP_OFFSET`. -/
def py32AppOffset : ℕ := 0x2800
/-- `PY32_SRAM_BASE`. -/
def py32SramBase : ℕ := 0x20000000
/-- `PY32_SRAM_SIZE`. -/
def py32SramSize : ℕ := 16 * 1024

/-- The first word: the initial SP. -/
def initialSp (data : List UInt8) : ℕ := ofLe (slice data 0 4)

/-- The second word: the reset handler. -/
def resetHandler (data : List UInt8) : ℕ := ofLe (slice data 4 8)

/-- `uvk5_sniff_app_offset`, of the file with these bytes or of one that cannot be read. -/
def sniffAppOffset (file : Option (List UInt8)) : ℕ :=
  match file with
  | none => py32AppOffset
  | some data =>
    if data.length < 8 then py32AppOffset
    else if data.take 4 = [0x7f, 0x45, 0x4c, 0x46] then py32AppOffset
    else if initialSp data ≤ py32SramBase ∨ initialSp data > py32SramBase + py32SramSize then
      py32AppOffset
    else if resetHandler data ≥ py32FlashBase ∧
        resetHandler data < py32FlashBase + py32AppOffset then 0
    else py32AppOffset

/-- What makes a vector table plausible. -/
lemma vectorAt_zero_iff {data : List UInt8} {v : ℕ × ℕ} : vectorAt data 0 = some v ↔
    8 ≤ data.length ∧ (sramBase < initialSp data ∧ initialSp data ≤ sramTop) ∧
      (flashBase ≤ resetHandler data ∧ resetHandler data < flashBase + data.length) ∧
      v = (initialSp data, resetHandler data) := by
  rw [vectorAt, Nat.zero_add]
  change (if 8 > data.length then none
    else if ¬ (sramBase < initialSp data ∧ initialSp data ≤ sramTop) then none
    else if ¬ (flashBase ≤ resetHandler data ∧ resetHandler data < flashBase + data.length) then none
    else some (initialSp data, resetHandler data)) = some v ↔ _
  by_cases hlen : 8 > data.length
  · rw [if_pos hlen]
    exact ⟨nofun, fun h => absurd h.1 (Nat.not_le.mpr hlen)⟩
  rw [if_neg hlen]
  by_cases hsp : sramBase < initialSp data ∧ initialSp data ≤ sramTop
  swap
  · rw [if_pos hsp]
    exact ⟨nofun, fun h => absurd h.2.1 hsp⟩
  rw [if_neg (not_not.mpr hsp)]
  by_cases hreset : flashBase ≤ resetHandler data ∧ resetHandler data < flashBase + data.length
  · rw [if_neg (not_not.mpr hreset), Option.some.injEq]
    exact ⟨fun h => ⟨Nat.not_lt.mp hlen, hsp, hreset, h.symm⟩, fun h => h.2.2.2.symm⟩
  · rw [if_pos hreset]
    exact ⟨nofun, fun h => absurd h.2.2.1 hreset⟩

/-- **The page and the machine agree**: an image that the page accepts is loaded by the machine at
the offset the page shows.

**Proof sketch.** An ELF image has no offset on either side. Of a raw image that the page accepts
the first two words pass the tests of the machine too, and both decide by the same bound on the
second. -/
theorem detect_eq_sniff {data : List UInt8} {shape : Shape}
    (h : detect (some data) = .ok shape) : shape.appOffset = sniffAppOffset (some data) := by
  rw [detect] at h
  split at h
  · cases h
  split at h
  · cases h
  split at h
  · next helf =>
    have hmagic : data.take 4 = [0x7f, 0x45, 0x4c, 0x46] := helf
    obtain rfl := Except.ok.inj h
    rw [sniffAppOffset, if_pos hmagic]
    split <;> rfl
  next helf =>
  cases hvector : vectorAt data 0 with
  | none =>
    rw [hvector] at h
    cases h
  | some v =>
    obtain ⟨hlen, hsp, hreset, rfl⟩ := vectorAt_zero_iff.mp hvector
    rw [hvector] at h
    dsimp only at h
    have hsniff : sniffAppOffset (some data) =
        if resetHandler data ≥ py32FlashBase ∧
          resetHandler data < py32FlashBase + py32AppOffset then 0 else py32AppOffset := by
      have hsp' : ¬ (initialSp data ≤ py32SramBase ∨
          initialSp data > py32SramBase + py32SramSize) := by
        obtain ⟨hlow, hhigh⟩ := hsp
        rw [sramBase] at hlow
        rw [sramTop] at hhigh
        rw [py32SramBase, py32SramSize]
        omega
      have hmagic : ¬ data.take 4 = [0x7f, 0x45, 0x4c, 0x46] := helf
      rw [sniffAppOffset, if_neg (Nat.not_lt.mpr hlen), if_neg hmagic, if_neg hsp']
    rw [hsniff]
    split at h
    · next hlow =>
      obtain rfl := Except.ok.inj h
      exact (if_pos ⟨hreset.1, hlow⟩).symm
    · next hhigh =>
      obtain rfl := Except.ok.inj h
      exact (if_neg fun hboth => hhigh hboth.2).symm

/-- A full-flash image of eight bytes: its handler is in the bootloader. -/
def bootloaderImage : List UInt8 := [0x00, 0x40, 0x00, 0x20, 0x01, 0x00, 0x00, 0x08]

/-- The full-flash image of the example is booted from the bootloader on. -/
theorem detect_eq_sniff_bootloader : sniffAppOffset (some bootloaderImage) = 0 := by
  have hdetect : detect (some bootloaderImage) =
      .ok ⟨.fullFlash, 0, 8, some (0x20004000, 0x08000001)⟩ := by decide
  exact (detect_eq_sniff hdetect).symm

/-! ## The tool -/

/-- `APP_BASE_DEFAULT`. -/
def appBaseDefault : ℕ := 0x08002800

/-- The `SystemExit` of `build_elf`. -/
inductive BuildError where
  /-- `"image is too short to hold a vector table"`. -/
  | tooShort
  /-- `"initial SP ... is not in SRAM -- is this an application image?"`. -/
  | badSp (sp : ℕ)
  /-- `"reset vector ... does not land inside the image loaded at ... -- wrong --base?"`. -/
  | badReset (reset base : ℕ)
  /-- `struct.error`: the size does not fit its field. -/
  | struct
  deriving DecidableEq

/-- The ELF header. -/
def elfHeader (reset : ℕ) : List UInt8 :=
  [0x7f, 0x45, 0x4c, 0x46, 1, 1, 1] ++ List.replicate 9 0 ++
    (toLe 2 2 ++ toLe 2 40 ++ toLe 4 1 ++ toLe 4 reset ++ toLe 4 52 ++ toLe 4 0 ++
      toLe 4 0x05000000 ++ toLe 2 52 ++ toLe 2 32 ++ toLe 2 1 ++ toLe 2 40 ++ toLe 2 0 ++ toLe 2 0)

/-- The program header: one `PT_LOAD`. -/
def programHeader (offset base size : ℕ) : List UInt8 :=
  toLe 4 1 ++ toLe 4 offset ++ toLe 4 base ++ toLe 4 base ++ toLe 4 size ++ toLe 4 size ++
    toLe 4 5 ++ toLe 4 0x1000

/-- `build_elf`. -/
def buildElf (image : List UInt8) (base : ℕ) : Except BuildError (List UInt8) :=
  if image.length < 8 then .error .tooShort
  else
    let sp := initialSp image
    let reset := resetHandler image
    if ¬ (0x20000000 ≤ sp ∧ sp ≤ 0x20004000) then .error (.badSp sp)
    else if reset / 2 * 2 < base ∨ reset / 2 * 2 ≥ base + image.length then
      .error (.badReset reset base)
    else if image.length ≥ 2 ^ 32 then .error .struct
    else
      let offset := base % 0x10000
      let ehdr := elfHeader reset
      let phdr := programHeader offset base image.length
      .ok (ehdr ++ phdr ++ List.replicate (offset - ehdr.length - phdr.length) 0 ++ image)

/-- An application, as the tool sees it: it is linked for the application region, and its handler is
inside it. -/
structure Application (data : List UInt8) : Prop where
  length : 8 ≤ data.length ∧ data.length ≤ maxImage
  sp : 0x20000000 < initialSp data ∧ initialSp data ≤ 0x20004000
  reset : 0x08002800 ≤ resetHandler data ∧ resetHandler data < 0x08002800 + data.length
  notElf : data.take 4 ≠ elfMagic

/-- The tool accepts an application. -/
lemma Application.buildElf {data : List UInt8} (h : Application data) :
    ∃ elf, buildElf data appBaseDefault = .ok elf := by
  obtain ⟨hsp, hsp'⟩ := h.sp
  obtain ⟨hreset, hreset'⟩ := h.reset
  have hinside : ¬ (resetHandler data / 2 * 2 < appBaseDefault ∨
      resetHandler data / 2 * 2 ≥ appBaseDefault + data.length) := by
    rw [appBaseDefault]
    omega
  have hsize : ¬ data.length ≥ 2 ^ 32 := by
    have hmax := h.length.2
    rw [maxImage] at hmax
    omega
  rw [Image.buildElf, if_neg (Nat.not_lt.mpr h.length.1)]
  dsimp only
  rw [if_neg (not_not.mpr ⟨Nat.le_of_lt hsp, hsp'⟩), if_neg hinside, if_neg hsize]
  exact ⟨_, rfl⟩

/-- What the page makes of an application. -/
lemma Application.detect {data : List UInt8} (h : Application data) : detect (some data) =
    if resetHandler data < flashBase + data.length then
      .ok ⟨.application, appOffset, data.length, some (initialSp data, resetHandler data)⟩
    else .error .noVector := by
  obtain ⟨hlen, hmax⟩ := h.length
  obtain ⟨hreset, -⟩ := h.reset
  have hbase : flashBase ≤ resetHandler data := by
    rw [flashBase]
    omega
  rw [Image.detect, if_neg (by omega), if_neg (Nat.not_lt.mpr hmax), if_neg h.notElf]
  by_cases hinside : resetHandler data < flashBase + data.length
  · have hvector := vectorAt_zero_iff.mpr ⟨hlen, h.sp, ⟨hbase, hinside⟩, rfl⟩
    rw [hvector, if_pos hinside]
    exact if_neg (Nat.not_lt.mpr hreset)
  · have hvector : vectorAt data 0 = none := by
      rw [Option.eq_none_iff_forall_ne_some]
      intro v hv
      exact hinside (vectorAt_zero_iff.mp hv).2.2.1.2
    rw [hvector, if_neg hinside]

/-- **Which applications the page accepts.** The tool accepts every application whose handler is
inside it. The page accepts it, as an application, exactly if the handler is also within the length
of the image from the beginning of the flash.

**Proof sketch.** Both decide by the handler alone, since the stack pointer of an application is
in the SRAM: the tool asks that it is inside the application, the page that it is within the
length of the file from the beginning of the flash. -/
theorem detect_application_iff {data : List UInt8} (h : Application data) :
    (∃ elf, buildElf data appBaseDefault = .ok elf) ∧
      ((∃ shape, detect (some data) = .ok shape ∧ shape.kind = .application ∧
        shape.appOffset = 0x2800) ↔ resetHandler data < flashBase + data.length) := by
  refine ⟨h.buildElf, ?_⟩
  rw [h.detect]
  split
  · next hinside => exact ⟨fun _ => hinside, fun _ => ⟨_, rfl, rfl, rfl⟩⟩
  · next hinside =>
    refine ⟨?_, fun hin => absurd hin hinside⟩
    rintro ⟨shape, hshape, -⟩
    cases hshape

/-- An application of eight bytes. -/
def shortImage : List UInt8 := [0x00, 0x40, 0x00, 0x20, 0x01, 0x28, 0x00, 0x08]

/-- The application of eight bytes is one, whatever number of zeros follows. -/
lemma application_shortImage (n : ℕ) (hn : n + 8 ≤ maxImage) :
    Application (shortImage ++ List.replicate n 0) where
  length := by
    rw [List.length_append, List.length_replicate]
    exact ⟨Nat.le_add_right .., by rw [Nat.add_comm]; exact hn⟩
  sp := by
    rw [initialSp, slice_append_left _ (by decide)]
    decide
  reset := by
    rw [resetHandler, slice_append_left _ (by decide), List.length_append]
    have hreset : ofLe (slice shortImage 4 8) = 0x08002801 := by decide
    have hlength : shortImage.length = 8 := rfl
    omega
  notElf := by
    rw [List.take_append_of_le_length (by decide)]
    decide

/-- Padded to the length of the bootloader, it is accepted. -/
theorem detect_application_padded : ∃ shape,
    detect (some (shortImage ++ List.replicate 0x2800 0)) = .ok shape ∧
      shape.kind = .application ∧ shape.appOffset = 0x2800 := by
  refine (detect_application_iff (application_shortImage 0x2800 (by decide))).2.mpr ?_
  rw [resetHandler, slice_append_left _ (by decide), List.length_append, List.length_replicate]
  decide

/-- On its own it is refused. -/
theorem detect_refuses_short : ¬ ∀ data, Application data →
    ∃ shape, detect (some data) = .ok shape ∧ shape.kind = .application ∧
      shape.appOffset = 0x2800 := by
  intro h
  obtain ⟨shape, hshape, -⟩ := h _ (application_shortImage 0 (by decide))
  rw [List.replicate_zero, List.append_nil] at hshape
  have hrefused : detect (some shortImage) = .error .noVector := by decide
  rw [hrefused] at hshape
  cases hshape

end Uvk5.Image
