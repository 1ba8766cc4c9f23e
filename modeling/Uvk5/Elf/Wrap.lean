import Uvk5.Web.Loaders

set_option relaxedAutoImplicit false
set_option autoImplicit false

/-!
# An image wrapped in an ELF file (`tools/bin2elf.py`)

The tool puts two headers and some padding in front of an image, so that the image lies where the
program header says. The offset in that header is taken from the load address, and the padding is
what is left between the headers and this offset, which can be less than nothing.

## Main definitions

* `Elf.ProgramHeader`, `Elf.programHeaderAt` — a program header, read back from a file.
* `Elf.LoadsBack` — a file that loads back to an image.

## Main results

* `Elf.buildElf_loadsBack_iff` — the files of the tool that load back to their image.
-/

namespace Uvk5.Elf

open Bytes Image

/-- A program header. -/
structure ProgramHeader where
  /-- `p_type`. -/
  typ : ℕ
  /-- `p_offset`. -/
  offset : ℕ
  /-- `p_vaddr`. -/
  vaddr : ℕ
  /-- `p_paddr`. -/
  paddr : ℕ
  /-- `p_filesz`. -/
  filesz : ℕ
  /-- `p_memsz`. -/
  memsz : ℕ
  /-- `p_flags`. -/
  flags : ℕ
  /-- `p_align`. -/
  align : ℕ
  deriving DecidableEq

/-- The program header at an offset of a file. -/
def programHeaderAt (file : List UInt8) (i : ℕ) : ProgramHeader where
  typ := ofLe (slice file i (i + 4))
  offset := ofLe (slice file (i + 4) (i + 8))
  vaddr := ofLe (slice file (i + 8) (i + 12))
  paddr := ofLe (slice file (i + 12) (i + 16))
  filesz := ofLe (slice file (i + 16) (i + 20))
  memsz := ofLe (slice file (i + 20) (i + 24))
  flags := ofLe (slice file (i + 24) (i + 28))
  align := ofLe (slice file (i + 28) (i + 32))

/-- `e_phoff`. -/
def phoff (file : List UInt8) : ℕ := ofLe (slice file 28 32)

/-- `e_phnum`. -/
def phnum (file : List UInt8) : ℕ := ofLe (slice file 44 46)

/-- The program header of a file that has one. -/
def onlyHeader (file : List UInt8) : ProgramHeader := programHeaderAt file (phoff file)

/-- The file loads the image at the base. -/
structure LoadsBack (file image : List UInt8) (base : ℕ) : Prop where
  /-- There is one program header. -/
  single : phnum file = 1
  /-- It loads at the base. -/
  paddr : (onlyHeader file).paddr = base
  /-- It loads as many bytes as the image has. -/
  size : (onlyHeader file).filesz = image.length ∧ (onlyHeader file).memsz = image.length
  /-- Offset and base agree modulo the alignment. -/
  congruent : (onlyHeader file).offset % (onlyHeader file).align = base % (onlyHeader file).align
  /-- What is loaded is the image. -/
  content : slice file (onlyHeader file).offset
    ((onlyHeader file).offset + (onlyHeader file).filesz) = image
  /-- The headers are as they were written. -/
  intact : slice file 0 52 = elfHeader (resetHandler image) ∧
    slice file (phoff file) (phoff file + 32) =
      programHeader (onlyHeader file).offset base image.length
  /-- They are in front of the image. -/
  front : 52 ≤ phoff file ∧ phoff file + 32 ≤ (onlyHeader file).offset

/-- The ELF header takes 52 bytes. -/
lemma length_elfHeader (reset : ℕ) : (elfHeader reset).length = 52 := by
  simp [elfHeader]

/-- The program header takes 32 bytes. -/
lemma length_programHeader (offset base size : ℕ) :
    (programHeader offset base size).length = 32 := by
  simp [programHeader]

/-- What the tool writes for an image it accepts. -/
lemma buildElf_eq_ok {image file : List UInt8} {base : ℕ} (h : buildElf image base = .ok file) :
    base < 2 ^ 32 ∧ image.length < 2 ^ 32 ∧
      file = elfHeader (resetHandler image) ++ (programHeader (base % 0x10000) base image.length ++
        (List.replicate (base % 0x10000 - 84) 0 ++ image)) := by
  rw [buildElf] at h
  split at h
  · cases h
  dsimp only at h
  split at h
  · cases h
  split at h
  · cases h
  next hreset =>
  split at h
  · cases h
  next hsize =>
  have hlt : resetHandler image < 256 ^ 4 := ofLe_slice_lt image (by decide)
  rw [length_elfHeader, length_programHeader, Nat.sub_sub] at h
  obtain rfl := Except.ok.inj h
  refine ⟨by omega, Nat.not_le.mp hsize, ?_⟩
  simp only [List.append_assoc]

/-- The ELF header has one program header, and says where it is. -/
lemma phoff_phnum (reset : ℕ) (rest : List UInt8) :
    phoff (elfHeader reset ++ rest) = 52 ∧ phnum (elfHeader reset ++ rest) = 1 := by
  have hlen := length_elfHeader reset
  rw [phoff, phnum, slice_append_left rest (by omega), slice_append_left rest (by omega), elfHeader]
  generalize hident : [0x7f, 0x45, 0x4c, 0x46, 1, 1, 1] ++ List.replicate 9 (0 : UInt8) = ident
  have hsixteen : ident.length = 16 := by rw [← hident]; rfl
  simp [slice_append_right, slice_append_self, ofLe_toLe, hsixteen]

/-- The program header that is written is read back. -/
lemma onlyHeader_eq (reset : ℕ) {offset base size : ℕ} (rest : List UInt8)
    (hoffset : offset < 2 ^ 32) (hbase : base < 2 ^ 32) (hsize : size < 2 ^ 32) :
    onlyHeader (elfHeader reset ++ (programHeader offset base size ++ rest)) =
      ⟨1, offset, base, base, size, size, 5, 0x1000⟩ := by
  have hlen := length_elfHeader reset
  have hoffset' : ofLe (toLe 4 offset) = offset := ofLe_toLe 4 hoffset
  have hbase' : ofLe (toLe 4 base) = base := ofLe_toLe 4 hbase
  have hsize' : ofLe (toLe 4 size) = size := ofLe_toLe 4 hsize
  rw [onlyHeader, (phoff_phnum ..).1, programHeaderAt]
  simp [programHeader, slice_append_right, slice_append_self, hlen, ofLe_toLe, hoffset', hbase',
    hsize']

/-- **The files of the tool that load back to their image**: the base leaves room for the headers in
its low 16 bits. Then the padding reaches from the headers to the offset; otherwise there is none,
and the offset lies inside the headers.

**Proof sketch.** A file that loads back has its only segment behind the headers, which is the
condition. Conversely the padding fills the file from the headers to the offset, so the image is
there, and the offset and the address agree modulo the page. -/
theorem buildElf_loadsBack_iff {image file : List UInt8} {base : ℕ}
    (h : buildElf image base = .ok file) : LoadsBack file image base ↔ 84 ≤ base % 0x10000 := by
  obtain ⟨hbase, hsize, rfl⟩ := buildElf_eq_ok h
  have hlen := length_elfHeader (resetHandler image)
  have hlen' := length_programHeader (base % 0x10000) base image.length
  obtain ⟨hphoff, hphnum⟩ := phoff_phnum (resetHandler image)
    (programHeader (base % 0x10000) base image.length ++
      (List.replicate (base % 0x10000 - 84) 0 ++ image))
  have hheader := onlyHeader_eq (resetHandler image)
    (List.replicate (base % 0x10000 - 84) 0 ++ image) (show base % 0x10000 < 2 ^ 32 by omega) hbase
    hsize
  constructor
  · intro hloads
    have hfront := hloads.front.2
    rwa [hphoff, hheader] at hfront
  · intro hroom
    refine ⟨hphnum, ?_, ?_, ?_, ?_, ⟨?_, ?_⟩, ?_⟩
    · rw [hheader]
    · rw [hheader]
      exact ⟨rfl, rfl⟩
    · rw [hheader]
      exact Nat.mod_mod_of_dvd base (show 0x1000 ∣ 0x10000 by decide)
    · have hfront : (elfHeader (resetHandler image) ++
          programHeader (base % 0x10000) base image.length ++
          List.replicate (base % 0x10000 - 84) 0).length = base % 0x10000 := by
        rw [List.length_append, List.length_append, List.length_replicate, hlen, hlen']
        omega
      rw [hheader, ← List.append_assoc, ← List.append_assoc]
      exact slice_last _ _ hfront.symm (by rw [hfront])
    · exact slice_append_self _ _ hlen
    · rw [hphoff, hheader]
      exact slice_field _ _ _ (by rw [hlen]) (by rw [hlen, hlen'])
    · rw [hphoff, hheader]
      exact ⟨Nat.le_refl _, hroom⟩

/-- An image of eight bytes, linked for the base of the flash or of the application region. -/
def bareImage (high : UInt8) : List UInt8 := [0x00, 0x40, 0x00, 0x20, 0x01, high, 0x00, 0x08]

/-- The file of an application loads back. -/
theorem buildElf_loadsBack_application :
    ∃ file, buildElf (bareImage 0x28) 0x08002800 = .ok file ∧
      LoadsBack file (bareImage 0x28) 0x08002800 :=
  ⟨_, rfl, (buildElf_loadsBack_iff rfl).mpr (by decide)⟩

/-- The file of an image for the base of the flash does not: what is loaded is the ELF header. -/
theorem buildElf_overlaps : ¬ ∀ image file base, base < 2 ^ 32 → buildElf image base = .ok file →
    LoadsBack file image base := by
  intro h
  have hbuilt : ∃ file, buildElf (bareImage 0) 0x08000000 = .ok file ∧
      slice file 0 8 = [0x7f, 0x45, 0x4c, 0x46, 1, 1, 1, 0] ∧
      onlyHeader file = ⟨1, 0, 0x08000000, 0x08000000, 8, 8, 5, 0x1000⟩ :=
    ⟨_, rfl, by decide, by decide⟩
  obtain ⟨file, hfile, hslice, hheader⟩ := hbuilt
  have hcontent : slice file 0 8 = bareImage 0 := by
    have hloads := (h _ file _ (by decide) hfile).content
    rw [hheader] at hloads
    exact hloads
  rw [hslice] at hcontent
  exact absurd hcontent (by decide)

end Uvk5.Elf
