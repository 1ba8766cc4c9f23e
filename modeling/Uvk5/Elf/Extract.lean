import Mathlib.Order.Bounds.Basic
import Uvk5.Lib.Overlay

set_option relaxedAutoImplicit false
set_option autoImplicit false

/-!
# The loadable bytes of an ELF file (`tools/elf2bin.py`)

The allocated sections of an ELF file are laid down in one flat image, each at its address. The
program headers are not used.

## Main definitions

* `Elf2bin.sections`, `Elf2bin.main` — the rows the tool makes of the sections, and the image.
* `Elf2bin.sectionTable` — the section table of a file.
* `Elf2bin.Extractable` — a file whose sections can be laid down.

## Main results

* `Elf2bin.main_places` — every section is in its place, and the rest is zero.
-/

namespace Uvk5.Elf2bin

open Bytes

/-- `SHT_NOBITS`. -/
def shtNobits : ℕ := 8
/-- `SHF_ALLOC`. -/
def shfAlloc : ℕ := 0x2

/-- What is read of an entry of the section table. -/
structure Section where
  /-- `sh_type`. -/
  typ : ℕ
  /-- `sh_flags`. -/
  flags : ℕ
  /-- `sh_addr`. -/
  addr : ℕ
  /-- `sh_offset`. -/
  offset : ℕ
  /-- `sh_size`. -/
  size : ℕ
  deriving DecidableEq

/-- A row of `sections`. -/
structure Row where
  /-- The address. -/
  addr : ℕ
  /-- Where the bytes are in the file. -/
  offset : ℕ
  /-- How many bytes of the file. -/
  filesz : ℕ
  /-- How many bytes of the memory. -/
  memsz : ℕ
  /-- The type. -/
  typ : ℕ
  deriving DecidableEq

/-- What the tool raises. -/
inductive ExtractError where
  /-- `"not a 32-bit little-endian ELF"`. -/
  | notElf
  /-- `struct.error`: an entry of the section table is not in the file. -/
  | struct
  /-- `"no allocated sections; nothing to extract"`. -/
  | nothing
  /-- `ValueError`, of `min` over no address. -/
  | noContent
  /-- `"image starts at ... but the overlay VMA is ..."`. -/
  | wrongBase (base minimum : ℕ)
  deriving DecidableEq

/-- The file is a 32-bit little-endian ELF. -/
def IsElf (blob : List UInt8) : Prop :=
  52 ≤ blob.length ∧ blob.take 6 = [0x7f, 0x45, 0x4c, 0x46, 1, 1]

instance (blob : List UInt8) : Decidable (IsElf blob) := inferInstanceAs (Decidable (_ ∧ _))

/-- `e_shoff`. -/
def shoff (blob : List UInt8) : ℕ := ofLe (slice blob 0x20 0x24)
/-- `e_shentsize`. -/
def shentsize (blob : List UInt8) : ℕ := ofLe (slice blob 0x2e 0x30)
/-- `e_shnum`. -/
def shnum (blob : List UInt8) : ℕ := ofLe (slice blob 0x30 0x32)

/-- The entry of the section table at an offset. -/
def entryAt (blob : List UInt8) (i : ℕ) : Section where
  typ := ofLe (slice blob (i + 4) (i + 8))
  flags := ofLe (slice blob (i + 8) (i + 12))
  addr := ofLe (slice blob (i + 12) (i + 16))
  offset := ofLe (slice blob (i + 16) (i + 20))
  size := ofLe (slice blob (i + 20) (i + 24))

/-- The row of a section, if it has one. -/
def Section.row (s : Section) : Option Row :=
  if s.typ = shtNobits then some ⟨s.addr, s.offset, 0, s.size, s.typ⟩
  else if s.flags &&& shfAlloc ≠ 0 ∧ s.size ≠ 0 then
    some ⟨s.addr, s.offset, s.size, s.size, s.typ⟩
  else none

/-- The loop of `sections`. -/
def readRows (blob : List UInt8) : List ℕ → Except ExtractError (List Row)
  | [] => .ok []
  | k :: ks => do
    let i := shoff blob + k * shentsize blob
    if blob.length < i + 40 then .error .struct
    else
      let rows ← readRows blob ks
      .ok ((entryAt blob i).row.toList ++ rows)

/-- `sections`, with no rows for `None`. -/
def sections (blob : List UInt8) : Except ExtractError (List Row) :=
  if ¬ IsElf blob then .error .notElf
  else if shoff blob = 0 ∨ shnum blob = 0 then .ok []
  else readRows blob (List.range (shnum blob))

/-- The bytes of one row are copied. -/
def copyRow (blob : List UInt8) (base : ℕ) (out : List UInt8) (r : Row) : List UInt8 :=
  if r.filesz ≠ 0 then
    assign out (r.addr - base) (r.addr - base + r.filesz)
      (slice blob r.offset (r.offset + r.filesz))
  else out

/-- `main`: the bytes that are written, with `--min` if it is given. -/
def main (blob : List UInt8) (minimum : Option ℕ) : Except ExtractError (List UInt8) :=
  match sections blob with
  | .error e => .error e
  | .ok secs =>
    if secs = [] then .error .nothing
    else match ((secs.filter (·.filesz ≠ 0)).map Row.addr).min? with
      | none => .error .noContent
      | some base =>
        match minimum.filter (· ≠ base) with
        | some m => .error (.wrongBase base m)
        | none =>
          let last := (secs.map fun r => r.addr + r.memsz).max?.getD 0
          .ok (secs.foldl (copyRow blob base) (List.replicate (last - base) 0))

/-! ## The section table -/

/-- The section table. -/
def sectionTable (blob : List UInt8) : List Section :=
  if shoff blob = 0 then []
  else (List.range (shnum blob)).map fun k => entryAt blob (shoff blob + k * shentsize blob)

/-- The section is allocated. -/
def Section.Allocated (s : Section) : Prop := s.flags &&& shfAlloc ≠ 0

/-- The section is allocated and has bytes in the file. -/
def Section.HasContent (s : Section) : Prop := s.Allocated ∧ s.typ ≠ shtNobits ∧ s.size ≠ 0

instance (s : Section) : Decidable s.Allocated := inferInstanceAs (Decidable (_ ≠ _))

instance (s : Section) : Decidable s.HasContent := inferInstanceAs (Decidable (_ ∧ _))

/-- A 32-bit little-endian ELF file whose sections can be laid down. -/
structure Extractable (blob : List UInt8) : Prop where
  /-- It is one. -/
  elf : IsElf blob
  /-- The section table lies in the file. -/
  table : ∀ k < shnum blob, shoff blob + k * shentsize blob + 40 ≤ blob.length
  /-- So do the sections with content. -/
  inFile : ∀ s ∈ sectionTable blob, s.HasContent → s.offset + s.size ≤ blob.length
  /-- No two of them have an address in common. -/
  apart : (sectionTable blob).Pairwise fun s t => s.HasContent → t.HasContent →
    s.addr + s.size ≤ t.addr ∨ t.addr + t.size ≤ s.addr
  /-- A section without bytes in the file is allocated. -/
  nobits : ∀ s ∈ sectionTable blob, s.typ = shtNobits → s.Allocated
  /-- There is a section with content. -/
  content : ∃ s ∈ sectionTable blob, s.HasContent

/-! ## Pieces -/

/-- What a section puts in the image. -/
structure Piece where
  /-- Its address. -/
  addr : ℕ
  /-- How many bytes of the memory it takes. -/
  memsz : ℕ
  /-- Its bytes, which are none if the section has none in the file. -/
  bytes : List UInt8

/-- The piece of a row. -/
def Row.piece (blob : List UInt8) (r : Row) : Piece :=
  ⟨r.addr, r.memsz, slice blob r.offset (r.offset + r.filesz)⟩

/-- The pieces of a file, in the order of the section table. -/
def pieces (blob : List UInt8) : List Piece :=
  ((sectionTable blob).filterMap Section.row).map (Row.piece blob)

/-- Where a piece lies in an image that begins at a base. -/
def Piece.patch (base : ℕ) (p : Piece) : ℕ → Option UInt8 := placed (p.addr - base) p.bytes

/-- Where the pieces with bytes begin. -/
def starts (ps : List Piece) : Set ℕ := {a | ∃ p ∈ ps, p.bytes ≠ [] ∧ p.addr = a}

/-- Where the pieces end. -/
def ends (ps : List Piece) : Set ℕ := {a | ∃ p ∈ ps, p.addr + p.memsz = a}

/-- The rows of a section. -/
lemma Section.row_cases (s : Section) :
    (s.HasContent ∧ s.row = some ⟨s.addr, s.offset, s.size, s.size, s.typ⟩) ∨
      (¬ s.HasContent ∧ s.typ = shtNobits ∧ s.row = some ⟨s.addr, s.offset, 0, s.size, s.typ⟩) ∨
      (¬ s.HasContent ∧ s.typ ≠ shtNobits ∧ s.row = none) := by
  rw [Section.row]
  split
  · next htyp => exact .inr (.inl ⟨fun h => h.2.1 htyp, htyp, rfl⟩)
  next htyp =>
  split
  · next halloc => exact .inl ⟨⟨halloc.1, htyp, halloc.2⟩, rfl⟩
  · next halloc => exact .inr (.inr ⟨fun h => halloc ⟨h.1, h.2.2⟩, htyp, rfl⟩)

/-- A section with bytes in the file has a row of its address, offset and size. -/
lemma Section.row_of_content {s : Section} (h : s.HasContent) :
    s.row = some ⟨s.addr, s.offset, s.size, s.size, s.typ⟩ := by
  rcases s.row_cases with ⟨-, hrow⟩ | ⟨hnot, -⟩ | ⟨hnot, -⟩
  · exact hrow
  · exact absurd h hnot
  · exact absurd h hnot

/-- A row with bytes is that of a section with content. -/
lemma Section.content_of_row {s : Section} {r : Row} (hrow : s.row = some r)
    (hsize : r.filesz ≠ 0) :
    s.HasContent ∧ r = ⟨s.addr, s.offset, s.size, s.size, s.typ⟩ := by
  rcases s.row_cases with ⟨hcontent, hrow'⟩ | ⟨-, -, hrow'⟩ | ⟨-, -, hrow'⟩
  · rw [hrow', Option.some.injEq] at hrow
    exact ⟨hcontent, hrow.symm⟩
  · rw [hrow', Option.some.injEq] at hrow
    subst hrow
    exact absurd rfl hsize
  · rw [hrow'] at hrow
    cases hrow

/-- The loop reads the rows of the sections. -/
lemma readRows_eq {blob : List UInt8} {ks : List ℕ}
    (h : ∀ k ∈ ks, shoff blob + k * shentsize blob + 40 ≤ blob.length) :
    readRows blob ks =
      .ok ((ks.map fun k => entryAt blob (shoff blob + k * shentsize blob)).filterMap
        Section.row) := by
  induction ks with
  | nil => rfl
  | cons k ks ih =>
    obtain ⟨hk, hks⟩ := List.forall_mem_cons.mp h
    rw [readRows, if_neg (Nat.not_lt.mpr hk), ih hks, List.map_cons, List.filterMap_cons]
    cases (entryAt blob (shoff blob + k * shentsize blob)).row with
    | none => rfl
    | some r => rfl

/-- The rows of a file that can be laid down. -/
lemma sections_eq {blob : List UInt8} (h : Extractable blob) :
    sections blob = .ok ((sectionTable blob).filterMap Section.row) := by
  rw [sections, if_neg (not_not.mpr h.elf), sectionTable]
  by_cases hoff : shoff blob = 0
  · rw [if_pos (.inl hoff), if_pos hoff]
    rfl
  · rw [if_neg hoff]
    split
    · next hnone =>
      rw [hnone.resolve_left hoff]
      rfl
    · exact readRows_eq fun k hk => h.table k (List.mem_range.mp hk)

section Extractable

variable {blob : List UInt8}

/-- The row of a section with content, or one without bytes. -/
lemma Extractable.piece_of_row (h : Extractable blob) {r : Row}
    (hr : r ∈ (sectionTable blob).filterMap Section.row) :
    (r.piece blob).bytes.length = r.filesz ∧ r.filesz ≤ r.memsz := by
  obtain ⟨s, hs, hrow⟩ := List.mem_filterMap.mp hr
  rw [Row.piece, length_slice]
  rcases s.row_cases with ⟨hcontent, hrow'⟩ | ⟨-, -, hrow'⟩ | ⟨-, -, hrow'⟩
  · rw [hrow'] at hrow
    obtain rfl := Option.some.inj hrow
    have hin := h.inFile s hs hcontent
    dsimp only
    omega
  · rw [hrow'] at hrow
    obtain rfl := Option.some.inj hrow
    dsimp only
    omega
  · rw [hrow'] at hrow
    cases hrow

/-- A row has bytes exactly if its piece has some. -/
lemma Extractable.bytes_iff (h : Extractable blob) {r : Row}
    (hr : r ∈ (sectionTable blob).filterMap Section.row) :
    r.filesz ≠ 0 ↔ (r.piece blob).bytes ≠ [] := by
  rw [Ne, Ne, ← List.length_eq_zero_iff, (h.piece_of_row hr).1]

/-- A row with bytes is copied where its piece lies. -/
lemma copyRow_eq {base : ℕ} {out : List UInt8} {r : Row}
    (hlength : (r.piece blob).bytes.length = r.filesz)
    (hin : r.filesz ≠ 0 → r.addr - base + r.filesz ≤ out.length) :
    copyRow blob base out r = overlay ((r.piece blob).patch base) out := by
  rw [copyRow]
  split
  · next hsize =>
    have hfit := hin hsize
    rw [← hlength] at hfit
    have hlaid := assign_eq_overlay hfit
    rw [hlength] at hlaid
    exact hlaid
  · next hsize =>
    have hnil : (r.piece blob).bytes = [] := by
      rw [← List.length_eq_zero_iff, hlength]
      exact not_not.mp hsize
    refine List.ext_getElem? fun i => ?_
    rw [Piece.patch, hnil, getElem?_overlay_of_none]
    exact placed_eq_none_iff.mpr (by rw [List.length_nil]; omega)

/-- All rows are copied where their pieces lie. -/
lemma foldl_copyRow {base : ℕ} {rows : List Row}
    (hlength : ∀ r ∈ rows, (r.piece blob).bytes.length = r.filesz) {out : List UInt8}
    (hin : ∀ r ∈ rows, r.filesz ≠ 0 → r.addr - base + r.filesz ≤ out.length) :
    rows.foldl (copyRow blob base) out =
      overlay (lastOf ((rows.map (Row.piece blob)).map (Piece.patch base))) out := by
  rw [← foldl_overlay]
  induction rows generalizing out with
  | nil => rfl
  | cons r rows ih =>
    obtain ⟨hr, hrest⟩ := List.forall_mem_cons.mp hlength
    obtain ⟨hin, hinrest⟩ := List.forall_mem_cons.mp hin
    rw [List.foldl_cons, List.map_cons, List.map_cons, List.foldl_cons, copyRow_eq hr hin]
    exact ih hrest (by rwa [length_overlay])

/-- **What is written**: the pieces, laid down over zeros from the first address to the last.

**Proof sketch.** The rows of the section table are the pieces, so the first address is the
minimum that `main` takes over the rows with bytes and the last one the maximum over all. Copying
the rows one after the other is the overlay of the pieces, each of which fits between the two. -/
lemma Extractable.main_eq (h : Extractable blob) {base last : ℕ}
    (hbase : IsLeast (starts (pieces blob)) base) (hlast : IsGreatest (ends (pieces blob)) last)
    {minimum : Option ℕ} (hmin : ∀ m ∈ minimum, m = base) :
    main blob minimum = .ok (overlay (lastOf ((pieces blob).map (Piece.patch base)))
      (List.replicate (last - base) 0)) := by
  set rows := (sectionTable blob).filterMap Section.row with hrows
  have hpiece : ∀ r ∈ rows, (r.piece blob).bytes.length = r.filesz ∧ r.filesz ≤ r.memsz :=
    fun r hr => h.piece_of_row hr
  have hbytes : ∀ r ∈ rows, r.filesz ≠ 0 ↔ (r.piece blob).bytes ≠ [] := fun r hr => h.bytes_iff hr
  have hmem : ∀ r ∈ rows, r.piece blob ∈ pieces blob := fun r hr => List.mem_map_of_mem hr
  have hmin? : ((rows.filter (·.filesz ≠ 0)).map Row.addr).min? = some base := by
    rw [List.min?_eq_some_iff]
    constructor
    · obtain ⟨⟨p, hp, hne, hat⟩, -⟩ := hbase
      obtain ⟨r, hr, rfl⟩ := List.mem_map.mp hp
      refine List.mem_map.mpr ⟨r, List.mem_filter.mpr ⟨hr, ?_⟩, hat⟩
      exact decide_eq_true ((hbytes r hr).mpr hne)
    · intro a ha
      obtain ⟨r, hr, rfl⟩ := List.mem_map.mp ha
      obtain ⟨hr, hne⟩ := List.mem_filter.mp hr
      exact hbase.2 ⟨_, hmem r hr, (hbytes r hr).mp (of_decide_eq_true hne), rfl⟩
  have hmax? : (rows.map fun r => r.addr + r.memsz).max? = some last := by
    rw [List.max?_eq_some_iff]
    constructor
    · obtain ⟨⟨p, hp, hat⟩, -⟩ := hlast
      obtain ⟨r, hr, rfl⟩ := List.mem_map.mp hp
      exact List.mem_map.mpr ⟨r, hr, hat⟩
    · intro a ha
      obtain ⟨r, hr, rfl⟩ := List.mem_map.mp ha
      exact hlast.2 ⟨_, hmem r hr, rfl⟩
  have hne : rows ≠ [] := by
    intro hnil
    rw [hnil] at hmax?
    cases hmax?
  have hfilter : minimum.filter (· ≠ base) = none := by
    rw [Option.filter_eq_none_iff]
    intro m hm hne'
    exact of_decide_eq_true hne' (hmin m hm)
  rw [main, sections_eq h]
  dsimp only
  rw [← hrows, if_neg hne, hmin?]
  dsimp only
  rw [hfilter, hmax?]
  dsimp only
  rw [Option.getD_some, foldl_copyRow (fun r hr => (hpiece r hr).1)]
  · rfl
  · intro r hr hsize
    have hlow : base ≤ r.addr := hbase.2 ⟨_, hmem r hr, (hbytes r hr).mp hsize, rfl⟩
    have hhigh : r.addr + r.memsz ≤ last := hlast.2 ⟨_, hmem r hr, rfl⟩
    have hle := (hpiece r hr).2
    rw [List.length_replicate]
    omega

/-- The pieces with bytes are those of the sections with content. -/
lemma Extractable.mem_pieces (h : Extractable blob) {p : Piece} :
    (p ∈ pieces blob ∧ p.bytes ≠ []) ↔ ∃ s ∈ sectionTable blob, s.HasContent ∧
      p = ⟨s.addr, s.size, slice blob s.offset (s.offset + s.size)⟩ := by
  constructor
  · rintro ⟨hp, hne⟩
    obtain ⟨r, hr, rfl⟩ := List.mem_map.mp hp
    have hsize := (h.bytes_iff hr).mpr hne
    obtain ⟨s, hs, hrow⟩ := List.mem_filterMap.mp hr
    obtain ⟨hcontent, rfl⟩ := Section.content_of_row hrow hsize
    exact ⟨s, hs, hcontent, rfl⟩
  · rintro ⟨s, hs, hcontent, rfl⟩
    have hr := List.mem_filterMap.mpr ⟨s, hs, Section.row_of_content hcontent⟩
    exact ⟨List.mem_map_of_mem hr, (h.bytes_iff hr).mp hcontent.2.2⟩

/-- The addresses at which sections with bytes begin. -/
lemma Extractable.starts_eq (h : Extractable blob) :
    starts (pieces blob) = {a | ∃ s ∈ sectionTable blob, s.HasContent ∧ s.addr = a} := by
  ext a
  constructor
  · rintro ⟨p, hp, hne, rfl⟩
    obtain ⟨s, hs, hcontent, rfl⟩ := h.mem_pieces.mp ⟨hp, hne⟩
    exact ⟨s, hs, hcontent, rfl⟩
  · rintro ⟨s, hs, hcontent, rfl⟩
    obtain ⟨hp, hne⟩ := h.mem_pieces.mpr ⟨s, hs, hcontent, rfl⟩
    exact ⟨_, hp, hne, rfl⟩

/-- The addresses at which sections that take up memory end. -/
lemma Extractable.ends_eq (h : Extractable blob) :
    ends (pieces blob) = {a | ∃ s ∈ sectionTable blob, s.Allocated ∧
      (s.typ = shtNobits ∨ s.size ≠ 0) ∧ s.addr + s.size = a} := by
  ext a
  constructor
  · rintro ⟨p, hp, rfl⟩
    obtain ⟨r, hr, rfl⟩ := List.mem_map.mp hp
    obtain ⟨s, hs, hrow⟩ := List.mem_filterMap.mp hr
    rcases s.row_cases with ⟨hcontent, hrow'⟩ | ⟨-, htyp, hrow'⟩ | ⟨-, -, hrow'⟩
    · rw [hrow'] at hrow
      obtain rfl := Option.some.inj hrow
      exact ⟨s, hs, hcontent.1, .inr hcontent.2.2, rfl⟩
    · rw [hrow'] at hrow
      obtain rfl := Option.some.inj hrow
      exact ⟨s, hs, h.nobits s hs htyp, .inl htyp, rfl⟩
    · rw [hrow'] at hrow
      cases hrow
  · rintro ⟨s, hs, halloc, hkept, rfl⟩
    rcases s.row_cases with ⟨-, hrow⟩ | ⟨-, -, hrow⟩ | ⟨hnot, htyp, -⟩
    · exact ⟨_, List.mem_map_of_mem (List.mem_filterMap.mpr ⟨s, hs, hrow⟩), rfl⟩
    · exact ⟨_, List.mem_map_of_mem (List.mem_filterMap.mpr ⟨s, hs, hrow⟩), rfl⟩
    · exact absurd ⟨halloc, htyp, hkept.resolve_left htyp⟩ hnot

end Extractable

/-- There is a first address and a last one. -/
lemma exists_bounds {ps : List Piece} (h : ∃ p ∈ ps, p.bytes ≠ []) :
    ∃ base last, IsLeast (starts ps) base ∧ IsGreatest (ends ps) last := by
  obtain ⟨p, hp, hne⟩ := h
  have hstart : p.addr ∈ (ps.filter (·.bytes ≠ [])).map Piece.addr :=
    List.mem_map_of_mem (List.mem_filter.mpr ⟨hp, decide_eq_true hne⟩)
  have hend : p.addr + p.memsz ∈ ps.map fun p => p.addr + p.memsz :=
    List.mem_map.mpr ⟨p, hp, rfl⟩
  obtain ⟨base, hbase⟩ := Option.isSome_iff_exists.mp (List.isSome_min?_of_mem hstart)
  obtain ⟨last, hlast⟩ := Option.isSome_iff_exists.mp (List.isSome_max?_of_mem hend)
  obtain ⟨hbase, hleast⟩ := List.min?_eq_some_iff.mp hbase
  obtain ⟨hlast, hgreatest⟩ := List.max?_eq_some_iff.mp hlast
  refine ⟨base, last, ⟨?_, ?_⟩, ?_, ?_⟩
  · obtain ⟨q, hq, hat⟩ := List.mem_map.mp hbase
    obtain ⟨hq, hq'⟩ := List.mem_filter.mp hq
    exact ⟨q, hq, of_decide_eq_true hq', hat⟩
  · rintro a ⟨q, hq, hq', rfl⟩
    exact hleast _ (List.mem_map_of_mem (List.mem_filter.mpr ⟨hq, decide_eq_true hq'⟩))
  · exact List.mem_map.mp hlast
  · rintro a ⟨q, hq, rfl⟩
    exact hgreatest _ (List.mem_map.mpr ⟨q, hq, rfl⟩)

/-- Pieces have no address in common. -/
def Piece.Disjoint (p q : Piece) : Prop := p.bytes ≠ [] → q.bytes ≠ [] →
  p.addr + p.bytes.length ≤ q.addr ∨ q.addr + q.bytes.length ≤ p.addr

/-- Pieces that have no address in common are nowhere both laid down. -/
lemma apart_patch {base : ℕ} {p q : Piece} (hp : p.bytes ≠ [] → base ≤ p.addr)
    (hq : q.bytes ≠ [] → base ≤ q.addr) (h : p.Disjoint q) :
    Apart (p.patch base) (q.patch base) := by
  intro i
  rw [Piece.patch, Piece.patch, placed_eq_none_iff, placed_eq_none_iff]
  by_cases hpnil : p.bytes = []
  · left
    rw [hpnil, List.length_nil]
    omega
  by_cases hqnil : q.bytes = []
  · right
    rw [hqnil, List.length_nil]
    omega
  have hplow := hp hpnil
  have hqlow := hq hqnil
  rcases h hpnil hqnil with hbefore | hafter
  · omega
  · omega

/-- Pieces that have no address in common write to different places. -/
lemma pairwise_apart {ps : List Piece} {base : ℕ} (hbase : base ∈ lowerBounds (starts ps))
    (h : ps.Pairwise Piece.Disjoint) : (ps.map (Piece.patch base)).Pairwise Apart := by
  refine List.pairwise_map.mpr (List.Pairwise.imp_of_mem ?_ h)
  intro p q hp hq hdisjoint
  exact apart_patch (fun hne => hbase ⟨p, hp, hne, rfl⟩) (fun hne => hbase ⟨q, hq, hne, rfl⟩)
    hdisjoint

/-- The pieces of a file have no address in common. -/
lemma Extractable.pairwise_disjoint {blob : List UInt8} (h : Extractable blob) :
    (pieces blob).Pairwise Piece.Disjoint := by
  refine List.pairwise_map.mpr (List.pairwise_filterMap.mpr (List.Pairwise.imp_of_mem ?_ h.apart))
  intro s t hs ht hst r hr r' hr' hne hne'
  have hrow := List.mem_filterMap.mpr ⟨s, hs, hr⟩
  have hrow' := List.mem_filterMap.mpr ⟨t, ht, hr'⟩
  obtain ⟨hcontent, rfl⟩ := Section.content_of_row hr ((h.bytes_iff hrow).mpr hne)
  obtain ⟨hcontent', rfl⟩ := Section.content_of_row hr' ((h.bytes_iff hrow').mpr hne')
  rw [(h.piece_of_row hrow).1, (h.piece_of_row hrow').1]
  exact hst hcontent hcontent'

/-! ## What the image depends on -/

/-- The bytes of a file that say what its sections are and what is in them. -/
def Reads (blob : List UInt8) (i : ℕ) : Prop :=
  i < 6 ∨ (0x20 ≤ i ∧ i < 0x24) ∨ (0x2e ≤ i ∧ i < 0x32) ∨
    (∃ k < shnum blob, shoff blob + k * shentsize blob ≤ i ∧
      i < shoff blob + k * shentsize blob + 40) ∨
    ∃ s ∈ sectionTable blob, s.HasContent ∧ s.offset ≤ i ∧ i < s.offset + s.size

section Same

variable {blob blob' : List UInt8}

/-- Two files that agree on these bytes have the same section table. -/
lemma sectionTable_congr (hsame : ∀ i, Reads blob i → blob'[i]? = blob[i]?) :
    shoff blob' = shoff blob ∧ shentsize blob' = shentsize blob ∧ shnum blob' = shnum blob ∧
      sectionTable blob' = sectionTable blob := by
  have hoff : shoff blob' = shoff blob := by
    rw [shoff, shoff, slice_congr fun i hlow hhigh => hsame i (.inr (.inl ⟨hlow, hhigh⟩))]
  have hentsize : shentsize blob' = shentsize blob := by
    rw [shentsize, shentsize, slice_congr fun i hlow hhigh =>
      hsame i (.inr (.inr (.inl ⟨hlow, Nat.lt_trans hhigh (by decide)⟩)))]
  have hnum : shnum blob' = shnum blob := by
    rw [shnum, shnum, slice_congr fun i hlow hhigh =>
      hsame i (.inr (.inr (.inl ⟨Nat.le_trans (by decide) hlow, hhigh⟩)))]
  refine ⟨hoff, hentsize, hnum, ?_⟩
  rw [sectionTable, sectionTable, hoff, hentsize, hnum]
  split
  · rfl
  refine List.map_congr_left fun k hk => ?_
  have hentry : ∀ a b, b ≤ 40 →
      slice blob' (shoff blob + k * shentsize blob + a) (shoff blob + k * shentsize blob + b) =
        slice blob (shoff blob + k * shentsize blob + a) (shoff blob + k * shentsize blob + b) :=
    fun a b hb => slice_congr fun i hlow hhigh =>
      hsame i (.inr (.inr (.inr (.inl ⟨k, List.mem_range.mp hk, by omega, by omega⟩))))
  simp only [entryAt, hentry _ 8 (by decide), hentry _ 12 (by decide), hentry _ 16 (by decide),
    hentry _ 20 (by decide), hentry _ 24 (by decide)]

/-- Two files of one length that agree on these bytes have the same pieces. -/
lemma Extractable.congr (h : Extractable blob) (hlen : blob'.length = blob.length)
    (hsame : ∀ i, Reads blob i → blob'[i]? = blob[i]?) :
    Extractable blob' ∧ pieces blob' = pieces blob := by
  obtain ⟨hoff, hentsize, hnum, htable⟩ := sectionTable_congr hsame
  constructor
  · refine ⟨⟨?_, ?_⟩, ?_, ?_, ?_, ?_, ?_⟩
    · rw [hlen]
      exact h.elf.1
    · rw [← slice_zero, slice_congr fun i _ hhigh => hsame i (.inl hhigh)]
      exact h.elf.2
    · rw [hoff, hentsize, hnum, hlen]
      exact h.table
    · rw [htable, hlen]
      exact h.inFile
    · rw [htable]
      exact h.apart
    · rw [htable]
      exact h.nobits
    · rw [htable]
      exact h.content
  · rw [pieces, pieces, htable]
    refine List.map_congr_left fun r hr => ?_
    have hbytes : slice blob' r.offset (r.offset + r.filesz) =
        slice blob r.offset (r.offset + r.filesz) := by
      refine slice_congr fun i hlow hhigh => ?_
      obtain ⟨s, hs, hrow⟩ := List.mem_filterMap.mp hr
      obtain ⟨hcontent, rfl⟩ := Section.content_of_row hrow (by omega)
      exact hsame i (.inr (.inr (.inr (.inr ⟨s, hs, hcontent, hlow, hhigh⟩))))
    rw [Row.piece, Row.piece, hbytes]

/-- The order of the pieces does not matter. -/
lemma Extractable.main_perm (h : Extractable blob) (h' : Extractable blob')
    (hperm : (pieces blob).Perm (pieces blob')) {base last : ℕ}
    (hbase : IsLeast (starts (pieces blob)) base) (hlast : IsGreatest (ends (pieces blob)) last)
    {minimum : Option ℕ} (hmin : ∀ m ∈ minimum, m = base) :
    main blob' minimum = main blob minimum := by
  have hstarts : starts (pieces blob') = starts (pieces blob) := by
    ext a
    simp only [starts, hperm.mem_iff, Set.mem_ofPred_eq]
  have hends : ends (pieces blob') = ends (pieces blob) := by
    ext a
    simp only [ends, hperm.mem_iff, Set.mem_ofPred_eq]
  rw [h.main_eq hbase hlast hmin, h'.main_eq (hstarts ▸ hbase) (hends ▸ hlast) hmin,
    ← foldl_overlay, ← foldl_overlay,
    foldl_overlay_perm (hperm.map _) (pairwise_apart hbase.2 h.pairwise_disjoint)]

end Same

/-- **Every section is in its place.** The image reaches from the lowest address of a section with
content to the largest end of a section; each section with content is at its address, and the other
bytes are zero. A file with the same sections in another order gives the same image, and so does one
that differs only in bytes that belong neither to the sections nor to what the header says of them:
the program headers do not matter.

**Proof sketch.** Each row with bytes is an overlay on zeros, and overlays of sections that have no
address in common commute. -/
theorem main_places {blob : List UInt8} (h : Extractable blob) :
    ∃ base last, IsLeast {a | ∃ s ∈ sectionTable blob, s.HasContent ∧ s.addr = a} base ∧
      IsGreatest {a | ∃ s ∈ sectionTable blob, s.Allocated ∧ (s.typ = shtNobits ∨ s.size ≠ 0) ∧
        s.addr + s.size = a} last ∧
      ∀ minimum : Option ℕ, (∀ m ∈ minimum, m = base) → ∃ out, main blob minimum = .ok out ∧
        out.length = last - base ∧
        (∀ s ∈ sectionTable blob, s.HasContent →
          slice out (s.addr - base) (s.addr - base + s.size) =
            slice blob s.offset (s.offset + s.size)) ∧
        (∀ i < out.length, (∀ s ∈ sectionTable blob, s.HasContent →
          ¬ (s.addr ≤ base + i ∧ base + i < s.addr + s.size)) → out[i]? = some 0) ∧
        (∀ blob', Extractable blob' → (pieces blob).Perm (pieces blob') →
          main blob' minimum = .ok out) ∧
        (∀ blob', blob'.length = blob.length → (∀ i, Reads blob i → blob'[i]? = blob[i]?) →
          main blob' minimum = .ok out) := by
  obtain ⟨s₀, hs₀, hcontent₀⟩ := h.content
  obtain ⟨base, last, hbase, hlast⟩ := exists_bounds
    ⟨_, h.mem_pieces.mpr ⟨s₀, hs₀, hcontent₀, rfl⟩⟩
  have hapart := pairwise_apart hbase.2 h.pairwise_disjoint
  refine ⟨base, last, h.starts_eq ▸ hbase, h.ends_eq ▸ hlast, fun minimum hmin =>
    ⟨_, h.main_eq hbase hlast hmin, ?_, ?_, ?_, ?_, ?_⟩⟩
  · rw [length_overlay, List.length_replicate]
  · intro s hs hcontent
    obtain ⟨hp, -⟩ := h.mem_pieces.mpr ⟨s, hs, hcontent, rfl⟩
    have hlength : (slice blob s.offset (s.offset + s.size)).length = s.size := by
      have hin := h.inFile s hs hcontent
      rw [length_slice]
      omega
    have hlow : base ≤ s.addr := (h.starts_eq ▸ hbase).2 ⟨s, hs, hcontent, rfl⟩
    have hhigh : s.addr + s.size ≤ last := hlast.2 ⟨_, hp, rfl⟩
    have hcarries := carries_lastOf hapart (List.mem_map_of_mem hp)
      (l := List.replicate (last - base) 0) ?_
    · exact hcarries.whole hlength
    · intro i hi
      rw [Ne, Piece.patch, placed_eq_none_iff] at hi
      dsimp only at hi
      rw [List.length_replicate]
      omega
  · intro i hi hnone
    rw [length_overlay] at hi
    have hlast' : lastOf ((pieces blob).map (Piece.patch base)) i = none := by
      refine lastOf_eq_none_iff.mpr fun q hq => ?_
      obtain ⟨p, hp, rfl⟩ := List.mem_map.mp hq
      rw [Piece.patch, placed_eq_none_iff]
      by_cases hnil : p.bytes = []
      · rw [hnil, List.length_nil]
        omega
      · obtain ⟨s, hs, hcontent, rfl⟩ := h.mem_pieces.mp ⟨hp, hnil⟩
        have hout := hnone s hs hcontent
        have hlow : base ≤ s.addr := (h.starts_eq ▸ hbase).2 ⟨s, hs, hcontent, rfl⟩
        have hlength := length_slice blob s.offset (s.offset + s.size)
        dsimp only
        omega
    rw [getElem?_overlay_of_none _ hlast', List.getElem?_replicate, if_pos]
    rwa [List.length_replicate] at hi
  · intro blob' h' hperm
    rw [h.main_perm h' hperm hbase hlast hmin, h.main_eq hbase hlast hmin]
  · intro blob' hlen hsame
    obtain ⟨h', hpieces⟩ := h.congr hlen hsame
    rw [h.main_perm h' (hpieces ▸ List.Perm.refl _) hbase hlast hmin, h.main_eq hbase hlast hmin]

/-- A file with a section of four bytes and one of eight bytes that are not in the file. -/
def smallElf : List UInt8 :=
  [0x7f, 0x45, 0x4c, 0x46, 1, 1] ++ List.replicate 26 0 ++ toLe 4 56 ++ List.replicate 10 0 ++
    toLe 2 40 ++ toLe 2 2 ++ toLe 2 0 ++ [0x11, 0x22, 0x33, 0x44] ++
    (toLe 4 0 ++ toLe 4 1 ++ toLe 4 6 ++ toLe 4 0x20000280 ++ toLe 4 52 ++ toLe 4 4 ++
      List.replicate 16 0) ++
    (toLe 4 0 ++ toLe 4 8 ++ toLe 4 3 ++ toLe 4 0x20000288 ++ toLe 4 56 ++ toLe 4 8 ++
      List.replicate 16 0)

/-- The section table of the small file. -/
lemma sectionTable_smallElf : sectionTable smallElf =
    [⟨1, 6, 0x20000280, 52, 4⟩, ⟨8, 3, 0x20000288, 56, 8⟩] := by decide

/-- The small file can be laid down. -/
lemma extractable_smallElf : Extractable smallElf := by
  refine ⟨by decide +kernel, by decide +kernel, ?_, ?_, ?_, ?_⟩ <;> rw [sectionTable_smallElf]
  · have hlength : smallElf.length = 136 := by decide +kernel
    rw [hlength]
    decide
  all_goals decide

/-- The file is laid down with the gap between its sections. -/
theorem main_places_small : ∃ out, main smallElf (some 0x20000280) = .ok out ∧ out.length = 16 ∧
    slice out 0 4 = [0x11, 0x22, 0x33, 0x44] := by
  obtain ⟨base, last, hbase, hlast, hmain⟩ := main_places extractable_smallElf
  rw [sectionTable_smallElf] at hbase hlast hmain
  have hcontent : Section.HasContent ⟨1, 6, 0x20000280, 52, 4⟩ := by decide
  have hfirst : base = 0x20000280 := by
    obtain ⟨s, hs, hcontent, rfl⟩ := hbase.1
    rcases List.mem_pair.mp hs with rfl | rfl
    · rfl
    · exact absurd hcontent (by decide)
  have hend : last = 0x20000290 := by
    have hnobits : Section.Allocated ⟨8, 3, 0x20000288, 56, 8⟩ := by decide
    refine Nat.le_antisymm ?_ (hlast.2 ⟨_, List.mem_pair.mpr (.inr rfl), hnobits, .inl rfl, rfl⟩)
    obtain ⟨s, hs, -, -, rfl⟩ := hlast.1
    rcases List.mem_pair.mp hs with rfl | rfl <;> decide
  subst hfirst hend
  obtain ⟨out, hout, hlength, hplaced, -⟩ := hmain (some 0x20000280) (by simp)
  refine ⟨out, hout, hlength, ?_⟩
  have hslice := hplaced _ (List.mem_cons_self ..) hcontent
  exact hslice.trans (by decide +kernel)

end Uvk5.Elf2bin
