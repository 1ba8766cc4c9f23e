import Uvk5.Lib.Bytes

set_option relaxedAutoImplicit false
set_option autoImplicit false

/-!
# Pictures of 8-bit greys as PNG files

A PNG file is a signature and chunks, each with its length, its type and a checksum. The first chunk
says how large the picture is; the data of others, put together and decompressed, are its lines,
each after the number of the filter it went through.

## Main definitions

* `Png.Chunk`, `Png.readChunk` — a chunk, and the one at the front of some bytes.
* `Png.unfilter` — the lines of a picture.
* `Png.read` — the picture in a file.

## Main results

* `Png.readChunk_bytes` — a chunk is read back, whatever follows it.
* `Png.unfilter_plain` — lines that no filter has changed are read as they are.
* `Png.read_file` — the picture in a file with one data chunk.

## Design

The checksum and the decompression are parameters. Pictures of other kinds are not read.
-/

namespace Uvk5.Png

open Bytes

/-! ## Numbers -/

/-- `v` in `k` bytes, most significant first. -/
def toBe (k v : ℕ) : List UInt8 := (toLe k v).reverse

/-- The number in a big-endian field. -/
def ofBe (bs : List UInt8) : ℕ := ofLe bs.reverse

/-- A field has its width. -/
@[simp] lemma length_toBe (k v : ℕ) : (toBe k v).length = k := by
  rw [toBe, List.length_reverse, length_toLe]

/-- A field that is wide enough gives the number back. -/
lemma ofBe_toBe (k : ℕ) {v : ℕ} (h : v < 256 ^ k) : ofBe (toBe k v) = v := by
  rw [ofBe, toBe, List.reverse_reverse, ofLe_toLe k h]

/-! ## Chunks -/

/-- A chunk. -/
structure Chunk where
  /-- Its type. -/
  tag : List UInt8
  /-- Its data. -/
  payload : List UInt8
  deriving DecidableEq

/-- `\x89PNG\r\n\x1a\n`. -/
def signature : List UInt8 := [0x89, 0x50, 0x4e, 0x47, 0x0d, 0x0a, 0x1a, 0x0a]
/-- `IHDR`. -/
def tagHeader : List UInt8 := [0x49, 0x48, 0x44, 0x52]
/-- `IDAT`. -/
def tagData : List UInt8 := [0x49, 0x44, 0x41, 0x54]
/-- `IEND`. -/
def tagEnd : List UInt8 := [0x49, 0x45, 0x4e, 0x44]

variable (crc : List UInt8 → UInt32)

/-- The checksum of a chunk. -/
def Chunk.checksum (c : Chunk) : List UInt8 := toBe 4 (crc (c.tag ++ c.payload)).toNat

/-- A chunk in a file. -/
def Chunk.bytes (c : Chunk) : List UInt8 :=
  toBe 4 c.payload.length ++ c.tag ++ c.payload ++ c.checksum crc

/-- The chunk at the front, and what follows it. -/
def readChunk (s : List UInt8) : Option (Chunk × List UInt8) :=
  let n := ofBe (s.take 4)
  let c : Chunk := ⟨slice s 4 8, slice s 8 (8 + n)⟩
  if s.length < 12 + n ∨ slice s (8 + n) (12 + n) ≠ c.checksum crc then none
  else some (c, s.drop (12 + n))

/-- **A chunk is read back**, whatever follows it. -/
theorem readChunk_bytes {c : Chunk} (htag : c.tag.length = 4) (hpayload : c.payload.length < 2 ^ 32)
    (rest : List UInt8) : readChunk crc (c.bytes crc ++ rest) = some (c, rest) := by
  have hsum : (c.checksum crc).length = 4 := length_toBe 4 _
  have hlength : (c.bytes crc ++ rest).length = 12 + c.payload.length + rest.length := by
    simp only [Chunk.bytes, List.length_append, length_toBe, htag, hsum]
    omega
  have hfields : c.bytes crc ++ rest =
      toBe 4 c.payload.length ++ (c.tag ++ (c.payload ++ (c.checksum crc ++ rest))) := by
    simp only [Chunk.bytes, List.append_assoc]
  have hn : ofBe ((c.bytes crc ++ rest).take 4) = c.payload.length := by
    rw [hfields, List.take_left' (length_toBe 4 _), ofBe_toBe 4 (by omega)]
  have htag' : slice (c.bytes crc ++ rest) 4 8 = c.tag := by
    rw [hfields]
    exact slice_field _ _ _ (length_toBe 4 _).symm (by rw [length_toBe, htag])
  have hpayload' : slice (c.bytes crc ++ rest) 8 (8 + c.payload.length) = c.payload := by
    rw [hfields, ← List.append_assoc]
    refine slice_field _ _ _ ?_ ?_
    · rw [List.length_append, length_toBe, htag]
    · rw [List.length_append, length_toBe, htag]
  have hsum' : slice (c.bytes crc ++ rest) (8 + c.payload.length) (12 + c.payload.length) =
      c.checksum crc := by
    rw [hfields, ← List.append_assoc, ← List.append_assoc]
    refine slice_field _ _ _ ?_ ?_
    · simp only [List.length_append, length_toBe, htag]
    · simp only [List.length_append, length_toBe, htag, hsum]
      omega
  have hdrop : (c.bytes crc ++ rest).drop (12 + c.payload.length) = rest := by
    refine List.drop_left' ?_
    rw [List.length_append] at hlength
    omega
  rw [readChunk, hn, htag', hpayload', hsum', hdrop, if_neg]
  rintro (hshort | hbad)
  · omega
  · exact hbad rfl

/-- The chunks up to the last one, of so many at most. -/
def readChunks : ℕ → List UInt8 → Option (List Chunk)
  | 0, _ => none
  | n + 1, s =>
    match readChunk crc s with
    | none => none
    | some (c, rest) =>
      if c.tag = tagEnd then some [c] else (readChunks n rest).map (c :: ·)

/-! ## Lines -/

/-- The predictor of Paeth: the one of the three that is closest to `a + b - c`. -/
def paeth (a b c : UInt8) : UInt8 :=
  let p : ℤ := a.toNat + b.toNat - c.toNat
  let d (x : UInt8) : ℕ := (p - x.toNat).natAbs
  if d a ≤ d b ∧ d a ≤ d c then a else if d b ≤ d c then b else c

/-- What a filter takes for a byte, from those to the left, above and above to the left. -/
def predictor : UInt8 → Option (UInt8 → UInt8 → UInt8 → UInt8)
  | 0 => some fun _ _ _ => 0
  | 1 => some fun a _ _ => a
  | 2 => some fun _ b _ => b
  | 3 => some fun a b _ => UInt8.ofNat ((a.toNat + b.toNat) / 2)
  | 4 => some paeth
  | _ => none

/-- A line, with the bytes to the left and above to the left, and the line above. -/
def unfilterLine (predict : UInt8 → UInt8 → UInt8 → UInt8) :
    UInt8 → UInt8 → List UInt8 → List UInt8 → List UInt8
  | _, _, _, [] => []
  | a, c, above, x :: line =>
    let b := above.headD 0
    let y := x + predict a b c
    y :: unfilterLine predict y b above.tail line

/-- So many lines of a width, with the line above the first. -/
def unfilter (width : ℕ) : ℕ → List UInt8 → List UInt8 → Option (List (List UInt8))
  | 0, _, s => if s = [] then some [] else none
  | _ + 1, _, [] => none
  | n + 1, above, filter :: s =>
    if s.length < width then none
    else (predictor filter).bind fun predict =>
      let line := unfilterLine predict 0 0 above (s.take width)
      (unfilter width n line (s.drop width)).map (line :: ·)

/-- A line without a filter is as it stands. -/
lemma unfilterLine_plain (a c : UInt8) (above line : List UInt8) :
    unfilterLine (fun _ _ _ => 0) a c above line = line := by
  induction line generalizing a c above with
  | nil => rfl
  | cons x line ih => rw [unfilterLine, ih, UInt8.add_zero]

/-- **Lines that no filter has changed** are read as they are. -/
theorem unfilter_plain {width : ℕ} {lines : List (List UInt8)}
    (h : ∀ line ∈ lines, line.length = width) (above : List UInt8) :
    unfilter width lines.length above (lines.flatMap (0 :: ·)) = some lines := by
  induction lines generalizing above with
  | nil => rfl
  | cons line lines ih =>
    obtain ⟨hline, hlines⟩ := List.forall_mem_cons.mp h
    rw [List.flatMap_cons, List.cons_append, List.length_cons, unfilter, if_neg]
    · rw [List.take_left' hline, List.drop_left' hline]
      change (unfilter width lines.length _ _).map _ = _
      rw [unfilterLine_plain, ih hlines]
      rfl
    · rw [List.length_append, hline]
      omega

/-! ## Files -/

/-- A picture of greys. -/
structure Picture where
  /-- The width. -/
  width : ℕ
  /-- The height. -/
  height : ℕ
  /-- The greys, line by line. -/
  lines : List (List UInt8)
  deriving DecidableEq

/-- The data of the first chunk: 8-bit greys, not interlaced. -/
def header (width height : ℕ) : List UInt8 :=
  toBe 4 width ++ toBe 4 height ++ [8, 0, 0, 0, 0]

/-- A size a picture may have. -/
def Size (n : ℕ) : Prop := 0 < n ∧ n < 2 ^ 31

instance (n : ℕ) : Decidable (Size n) := inferInstanceAs (Decidable (_ ∧ _))

/-- The picture in a file. -/
def read (inflate : List UInt8 → Option (List UInt8)) (s : List UInt8) : Option Picture :=
  if s.take 8 ≠ signature then none
  else match readChunks crc s.length (s.drop 8) with
    | none => none
    | some [] => none
    | some (c :: chunks) =>
      let width := ofBe (c.payload.take 4)
      let height := ofBe (slice c.payload 4 8)
      if c.tag = tagHeader ∧ c.payload = header width height ∧ Size width ∧ Size height then
        (inflate ((chunks.filter (·.tag = tagData)).flatMap Chunk.payload)).bind fun raw =>
          (unfilter width height [] raw).map (⟨width, height, ·⟩)
      else none

/-- A file with one data chunk. -/
def file (width height : ℕ) (data : List UInt8) : List UInt8 :=
  signature ++ (Chunk.mk tagHeader (header width height)).bytes crc ++
    (Chunk.mk tagData data).bytes crc ++ (Chunk.mk tagEnd []).bytes crc

/-- **The picture in a file** is what its data decompress to.

**Proof sketch.** The file is the signature and three chunks, and each chunk is read back
(`readChunk_bytes`). The header gives the size, the only data chunk the compressed lines, and
lines with filter type 0 are themselves. -/
theorem read_file {inflate : List UInt8 → Option (List UInt8)} {width height : ℕ}
    {data : List UInt8} {lines : List (List UInt8)} (hwidth : Size width)
    (hheight : Size lines.length) (heq : lines.length = height)
    (hlines : ∀ line ∈ lines, line.length = width) (hdata : data.length < 2 ^ 32)
    (hinflate : inflate data = some (lines.flatMap (0 :: ·))) :
    read crc inflate (file crc width height data) = some ⟨width, height, lines⟩ := by
  subst heq
  obtain ⟨hpos, hlt⟩ := hwidth
  obtain ⟨hpos', hlt'⟩ := hheight
  have hbelow : (2 : ℕ) ^ 31 < 256 ^ 4 := by decide
  have hchunks : ∀ n, readChunks crc (n + 3) ((Chunk.mk tagHeader (header width lines.length)).bytes
      crc ++ ((Chunk.mk tagData data).bytes crc ++ (Chunk.mk tagEnd []).bytes crc)) =
      some [⟨tagHeader, header width lines.length⟩, ⟨tagData, data⟩, ⟨tagEnd, []⟩] := by
    intro n
    have hheader : (header width lines.length).length < 2 ^ 32 := by
      simp [header]
    have hend := readChunk_bytes crc (c := ⟨tagEnd, []⟩) rfl (by decide) []
    rw [List.append_nil] at hend
    rw [readChunks, readChunk_bytes crc rfl hheader]
    dsimp only
    rw [if_neg (by decide), readChunks, readChunk_bytes crc rfl hdata]
    dsimp only
    rw [if_neg (by decide), readChunks, hend]
    rfl
  have hw : ofBe ((header width lines.length).take 4) = width := by
    rw [header, List.append_assoc, List.take_left' (length_toBe 4 _), ofBe_toBe 4 (by omega)]
  have hh : ofBe (slice (header width lines.length) 4 8) = lines.length := by
    rw [header, List.append_assoc, slice_field _ _ _ (length_toBe 4 _).symm (by simp),
      ofBe_toBe 4 (by omega)]
  have hlength : ∃ n, (file crc width lines.length data).length = n + 3 := by
    refine ⟨(file crc width lines.length data).length - 3, ?_⟩
    simp only [file, signature, List.length_append, List.length_cons, List.length_nil]
    omega
  obtain ⟨n, hn⟩ := hlength
  have hsignature : (file crc width lines.length data).take 8 = signature := by
    rw [file, List.append_assoc, List.append_assoc]
    exact List.take_left' rfl
  have hrest : (file crc width lines.length data).drop 8 =
      (Chunk.mk tagHeader (header width lines.length)).bytes crc ++
        ((Chunk.mk tagData data).bytes crc ++ (Chunk.mk tagEnd []).bytes crc) := by
    rw [file, List.append_assoc, List.append_assoc]
    exact List.drop_left' rfl
  have hfilter : [Chunk.mk tagData data, ⟨tagEnd, []⟩].filter (·.tag = tagData) =
      [⟨tagData, data⟩] := by
    rw [List.filter_cons_of_pos (by simp), List.filter_cons_of_neg (by decide), List.filter_nil]
  rw [read, if_neg (not_not.mpr hsignature), hn, hrest, hchunks]
  dsimp only
  rw [hw, hh, if_pos ⟨rfl, rfl, ⟨hpos, hlt⟩, hpos', hlt'⟩, hfilter, List.flatMap_singleton,
    hinflate, Option.bind_some, unfilter_plain hlines]
  rfl

end Uvk5.Png
