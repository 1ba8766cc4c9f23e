import Mathlib.Data.Int.ConditionallyCompleteOrder
import Mathlib.Data.List.MinMax
import Mathlib.Order.Bounds.Basic
import Mathlib.Order.ConditionallyCompleteLattice.Basic
import Uvk5.Lib.Bytes
import Uvk5.Web.Files

set_option relaxedAutoImplicit false
set_option autoImplicit false

/-!
# Where the firmware keeps its screen (`tools/uvk5_buffers.py`, and `tools/webui.py`)

The addresses of the frame and of the status line move between builds. They are read from the
symbols of the image, or found by sliding the memory of the display controller through the SRAM of
the emulator; the first answer is kept, and given to the pump.

## Main definitions

* `Buffers.fromSymbols`, `Buffers.locate`, `Buffers.discover` — the discovery.
* `Buffers.bestOffsets` — the offsets at which the most bytes match.
* `Web.Held` — the server with the answer that is kept, and from which firmware it came.
* `Web.ensureBuffers`, `Web.Held.step` — asking for the addresses, and all that can happen.
* `Web.Fitting` — a step that leaves no addresses of another firmware.

## Main results

* `Buffers.locate_argmax` — the search finds the least of the best offsets.
* `Web.buffers_current_iff` — over which runs the addresses belong to the selected firmware.

## Design

A firmware is known by its bytes. What is found among the symbols comes from the bytes of the image
that is selected then, and what is found in the SRAM from the bytes the emulator was started with. An
emulator that somebody else started may run anything. An emulator that exited does not answer.
-/

namespace Uvk5.Buffers

/-- `SRAM_BASE`. -/
def sramBase : ℕ := 0x20000000
/-- `FRAME_BYTES`. -/
def frameBytes : ℕ := 7 * 128
/-- `STATUS_BYTES`. -/
def statusBytes : ℕ := 128

/-! ## The search -/

/-- How many bytes agree. -/
def agreeing (a b : List UInt8) : ℕ := (a.zip b).countP fun (x, y) => x = y

/-- `score`. -/
def score (sram : List UInt8) (offset : ℕ) (gram : List UInt8) : ℤ :=
  if offset + frameBytes + statusBytes > sram.length then -1
  else
    agreeing (Bytes.slice sram offset (offset + frameBytes)) (gram.drop statusBytes) +
      agreeing (Bytes.slice sram (offset + frameBytes) (offset + frameBytes + statusBytes))
        (gram.take statusBytes)

/-- The loop of `locate`: the best score, and where it was first reached. -/
def bestOffset (sram gram : List UInt8) : ℤ × Option ℕ :=
  (List.range (sram.length + 1 - (frameBytes + statusBytes))).foldl (fun (best, bestAt) offset =>
    let value := score sram offset gram
    if value > best then (value, some offset) else (best, bestAt)) (-1, none)

/-- `locate`: the addresses of the frame and the status line, and how many bytes agree. -/
def locate (sram gram : List UInt8) : Option (ℕ × ℕ) × ℤ :=
  match bestOffset sram gram with
  | (_, none) => (none, 0)
  | (best, some offset) => (some (sramBase + offset, sramBase + offset + frameBytes), best)

/-- The bytes that are compared at an offset. -/
def total : ℕ := frameBytes + statusBytes

/-- The memory of the controller in the order of the SRAM: the frame, then the status line. -/
def wanted (gram : List UInt8) : List UInt8 := gram.drop statusBytes ++ gram.take statusBytes

/-- How many of the bytes from `offset` on are those of the memory of the controller. -/
def matching (sram gram : List UInt8) (offset : ℕ) : ℕ :=
  (List.range total).countP fun k => sram[offset + k]? = (wanted gram)[k]?

/-- The offsets within the SRAM at which the most bytes match. -/
def bestOffsets (sram gram : List UInt8) : Set ℕ :=
  {m | m + total ≤ sram.length ∧
    ∀ k, k + total ≤ sram.length → matching sram gram k ≤ matching sram gram m}

/-- The frame is at `offset`, and the status line behind it. -/
def HoldsCopy (sram gram : List UInt8) (offset : ℕ) : Prop :=
  Bytes.slice sram offset (offset + frameBytes) = gram.drop statusBytes ∧
    Bytes.slice sram (offset + frameBytes) (offset + frameBytes + statusBytes) =
      gram.take statusBytes

section Search

variable {sram gram : List UInt8}

/-- The bytes that agree, counted by their places. -/
lemma agreeing_eq {a b : List UInt8} (h : a.length = b.length) :
    agreeing a b = (List.range a.length).countP fun k => a[k]? = b[k]? := by
  induction a generalizing b with
  | nil => rfl
  | cons x a ih =>
    cases b with
    | nil => cases h
    | cons y b =>
      have hrest := ih (Nat.succ.inj h)
      rw [agreeing] at hrest
      rw [agreeing, List.zip_cons_cons, List.countP_cons, hrest, List.length_cons,
        List.range_succ_eq_map, List.countP_cons, List.countP_map]
      simp [Function.comp_def]

/-- Bytes that agree are counted stretch by stretch. -/
lemma agreeing_append {a a' b b' : List UInt8} (h : a.length = b.length) :
    agreeing (a ++ a') (b ++ b') = agreeing a b + agreeing a' b' := by
  rw [agreeing, List.zip_append h, List.countP_append, agreeing, agreeing]

/-- What is searched for is as long as the buffers. -/
lemma length_wanted (hgram : gram.length = total) : (wanted gram).length = total := by
  rw [wanted, List.length_append, List.length_drop, List.length_take, hgram]
  rfl

/-- The bytes that are compared. -/
lemma take_total_eq (sram : List UInt8) (offset : ℕ) :
    (sram.drop offset).take total = Bytes.slice sram offset (offset + frameBytes) ++
      Bytes.slice sram (offset + frameBytes) (offset + frameBytes + statusBytes) := by
  simp only [Bytes.slice, Nat.add_sub_cancel_left, total, List.take_add, List.drop_drop]

/-- Within the memory, the score counts the bytes that match. -/
lemma score_eq_matching (hgram : gram.length = total) {offset : ℕ}
    (h : offset + total ≤ sram.length) : score sram offset gram = matching sram gram offset := by
  have hframe : (Bytes.slice sram offset (offset + frameBytes)).length =
      (gram.drop statusBytes).length := by
    rw [Bytes.length_slice, List.length_drop, hgram]
    simp only [total, frameBytes, statusBytes] at *
    omega
  have hlength : ((sram.drop offset).take total).length = total := by
    rw [List.length_take, List.length_drop]
    omega
  rw [score, if_neg (by rw [total] at h; omega), ← Int.natCast_add, ← agreeing_append hframe,
    ← take_total_eq, ← wanted, agreeing_eq (by rw [hlength, length_wanted hgram]), hlength,
    matching]
  refine congrArg _ (List.countP_congr fun k hk => ?_)
  rw [List.getElem?_take_of_lt (List.mem_range.mp hk), List.getElem?_drop]

/-- A score within the memory is not negative. -/
lemma score_nonneg (gram : List UInt8) {offset : ℕ}
    (h : offset + frameBytes + statusBytes ≤ sram.length) : 0 ≤ score sram offset gram := by
  rw [score, if_neg (Nat.not_lt.mpr h)]
  omega

/-- The best value so far and where it was first reached, as a loop keeps them. -/
lemma foldl_best {f : ℕ → ℤ} {l : List ℕ} (hf : ∀ k ∈ l, -1 < f k) :
    l.foldl (fun (best, bestAt) k =>
      let value := f k
      if value > best then (value, some k) else (best, bestAt)) (-1, none) =
      ((l.argmax f).elim (-1) f, l.argmax f) := by
  induction l using List.reverseRecOn with
  | nil => rfl
  | append_singleton l k ih =>
    have hk := hf k (by simp)
    rw [List.foldl_append, ih fun j hj => hf j (List.mem_append_left _ hj), List.argmax_concat]
    cases l.argmax f with
    | none => exact if_pos hk
    | some m =>
      by_cases hlt : f m < f k
      · simp [hlt]
      · simp [hlt]

/-- The loop of `locate` is a search for a maximum. -/
lemma bestOffset_eq (sram gram : List UInt8) :
    bestOffset sram gram =
      (((List.range (sram.length + 1 - total)).argmax (score sram · gram)).elim (-1)
          (score sram · gram),
        (List.range (sram.length + 1 - total)).argmax (score sram · gram)) := by
  refine foldl_best fun k hk => ?_
  have hnonneg : 0 ≤ score sram k gram := by
    refine score_nonneg gram ?_
    rw [List.mem_range] at hk
    omega
  omega

/-- Some offset is the best if the memory is long enough. -/
lemma bestOffset_eq_none : (bestOffset sram gram).2 = none ↔ sram.length < total := by
  rw [bestOffset_eq, List.argmax_eq_none, List.range_eq_nil]
  omega

/-- The best offset is the least of those at which the most bytes match. -/
lemma isLeast_bestOffset (hgram : gram.length = total) {offset : ℕ}
    (h : (bestOffset sram gram).2 = some offset) :
    IsLeast (bestOffsets sram gram) offset ∧
      (bestOffset sram gram).1 = matching sram gram offset := by
  rw [bestOffset_eq] at h ⊢
  dsimp only at h ⊢
  have hidx : ∀ k < sram.length + 1 - total,
      (List.range (sram.length + 1 - total)).idxOf k = k := by
    intro k hk
    have hget := List.nodup_range.idxOf_getElem k
      (by rw [List.length_range]; exact hk : k < (List.range (sram.length + 1 - total)).length)
    rwa [List.getElem_range] at hget
  obtain ⟨hmem, hmax, hfirst⟩ := List.argmax_eq_some_iff.mp h
  rw [List.mem_range] at hmem
  have hscore : ∀ k < sram.length + 1 - total, score sram k gram = matching sram gram k :=
    fun k hk => score_eq_matching hgram (by omega)
  refine ⟨⟨⟨by omega, fun k hk => ?_⟩, fun k hk => ?_⟩, ?_⟩
  · have hle := hmax k (List.mem_range.mpr (by omega))
    rw [hscore k (by omega), hscore offset hmem] at hle
    exact Int.ofNat_le.mp hle
  · have hk' : k < sram.length + 1 - total := by
      have hfits := hk.1
      omega
    have hle : score sram offset gram ≤ score sram k gram := by
      rw [hscore k hk', hscore offset hmem]
      exact Int.ofNat_le.mpr (hk.2 offset (by omega))
    have hidxle := hfirst k (List.mem_range.mpr hk') hle
    rwa [hidx offset hmem, hidx k hk'] at hidxle
  · rw [h]
    exact hscore offset hmem

/-- At most all bytes agree. -/
lemma matching_le (sram gram : List UInt8) (offset : ℕ) : matching sram gram offset ≤ total := by
  have hle : matching sram gram offset ≤ (List.range total).length := List.countP_le_length
  rwa [List.length_range] at hle

/-- A copy has all the bytes. -/
lemma holdsCopy_iff (hgram : gram.length = total) {offset : ℕ} :
    HoldsCopy sram gram offset ↔ (sram.drop offset).take total = wanted gram := by
  rw [take_total_eq, wanted]
  constructor
  · rintro ⟨hframe, hstatus⟩
    rw [hframe, hstatus]
  · intro h
    refine List.append_inj' h ?_
    have hlength := congrArg List.length h
    rw [List.length_append, List.length_append, List.length_drop, List.length_take] at hlength
    rw [Bytes.length_slice] at hlength ⊢
    rw [Bytes.length_slice] at hlength
    rw [List.length_take]
    simp only [total, frameBytes, statusBytes] at *
    omega

/-- All bytes match exactly at a copy. -/
lemma matching_eq_total_iff (hgram : gram.length = total) {offset : ℕ} :
    matching sram gram offset = total ↔ HoldsCopy sram gram offset := by
  have hcount : matching sram gram offset = total ↔
      ∀ k ∈ List.range total, decide (sram[offset + k]? = (wanted gram)[k]?) = true := by
    rw [← List.countP_eq_length, List.length_range, matching]
  rw [hcount, holdsCopy_iff hgram]
  constructor
  · intro hall
    refine List.ext_getElem? fun k => ?_
    rcases Nat.lt_or_ge k total with hk | hk
    · rw [List.getElem?_take_of_lt hk, List.getElem?_drop]
      exact of_decide_eq_true (hall k (List.mem_range.mpr hk))
    · rw [List.getElem?_eq_none (by rw [List.length_take]; omega),
        List.getElem?_eq_none (by rw [length_wanted hgram]; exact hk)]
  · intro h k hk
    rw [decide_eq_true_eq, ← h, List.getElem?_take_of_lt (List.mem_range.mp hk),
      List.getElem?_drop]

/-- A copy is within the SRAM. -/
lemma HoldsCopy.fits (hgram : gram.length = total) {offset : ℕ} (h : HoldsCopy sram gram offset) :
    offset + total ≤ sram.length := by
  have hlength := congrArg List.length ((holdsCopy_iff hgram).mp h)
  rw [List.length_take, List.length_drop, length_wanted hgram] at hlength
  simp only [total, frameBytes, statusBytes] at *
  omega

/-- Once there is a copy, the best offset is the first copy. -/
lemma isLeast_copies (hgram : gram.length = total) {copy offset : ℕ}
    (hcopy : HoldsCopy sram gram copy) (h : IsLeast (bestOffsets sram gram) offset) :
    IsLeast {k | HoldsCopy sram gram k} offset ∧ matching sram gram offset = total := by
  have hall : ∀ k, HoldsCopy sram gram k ↔ matching sram gram k = total :=
    fun k => (matching_eq_total_iff hgram).symm
  have htotal : matching sram gram offset = total := by
    have hle := h.1.2 copy (hcopy.fits hgram)
    rw [(hall copy).mp hcopy] at hle
    exact Nat.le_antisymm (matching_le ..) hle
  refine ⟨⟨(hall offset).mpr htotal, fun k hk => h.2 ⟨HoldsCopy.fits hgram hk, fun j _ => ?_⟩⟩,
    htotal⟩
  rw [(hall k).mp hk]
  exact matching_le ..

/-- What `locate` says of the best offset. -/
lemma locate_eq {offset : ℕ} (h : (bestOffset sram gram).2 = some offset) :
    locate sram gram =
      (some (sramBase + offset, sramBase + offset + frameBytes), (bestOffset sram gram).1) := by
  unfold locate
  split
  · next hbest =>
    rw [hbest] at h
    cases h
  · next hbest =>
    rw [hbest] at h
    obtain rfl := Option.some.inj h
    rw [hbest]

/-- Nothing is found if no place is good enough. -/
lemma locate_eq_none : (locate sram gram).1 = none ↔ (bestOffset sram gram).2 = none := by
  cases hbest : (bestOffset sram gram).2 with
  | none =>
    unfold locate
    split
    · exact ⟨fun _ => rfl, fun _ => rfl⟩
    · next heq =>
      rw [heq] at hbest
      cases hbest
  | some offset =>
    rw [locate_eq hbest]
    exact ⟨nofun, nofun⟩

/-- **The search finds the best offset**: the least of those at which the most bytes match. There
is none exactly if the SRAM is shorter than the two buffers, and where there are copies of the
memory of the controller, the first is found.

**Proof sketch.** `bestOffset` keeps the offset with the most matching bytes, the first of them,
and none only where there is no room (`isLeast_bestOffset`). At a copy all bytes match, which is
the most there can be, so the best offset is the first copy. -/
theorem locate_argmax (hgram : gram.length = total) :
    ((locate sram gram).1 = none ↔ sram.length < total) ∧
      (∀ frame status best, locate sram gram = (some (frame, status), best) →
        ∃ offset, IsLeast (bestOffsets sram gram) offset ∧ frame = sramBase + offset ∧
          status = sramBase + offset + frameBytes ∧ best = matching sram gram offset) ∧
      ∀ copy, HoldsCopy sram gram copy →
        ∃ offset, IsLeast {k | HoldsCopy sram gram k} offset ∧ locate sram gram =
          (some (sramBase + offset, sramBase + offset + frameBytes), (total : ℤ)) := by
  refine ⟨by rw [locate_eq_none, bestOffset_eq_none], ?_, ?_⟩
  · intro frame status best h
    cases hbest : (bestOffset sram gram).2 with
    | none =>
      have hnone := locate_eq_none.mpr hbest
      rw [h] at hnone
      cases hnone
    | some offset =>
      obtain ⟨hleast, hmatching⟩ := isLeast_bestOffset hgram hbest
      rw [locate_eq hbest] at h
      cases h
      exact ⟨offset, hleast, rfl, rfl, hmatching⟩
  · intro copy hcopy
    cases hbest : (bestOffset sram gram).2 with
    | none =>
      have hfits := hcopy.fits hgram
      rw [bestOffset_eq_none] at hbest
      omega
    | some offset =>
      obtain ⟨hleast, hmatching⟩ := isLeast_bestOffset hgram hbest
      obtain ⟨hfirst, htotal⟩ := isLeast_copies hgram hcopy hleast
      exact ⟨offset, hfirst, by rw [locate_eq hbest, hmatching, htotal]⟩

/-- A blank screen is found at the start of a blank memory. -/
theorem locate_argmax_blank :
    locate (List.replicate 2000 0) (List.replicate 1024 0) =
      (some (0x20000000, 0x20000380), 1024) := by
  have hcopy : HoldsCopy (List.replicate 2000 0) (List.replicate 1024 0) 0 := by
    constructor
    · rw [Bytes.slice, List.drop_replicate, List.take_replicate, List.drop_replicate]
      exact congrArg (List.replicate · 0) (by decide)
    · rw [Bytes.slice, List.drop_replicate, List.take_replicate, List.take_replicate]
      exact congrArg (List.replicate · 0) (by decide)
  obtain ⟨offset, hleast, hlocate⟩ :=
    (@locate_argmax (List.replicate 2000 0) _ List.length_replicate).2.2 0 hcopy
  obtain rfl : offset = 0 := Nat.le_zero.mp (hleast.2 hcopy)
  exact hlocate

end Search

/-! ## The symbols -/

/-- A section header of an ELF file. -/
structure Section where
  /-- `type`. -/
  type : ℕ
  /-- `offset`. -/
  offset : ℕ
  /-- `size`. -/
  size : ℕ
  /-- `link`. -/
  link : ℕ
  /-- `entsize`. -/
  entsize : ℕ

/-- A field of some bytes. -/
def field (data : List UInt8) (offset size : ℕ) : ℕ :=
  Bytes.ofLe (Bytes.slice data offset (offset + size))

/-- `struct.unpack_from` of a section header, which raises past the end. -/
def readSection (data : List UInt8) (base : ℕ) : Except Unit Section :=
  if base + 40 ≤ data.length then
    .ok ⟨field data (base + 4) 4, field data (base + 16) 4, field data (base + 20) 4,
      field data (base + 24) 4, field data (base + 36) 4⟩
  else .error ()

/-- `blob[name:blob.find(b"\x00", name)]`; where there is no zero, all but the last byte. -/
def symbolName (blob : List UInt8) (name : ℕ) : List UInt8 :=
  match (blob.drop name).idxOf? 0 with
  | some n => (blob.drop name).take n
  | none => blob.dropLast.drop name

/-- The symbols of a section with names and values. -/
def readSymbols (data : List UInt8) (sections : List Section) (s : Section) :
    Except Unit (List (List UInt8 × ℕ)) := do
  let strings ← match sections[s.link]? with
    | some strings => Except.ok strings
    | none => .error ()
  let blob := Bytes.slice data strings.offset (strings.offset + strings.size)
  let step := if s.entsize = 0 then 16 else s.entsize
  let symbols ← (List.range (s.size / step)).mapM fun k =>
    let base := s.offset + k * step
    if base + 8 ≤ data.length then Except.ok (field data base 4, field data (base + 4) 4)
    else .error ()
  pure ((symbols.filter fun (name, value) => name ≠ 0 ∧ value ≠ 0).map fun (name, value) =>
    (symbolName blob name, value))

/-- The last symbol of a name. -/
def lookup (name : String) (found : List (List UInt8 × ℕ)) : Option ℕ :=
  (found.reverse.find? fun symbol => symbol.1 = name.toUTF8.data.toList).map Prod.snd

/-- `from_symbols` of a file, if it can be read. -/
def fromSymbols (file : Option (List UInt8)) : Except Unit (Option (ℕ × ℕ)) :=
  match file with
  | none => .ok none
  | some data =>
    if data.length < 52 ∨ data.take 4 ≠ [0x7f, 0x45, 0x4c, 0x46] ∨ data[4]? ≠ some 1 then .ok none
    else
      let shoff := field data 0x20 4
      let shentsize := field data 0x2e 2
      let shnum := field data 0x30 2
      if shoff = 0 ∨ shnum = 0 then .ok none
      else do
        let sections ← (List.range shnum).mapM fun i => readSection data (shoff + i * shentsize)
        let found ← (sections.filter fun s => s.type = 2 ∨ s.type = 11).mapM
          (readSymbols data sections)
        match lookup "gFrameBuffer" found.flatten, lookup "gStatusLine" found.flatten with
        | some frame, some status => pure (some (frame, status))
        | _, _ => pure none

/-! ## The discovery -/

/-- `how`. -/
inductive How where
  /-- "elf symbols". -/
  | elfSymbols
  /-- "no emulator". -/
  | noEmulator
  /-- "sram search". -/
  | sramSearch
  /-- "sram search (weak match)". -/
  | weakMatch
  /-- "discovery failed: …". -/
  | failed
  deriving DecidableEq

/-- What `discover` returns. The addresses of the frame and the status line are there together, and
they are not 0. -/
structure Info where
  /-- `frame` and `status`. -/
  addresses : Option (ℕ × ℕ)
  /-- `how`. -/
  how : How
  /-- `score`. -/
  score : Option ℤ
  /-- `total`. -/
  total : Option ℕ
  deriving DecidableEq

/-- What an emulator answers, if it does: the memory of the display controller and the SRAM. -/
structure Answers where
  /-- `panel_gram()`. -/
  gram : Option (List UInt8)
  /-- `memsave` of the SRAM. -/
  sram : Option (List UInt8)

/-- The search of `discover`. -/
def search (answers : Answers) : Except Unit Info :=
  match answers.gram, answers.sram with
  | some gram, some sram =>
    let (addresses, best) := locate sram gram
    let total := frameBytes + statusBytes
    .ok ⟨addresses, if best * 10 ≥ 9 * total then .sramSearch else .weakMatch, some best,
      some total⟩
  | _, _ => .error ()

/-- `from_symbols`, if there is a path. -/
def symbolsOf (file : Option (Option (List UInt8))) : Except Unit (Option (ℕ × ℕ)) :=
  match file with
  | some file => fromSymbols file
  | none => .ok none

/-- `discover`: the client may be none, and the file may not be there. -/
def discover (client : Option Answers) (file : Option (Option (List UInt8))) :
    Except Unit Info := do
  let symbols ← symbolsOf file
  match symbols, client with
  | some addresses, _ => pure ⟨some addresses, .elfSymbols, none, none⟩
  | none, none => pure ⟨none, .noEmulator, some 0, some 0⟩
  | none, some answers => search answers

/-- The search of an emulator that answers. -/
lemma search_eq (gram sram : List UInt8) :
    search ⟨some gram, some sram⟩ = .ok ⟨(locate sram gram).1,
      if (locate sram gram).2 * 10 ≥ 9 * (frameBytes + statusBytes : ℕ) then .sramSearch
      else .weakMatch, some (locate sram gram).2, some (frameBytes + statusBytes)⟩ := by
  unfold search
  dsimp only

/-- The search finds addresses exactly in an SRAM that has room for the two buffers. -/
lemma search_ok {answers : Answers} {info : Info} (h : search answers = .ok info) :
    info.how ≠ .elfSymbols ∧ ∃ gram sram, answers = ⟨some gram, some sram⟩ ∧
      (info.addresses.isSome = true ↔ total ≤ sram.length) := by
  obtain ⟨gram | gram, sram | sram⟩ := answers
  · cases h
  · cases h
  · cases h
  · rw [search_eq] at h
    rw [← Except.ok.inj h]
    refine ⟨?_, gram, sram, rfl, ?_⟩
    · dsimp only
      split
      · exact nofun
      · exact nofun
    · dsimp only
      rw [Option.isSome_iff_ne_none, ne_eq, locate_eq_none, bestOffset_eq_none, Nat.not_lt]

/-- Symbols are found only in a file that is there. -/
lemma file_of_symbols {file : Option (Option (List UInt8))} {addresses : ℕ × ℕ}
    (h : symbolsOf file = .ok (some addresses)) : ∃ data, file = some (some data) := by
  match file with
  | none => cases h
  | some none => cases h
  | some (some data) => exact ⟨data, rfl⟩

/-- Where addresses come from: from the symbols of the file, or from the search. -/
lemma discover_cases {answers : Answers} {file : Option (Option (List UInt8))} {info : Info}
    (h : discover (some answers) file = .ok info) (hfound : info.addresses.isSome = true) :
    (info.how = .elfSymbols ∧ ∃ data, file = some (some data)) ∨
      (info.how ≠ .elfSymbols ∧ symbolsOf file = .ok none ∧
        ∃ gram sram, answers = ⟨some gram, some sram⟩ ∧ total ≤ sram.length) := by
  rw [discover] at h
  cases hsymbols : symbolsOf file with
  | error e =>
    rw [hsymbols] at h
    cases h
  | ok symbols =>
    rw [hsymbols] at h
    cases symbols with
    | some addresses =>
      obtain rfl := Except.ok.inj h
      exact .inl ⟨rfl, file_of_symbols hsymbols⟩
    | none =>
      obtain ⟨hhow, gram, sram, hanswers, hlength⟩ := search_ok h
      exact .inr ⟨hhow, rfl, gram, sram, hanswers, hlength.mp hfound⟩

/-- An emulator that answers gives addresses, if the image has no symbols for them. -/
lemma discover_search {gram sram : List UInt8} {file : Option (Option (List UInt8))}
    (hsymbols : symbolsOf file = .ok none) (hsram : total ≤ sram.length) :
    ∃ info, discover (some ⟨some gram, some sram⟩) file = .ok info ∧
      info.addresses.isSome = true ∧ info.how ≠ .elfSymbols := by
  rw [discover, hsymbols]
  dsimp only [bind, Except.bind]
  obtain ⟨hhow, gram', sram', hanswers, hlength⟩ := search_ok (search_eq gram sram)
  cases hanswers
  exact ⟨_, search_eq gram sram, hlength.mpr hsram, hhow⟩

end Uvk5.Buffers

namespace Uvk5.Web

open Supervisor (Client Power Start Action)
open Buffers (Info Answers How)

/-! ## The server with the addresses -/

/-- Something that was discovered, and the bytes of the firmware it was discovered from. -/
structure Tagged (α : Type) where
  /-- What was discovered. -/
  value : α
  /-- The bytes of the firmware, if there are any. -/
  origin : Option (List UInt8)
  deriving DecidableEq

/-- The server, with what it knows about the screen. -/
structure Held where
  /-- The server. -/
  server : Server
  /-- `buffers["info"]`. -/
  info : Option (Tagged Info)
  /-- The addresses of the pump, once they are set. -/
  pump : Option (Tagged (ℕ × ℕ))

/-- The server when it is started without addresses. -/
def Held.start (s : Server) : Held := ⟨s, none, none⟩

/-- The file `discover` looks for symbols in, if an image is selected. -/
def Server.imageFile (s : Server) : Option (Option (List UInt8)) :=
  s.image.map fun image => s.disk.contents image.path

/-- What `ensure_buffers` makes of `discover`, which the emulator answers if it has not exited. -/
def askInfo (answers : Answers) (s : Server) : Info :=
  let answers := if s.power.isRunning then answers else ⟨none, none⟩
  match Buffers.discover (some answers) s.imageFile with
  | .ok info => info
  | .error _ => ⟨none, .failed, some 0, some 0⟩

/-- The same, with the firmware it comes from: the image that is selected, or what the emulator was
started with. -/
def discovered (answers : Answers) (h : Held) (client : Client) : Tagged Info :=
  let info := askInfo answers h.server
  ⟨info, if info.how = .elfSymbols then h.server.firmware else (h.server.runs client).kernel⟩

/-- `ensure_buffers`. -/
def ensureBuffers (answers : Answers) (h : Held) : Held :=
  match h.info, h.server.power.client with
  | some _, _ => h
  | none, none => h
  | none, some client =>
    let info := discovered answers h client
    { h with
      info := some info
      pump := match info.value.addresses with
        | some addresses => some ⟨addresses, info.origin⟩
        | none => h.pump }

/-- `api_status`: the addresses are asked for if the emulator answers `query-status`. -/
def apiStatus (query : Bool) (answers : Answers) (h : Held) : Held :=
  if h.server.power.isRunning && query then ensureBuffers answers h else h

/-- `api_panel`. -/
def apiPanel (answers : Answers) (h : Held) : Held := ensureBuffers answers h

/-- What can happen. -/
inductive HeldEvent where
  /-- A request that changes something, an emulator that writes its flash, or a process that ends. -/
  | web (e : Event)
  /-- `GET /api/status`. -/
  | status (query : Bool) (answers : Answers)
  /-- `GET /api/panel`. -/
  | panel (answers : Answers)

/-- One step. -/
def Held.step (h : Held) : HeldEvent → Held
  | .web e => { h with server := Web.step h.server e }
  | .status query answers => apiStatus query answers h
  | .panel answers => apiPanel answers h

/-- These are the bytes of the firmware that is selected. -/
structure Server.Selected (s : Server) (origin : Option (List UInt8)) : Prop where
  /-- There are some. -/
  isSome : origin.isSome = true
  /-- They are those of the image. -/
  firmware : origin = s.firmware

/-- `ensure_buffers` has addresses. -/
def Held.HasAddresses (h : Held) : Prop :=
  ∃ info, h.info = some info ∧ info.value.addresses.isSome = true

/-- The addresses belong to the firmware that is selected. -/
structure Held.Current (h : Held) : Prop where
  /-- Those that `ensure_buffers` returns. -/
  info : ∀ info, h.info = some info → info.value.addresses.isSome = true →
    h.server.Selected info.origin
  /-- Those of the pump. -/
  pump : ∀ addresses, h.pump = some addresses → h.server.Selected addresses.origin

/-! ## Steps that fit -/

/-- The addresses would be found in the SRAM of the emulator of this client: nothing was asked yet,
the emulator runs and answers, its SRAM has room for the buffers, and the image has no symbols. -/
structure Held.Searches (h : Held) (answers : Answers) (client : Client) : Prop where
  /-- `buffers["info"]` is not set yet. -/
  unknown : h.info = none
  /-- `active_client()`. -/
  client : h.server.power.client = some client
  /-- The emulator runs. -/
  running : h.server.power.isRunning = true
  /-- The image has no symbols. -/
  symbols : Buffers.symbolsOf h.server.imageFile = .ok none
  /-- What the emulator answers. -/
  answers : ∃ gram sram, answers = ⟨some gram, some sram⟩ ∧ Buffers.total ≤ sram.length

/-- A query finds addresses in the SRAM of no emulator but one that was started with the firmware
that is selected. -/
def Held.AsksRight (h : Held) (answers : Answers) : Prop :=
  ∀ client, h.Searches answers client → h.server.Selected (h.server.runs client).kernel

/-- The firmware is not replaced while there are addresses, and is what the emulator runs when they
are searched for in its SRAM. -/
def Fitting (h : Held) : HeldEvent → Prop
  | .web e => h.HasAddresses → e.replaces h.server = false
  | .status query answers => query = true → h.AsksRight answers
  | .panel answers => h.AsksRight answers

/-! ## Asking for the addresses -/

/-- The symbols are read from the firmware. -/
lemma firmware_of_imageFile {s : Server} {data : List UInt8} (h : s.imageFile = some (some data)) :
    s.firmware = some data := by
  rw [Server.imageFile] at h
  rw [Server.firmware]
  cases himage : s.image with
  | none =>
    rw [himage] at h
    cases h
  | some info =>
    rw [himage] at h
    exact Option.some.inj h

/-- What is found is in the symbols of the firmware, or in the SRAM of the emulator. -/
lemma askInfo_cases {answers : Answers} {s : Server}
    (hfound : (askInfo answers s).addresses.isSome = true) :
    ((askInfo answers s).how = .elfSymbols ∧ s.firmware.isSome = true) ∨
      ((askInfo answers s).how ≠ .elfSymbols ∧ s.power.isRunning = true ∧
        Buffers.symbolsOf s.imageFile = .ok none ∧
        ∃ gram sram, answers = ⟨some gram, some sram⟩ ∧ Buffers.total ≤ sram.length) := by
  rw [askInfo] at hfound ⊢
  cases hdiscover : Buffers.discover
      (some (if s.power.isRunning then answers else ⟨none, none⟩)) s.imageFile with
  | error e =>
    rw [hdiscover] at hfound
    cases hfound
  | ok info =>
    rw [hdiscover] at hfound
    rcases Buffers.discover_cases hdiscover hfound with
      ⟨hhow, data, hfile⟩ | ⟨hhow, hsymbols, gram, sram, hanswers, hlength⟩
    · exact .inl ⟨hhow, by rw [firmware_of_imageFile hfile]; rfl⟩
    · cases hrunning : s.power.isRunning with
      | false =>
        rw [hrunning] at hanswers
        cases hanswers
      | true =>
        rw [hrunning, if_pos rfl] at hanswers
        exact .inr ⟨hhow, rfl, hsymbols, gram, sram, hanswers, hlength⟩

/-- An emulator that answers gives addresses, if the image has no symbols for them. -/
lemma askInfo_search {h : Held} {answers : Answers} {client : Client}
    (hsearches : h.Searches answers client) :
    (askInfo answers h.server).addresses.isSome = true ∧
      (askInfo answers h.server).how ≠ .elfSymbols := by
  obtain ⟨gram, sram, rfl, hlength⟩ := hsearches.answers
  obtain ⟨info, hdiscover, hfound⟩ := Buffers.discover_search hsearches.symbols hlength
  rw [askInfo, hsearches.running, if_pos rfl, hdiscover]
  exact hfound

/-- Asking for the addresses changes nothing about the server. -/
lemma ensureBuffers_server (answers : Answers) (h : Held) :
    (ensureBuffers answers h).server = h.server := by
  unfold ensureBuffers
  split
  · rfl
  · rfl
  · rfl

/-- What holds in every state in which no addresses have gone stale. -/
structure Fresh (h : Held) : Prop extends Held.Current h where
  /-- The pump has addresses only if `ensure_buffers` has. -/
  given : h.pump.isSome = true → h.HasAddresses

/-- Addresses that are found are those of the firmware that is selected. -/
lemma discovered_selected {h : Held} {answers : Answers} {client : Client}
    (hnone : h.info = none) (hclient : h.server.power.client = some client)
    (hright : h.AsksRight answers)
    (hfound : (discovered answers h client).value.addresses.isSome = true) :
    h.server.Selected (discovered answers h client).origin := by
  rw [discovered] at hfound ⊢
  rcases askInfo_cases hfound with ⟨hhow, hfirmware⟩ | ⟨hhow, hrunning, hsymbols, hanswers⟩
  · rw [if_pos hhow]
    exact ⟨hfirmware, rfl⟩
  · rw [if_neg hhow]
    exact hright client ⟨hnone, hclient, hrunning, hsymbols, hanswers⟩

/-- **Asking for the addresses** gives those of the firmware that is selected, if the emulator that
is asked runs it.

**Proof sketch.** Where the addresses are known already nothing happens. Otherwise the pump has
none either, and what is found comes from the firmware that is selected, by
`discovered_selected`. -/
theorem fresh_ensureBuffers {h : Held} (hfresh : Fresh h) {answers : Answers}
    (hright : h.AsksRight answers) : Fresh (ensureBuffers answers h) := by
  unfold ensureBuffers
  split
  · exact hfresh
  · exact hfresh
  · rename_i client hnone hclient
    have horigin := discovered_selected hnone hclient hright
    have hpump : h.pump = none := by
      rw [← Option.not_isSome_iff_eq_none]
      intro hsome
      obtain ⟨info, hinfo, -⟩ := hfresh.given hsome
      rw [hnone] at hinfo
      cases hinfo
    cases hfound : (discovered answers h client).value.addresses with
    | none =>
      refine ⟨⟨fun info hinfo hsome => ?_, fun addresses hset => ?_⟩, fun hset => ?_⟩
      · cases hinfo
        rw [hfound] at hsome
        cases hsome
      · dsimp only at hset
        rw [hfound, hpump] at hset
        cases hset
      · dsimp only at hset
        rw [hfound, hpump] at hset
        cases hset
    | some found =>
      rw [hfound] at horigin
      refine ⟨⟨fun info hinfo hsome => ?_, fun addresses hset => ?_⟩,
        fun _ => ⟨_, rfl, by rw [hfound]; rfl⟩⟩
      · cases hinfo
        exact horigin rfl
      · dsimp only at hset
        rw [hfound] at hset
        cases hset
        exact horigin rfl

/-- The addresses that are found in the SRAM of an emulator are those of what it was started with. -/
lemma info_ensureBuffers {h : Held} {answers : Answers} {client : Client}
    (hsearches : h.Searches answers client) :
    ∃ info, (ensureBuffers answers h).info = some info ∧ info.value.addresses.isSome = true ∧
      info.origin = (h.server.runs client).kernel := by
  obtain ⟨hfound, hhow⟩ := askInfo_search hsearches
  unfold ensureBuffers
  rw [hsearches.unknown, hsearches.client]
  exact ⟨_, rfl, hfound, if_neg hhow⟩

/-- An emulator that runs something else gives addresses of something else. -/
lemma stale_ensureBuffers {h : Held} {answers : Answers} (hwrong : ¬ h.AsksRight answers) :
    ¬ (ensureBuffers answers h).Current := by
  intro hcurrent
  rw [Held.AsksRight] at hwrong
  push Not at hwrong
  obtain ⟨client, hsearches, hnot⟩ := hwrong
  obtain ⟨info, hinfo, hfound, horigin⟩ := info_ensureBuffers hsearches
  have hselected := hcurrent.info info hinfo hfound
  rw [ensureBuffers_server, horigin] at hselected
  exact hnot hselected

/-! ## Over a run -/

/-- A server that is started without addresses has none. -/
lemma fresh_start (s : Server) : Fresh (.start s) := ⟨⟨nofun, nofun⟩, nofun⟩

/-- A step that fits keeps the addresses fresh. -/
lemma fresh_step {h : Held} (hfresh : Fresh h) {e : HeldEvent} (he : Fitting h e) :
    Fresh (h.step e) := by
  cases e with
  | status query answers =>
    rw [Held.step, apiStatus]
    split
    · next hasks =>
      rw [Bool.and_eq_true] at hasks
      exact fresh_ensureBuffers hfresh (he hasks.2)
    · exact hfresh
  | panel answers => exact fresh_ensureBuffers hfresh he
  | web e =>
    have hkept : h.HasAddresses → (step h.server e).firmware = h.server.firmware := by
      intro hhas
      by_contra hne
      rw [← ne_eq, firmware_step_iff, he hhas] at hne
      cases hne
    refine ⟨⟨fun info hinfo hsome => ?_, fun addresses hset => ?_⟩, hfresh.given⟩
    · have hselected := hfresh.info info hinfo hsome
      exact ⟨hselected.isSome, hselected.firmware.trans (hkept ⟨info, hinfo, hsome⟩).symm⟩
    · have hselected := hfresh.pump addresses hset
      have hhas := hfresh.given (Option.isSome_iff_exists.mpr ⟨addresses, hset⟩)
      exact ⟨hselected.isSome, hselected.firmware.trans (hkept hhas).symm⟩

/-- A step that does not fit leaves addresses of another firmware. -/
lemma stale_step {h : Held} (hfresh : Fresh h) {e : HeldEvent} (he : ¬ Fitting h e) :
    ¬ (h.step e).Current := by
  cases e with
  | panel answers => exact stale_ensureBuffers he
  | status query answers =>
    rw [Fitting] at he
    push Not at he
    obtain ⟨hquery, hwrong⟩ := he
    have hrunning : h.server.power.isRunning = true := by
      rw [Held.AsksRight] at hwrong
      push Not at hwrong
      obtain ⟨client, hsearches, -⟩ := hwrong
      exact hsearches.running
    rw [Held.step, apiStatus, hrunning, hquery]
    exact stale_ensureBuffers hwrong
  | web e =>
    intro hcurrent
    rw [Fitting] at he
    push Not at he
    obtain ⟨⟨info, hinfo, hsome⟩, hreplaces⟩ := he
    rw [Bool.ne_false_iff, ← firmware_step_iff] at hreplaces
    have hbefore := hfresh.info info hinfo hsome
    have hafter := hcurrent.info info hinfo hsome
    exact hreplaces (hafter.firmware.symm.trans hbefore.firmware)

/-- **The addresses belong to the firmware that is selected, exactly if it is not replaced while there
are some**, and no emulator is searched for them that runs another one. On a server that is started
without addresses, in every run of requests, in which emulators may write their flash and end, what
`ensure_buffers` returns and what the pump was given come from the bytes of the image that is
selected, or from an emulator that was started with them, exactly if every step fits.

**Proof sketch.** What is found is kept, and given to the pump; it is never asked for again. So it is
right as long as it was right when it was found and the firmware is the same. -/
theorem buffers_current_iff (s : Server) (events : List HeldEvent) :
    Run.AllStates Held.step Held.Current (.start s) events ↔
      Run.AllSteps Held.step Fitting (.start s) events :=
  Run.allStates_iff_allSteps (fun _ h => h.toCurrent) (fun _ _ h he => fresh_step h he)
    (fun _ _ h he => stale_step h he) events _ (fresh_start s)

/-- An emulator with a blank screen. -/
def blank : Answers := ⟨some (List.replicate 0x400 0), some (List.replicate 0x4000 0)⟩

/-- The emulator of the server is asked for the addresses. -/
lemma asksRight_managed : (Held.start managed).AsksRight blank := by
  intro client hsearches
  exact ⟨rfl, rfl⟩

/-- The addresses are asked for, the firmware is saved under another name without being an image, and
the emulator is started again. -/
theorem buffers_current_other_name :
    Run.AllStates Held.step Held.Current (.start managed)
      [.panel blank, .web (.request (.firmware (some "notes.txt") none [0x00]) .connected),
        .web (.request (.power (some .reset) (.object none none) true) .connected)] := by
  refine (buffers_current_iff managed _).mpr ⟨asksRight_managed, fun _ => ?_, fun _ => ?_, trivial⟩
  · change Event.replaces (ensureBuffers blank (.start managed)).server _ = false
    rw [ensureBuffers_server]
    decide +kernel
  · rfl

/-- A firmware is uploaded after the addresses were asked for. -/
theorem buffers_stale_upload :
    ¬ ∀ s, Created s → ∀ events, Run.AllStates Held.step Held.Current (.start s) events := by
  intro h
  have hrun := (h managed created_managed [.panel blank,
    .web (.request (.firmware (some "fw.elf") none [0x7f, 0x45, 0x4c, 0x46]) .connected)]).last
  rw [List.foldl_cons, List.foldl_cons, List.foldl_nil] at hrun
  have hfresh := fresh_ensureBuffers (fresh_start managed) asksRight_managed
  refine stale_step hfresh (fun hfits => ?_) hrun
  have hsearches : (Held.start managed).Searches blank (.launched 0) :=
    ⟨rfl, rfl, rfl, rfl, _, _, rfl, by rw [List.length_replicate]; decide⟩
  obtain ⟨info, hinfo, hfound, -⟩ := info_ensureBuffers hsearches
  have hkept := hfits ⟨info, hinfo, hfound⟩
  rw [ensureBuffers_server] at hkept
  exact absurd hkept (by decide +kernel)

end Uvk5.Web
