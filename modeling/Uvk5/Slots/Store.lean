import Mathlib.Data.Int.Notation
import Mathlib.Data.List.TakeWhile
import Uvk5.Lib.Overlay
import Uvk5.Lib.Proc
import Uvk5.Slots.Header

set_option relaxedAutoImplicit false
set_option autoImplicit false

/-!
# Firmware slots in a flash image (`tools/uvk5_slots.py`)

A flash image holds five firmware slots of 128 KiB, slot 0 being the backup of the internal
firmware, and two small records of the active state. The image of a slot starts one sector after its
header.

## Main definitions

* `Slots.writeSlot`, `Slots.eraseSlot`, `Slots.eraseState` — the edits.
* `Slots.readSlot` — what a slot holds.

## Main results

* `Slots.writeSlot_eq`, `Slots.eraseSlot_eq`, `Slots.eraseState_eq` — what an edit writes.
* `Slots.readSlot_of_written`, `Slots.readSlot_of_erased` — a slot as it was last left.
-/

namespace Uvk5.Slots

open Bytes

/-- `SLOT_BACKUP_BASE`. -/
def slotBackupBase : ℕ := 0x020000
/-- `SLOT_COUNT`. -/
def slotCount : ℕ := 5
/-- `SLOT_HEADER_SIZE`. -/
def slotHeaderSize : ℕ := 64
/-- `STATE_A_BASE`. -/
def stateABase : ℕ := 0x00100000
/-- `STATE_B_BASE`. -/
def stateBBase : ℕ := 0x00101000
/-- `STATE_SIZE`. -/
def stateSize : ℕ := 24

/-- The exceptions of the slot functions. -/
inductive SlotError where
  /-- `slot_base`: the slot does not exist. -/
  | outOfRange (slot : ℤ)
  /-- `build_header`: the image does not fit. -/
  | tooLong (length : ℕ)
  /-- `struct.error`: the flash image ends before the header does. -/
  | short
  deriving DecidableEq

/-- `slot_base`, with `none` for the `ValueError`. -/
def slotBase (slot : ℤ) : Option ℕ :=
  if slot = 0 then some slotBackupBase
  else if 1 ≤ slot ∧ slot < slotCount then some (slotBackupBase + slot.toNat * slotStride)
  else none

/-- `buf[i:j] = t`. -/
def setSlice {ε : Type} (i j : ℕ) (t : List UInt8) : Proc (List UInt8) ε Unit :=
  fun buf => (.ok (), assign buf i j t)

/-- `write_slot`. -/
def writeSlot (slot : ℤ) (image : List UInt8) (name fwVersion : String) :
    Proc (List UInt8) SlotError Unit := do
  let base ← Proc.getOrRaise (.outOfRange slot) (slotBase slot)
  let header ← Proc.getOrRaise (.tooLong image.length) (buildHeader image name fwVersion)
  setSlice base (base + slotHeaderSize) header
  let start := base + slotImageOffset
  setSlice start (start + image.length) image

/-- `erase_slot`. -/
def eraseSlot (slot : ℤ) : Proc (List UInt8) SlotError Unit := do
  let base ← Proc.getOrRaise (.outOfRange slot) (slotBase slot)
  setSlice base (base + slotStride) (List.replicate slotStride 0xff)

/-- `erase_state`. -/
def eraseState : Proc (List UInt8) SlotError Unit := do
  setSlice stateABase (stateABase + stateSize) (List.replicate stateSize 0xff)
  setSlice stateBBase (stateBBase + stateSize) (List.replicate stateSize 0xff)

/-- The dictionary `read_slot` returns. -/
structure SlotHeader where
  /-- `slot`. -/
  slot : ℤ
  /-- `base`. -/
  base : ℕ
  /-- `hdr_version`. -/
  hdrVersion : ℕ
  /-- `flags`. -/
  flags : ℕ
  /-- `image_size`. -/
  imageSize : ℕ
  /-- `image_crc32`. -/
  imageCrc32 : ℕ
  /-- `crc_ok`. -/
  crcOk : Bool
  /-- `name`. -/
  name : String
  /-- `fw_version`. -/
  fwVersion : String
  deriving DecidableEq

/-- `bs.decode("ascii", "replace")`: U+FFFD for every other byte. -/
def decodeAscii (bs : List UInt8) : String :=
  String.ofList (bs.map fun b => if b < 128 then Char.ofNat b.toNat else Char.ofNat 0xFFFD)

/-- A text field up to its first NUL: `raw.split(b"\x00")[0].decode("ascii", "replace")`. -/
def fieldText (raw : List UInt8) : String := decodeAscii (raw.takeWhile (· ≠ 0))

/-- `read_slot`: the header and the image, or nothing when the slot is not committed. -/
def readSlot (buf : List UInt8) (slot : ℤ) : Except SlotError (Option (SlotHeader × List UInt8)) :=
  match slotBase slot with
  | none => .error (.outOfRange slot)
  | some base =>
    if buf.length < base + 16 then .error .short
    else
      let magic := ofLe (slice buf base (base + 4))
      let ver := ofLe (slice buf (base + 4) (base + 6))
      let flags := ofLe (slice buf (base + 6) (base + 8))
      let size := ofLe (slice buf (base + 8) (base + 12))
      let crc := ofLe (slice buf (base + 12) (base + 16))
      if magic ≠ slotMagic ∨ flags &&& mbFlagCommitted = 0 then .ok none
      else
        let image := slice buf (base + slotImageOffset) (base + slotImageOffset + size)
        .ok (some ({
          slot := slot
          base := base
          hdrVersion := ver
          flags := flags
          imageSize := size
          imageCrc32 := crc
          crcOk := (crc32 image).toNat == crc
          name := fieldText (slice buf (base + 16) (base + 32))
          fwVersion := fieldText (slice buf (base + 32) (base + 48)) }, image))

/-! ## Where the slots are -/

/-- A slot that exists. -/
lemma slotBase_eq_some {slot : ℤ} {base : ℕ} (h : slotBase slot = some base) :
    0 ≤ slot ∧ slot < slotCount ∧ base = slotBackupBase + slot.toNat * slotStride := by
  rw [slotBase] at h
  split at h
  · next hzero =>
    subst hzero
    exact ⟨Int.le_refl 0, by decide, (Option.some.inj h).symm⟩
  · split at h
    · next hrange => exact ⟨by omega, hrange.2, (Option.some.inj h).symm⟩
    · cases h

/-- A number of a slot. -/
lemma slotBase_of_range {slot : ℤ} (h0 : 0 ≤ slot) (h : slot < slotCount) :
    slotBase slot = some (slotBackupBase + slot.toNat * slotStride) := by
  rw [slotBase]
  split
  · next hzero => rw [hzero]; rfl
  · rw [if_pos ⟨by omega, h⟩]

/-- The firmware slots lie between the calibration and the state records. -/
lemma slotBase_bounds {slot : ℤ} {base : ℕ} (h : slotBase slot = some base) :
    0x20000 ≤ base ∧ base + slotStride ≤ 0xC0000 := by
  obtain ⟨h0, h5, rfl⟩ := slotBase_eq_some h
  simp only [slotBackupBase, slotStride, slotCount] at *
  omega

/-! ## What an edit writes -/

/-- What `write_slot` writes. -/
def written (base : ℕ) (header image : List UInt8) (i : ℕ) : Option UInt8 :=
  (placed (base + slotImageOffset) image i).or (placed base header i)

/-- What `erase_slot` writes. -/
def erased (base : ℕ) : ℕ → Option UInt8 := placed base (List.replicate slotStride 0xff)

/-- What `erase_state` writes. -/
def stateErased (i : ℕ) : Option UInt8 :=
  (placed stateBBase (List.replicate stateSize 0xff) i).or
    (placed stateABase (List.replicate stateSize 0xff) i)

/-- The size of a flash image that has room for everything. -/
def flashSize : ℕ := 0x200000

/-- The state records are the last bytes an edit of a firmware slot writes. -/
lemma state_le_of_flashSize {n : ℕ} (h : flashSize ≤ n) : stateBBase + stateSize ≤ n :=
  Nat.le_trans (by decide) h

/-- A slice that is replaced by as many bytes. -/
lemma setSlice_eq {ε : Type} {buf : List UInt8} {i n : ℕ} {t : List UInt8} (ht : t.length = n)
    (h : i + n ≤ buf.length) :
    (setSlice i (i + n) t : Proc (List UInt8) ε Unit) buf = (.ok (), overlay (placed i t) buf) := by
  subst ht
  rw [setSlice, assign_eq_overlay h]

/-- `build_header` refuses an image that is too long. -/
lemma buildHeader_eq_none_iff {image : List UInt8} {name fwVersion : String} :
    buildHeader image name fwVersion = none ↔ slotStride - slotImageOffset < image.length := by
  rw [buildHeader]
  split
  · next hlong => exact iff_of_true rfl hlong
  · next hshort => exact iff_of_false (Option.some_ne_none _) hshort

/-- An image that `build_header` accepts fits its slot. -/
lemma length_of_buildHeader {image header : List UInt8} {name fwVersion : String}
    (h : buildHeader image name fwVersion = some header) :
    slotImageOffset + image.length ≤ slotStride := by
  rw [buildHeader] at h
  split at h
  · cases h
  · next hlen =>
    simp only [slotStride, slotImageOffset] at *
    omega

/-- **A slot that is written**: the header, and the image a sector later. -/
theorem writeSlot_eq {slot : ℤ} {base : ℕ} {image header buf : List UInt8} {name fwVersion : String}
    (hbase : slotBase slot = some base) (hheader : buildHeader image name fwVersion = some header)
    (hbuf : stateBBase + stateSize ≤ buf.length) :
    writeSlot slot image name fwVersion buf = (.ok (), overlay (written base header image) buf) := by
  have hbounds := slotBase_bounds hbase
  have himage := length_of_buildHeader hheader
  have hsize := length_buildHeader hheader
  simp only [stateBBase, stateSize, slotStride, slotImageOffset] at *
  have hfirst : (setSlice base (base + slotHeaderSize) header : Proc (List UInt8) SlotError Unit) buf =
      (.ok (), overlay (placed base header) buf) := setSlice_eq hsize (by rw [slotHeaderSize]; omega)
  have hsecond : (setSlice (base + slotImageOffset) (base + slotImageOffset + image.length) image :
      Proc (List UInt8) SlotError Unit) (overlay (placed base header) buf) =
      (.ok (), overlay (placed (base + slotImageOffset) image) (overlay (placed base header) buf)) :=
    setSlice_eq rfl (by rw [length_overlay, slotImageOffset]; omega)
  rw [writeSlot, hbase, hheader]
  refine Proc.bind_eq_ok.mpr ⟨base, buf, rfl, Proc.bind_eq_ok.mpr ⟨header, buf, rfl,
    Proc.bind_eq_ok.mpr ⟨(), _, hfirst, hsecond.trans ?_⟩⟩⟩
  rw [overlay_overlay]
  rfl

/-- **A slot that is erased.** -/
theorem eraseSlot_eq {slot : ℤ} {base : ℕ} {buf : List UInt8} (hbase : slotBase slot = some base)
    (hbuf : stateBBase + stateSize ≤ buf.length) :
    eraseSlot slot buf = (.ok (), overlay (erased base) buf) := by
  have hbounds := slotBase_bounds hbase
  rw [eraseSlot, hbase]
  refine Proc.bind_eq_ok.mpr ⟨base, buf, rfl, setSlice_eq List.length_replicate ?_⟩
  rw [stateBBase, stateSize] at hbuf
  omega

/-- **The state records erased.** -/
theorem eraseState_eq {buf : List UInt8} (hbuf : stateBBase + stateSize ≤ buf.length) :
    eraseState buf = (.ok (), overlay stateErased buf) := by
  rw [stateBBase, stateSize] at hbuf
  refine Proc.bind_eq_ok.mpr ⟨(), _, setSlice_eq List.length_replicate ?_,
    (setSlice_eq List.length_replicate ?_).trans ?_⟩
  · simp only [stateABase, stateSize]
    omega
  · simp only [length_overlay, stateBBase, stateSize]
    omega
  · rw [overlay_overlay]
    rfl

/-! ## What a slot holds -/

/-- The header `read_slot` finds in a slot that was written. -/
def writtenHeader (slot : ℤ) (base : ℕ) (image : List UInt8) (name fwVersion : String) :
    SlotHeader where
  slot := slot
  base := base
  hdrVersion := hdrVersion
  flags := mbFlagCommitted
  imageSize := image.length
  imageCrc32 := (crc32 image).toNat
  crcOk := true
  name := fieldText (textField name)
  fwVersion := fieldText (textField fwVersion)

/-- The fields of a header. -/
lemma slice_buildHeader {image header : List UInt8} {name fwVersion : String}
    (h : buildHeader image name fwVersion = some header) :
    slice header 0 4 = toLe 4 slotMagic ∧ slice header 4 6 = toLe 2 hdrVersion ∧
      slice header 6 8 = toLe 2 mbFlagCommitted ∧ slice header 8 12 = toLe 4 image.length ∧
      slice header 12 16 = toLe 4 (crc32 image).toNat ∧ slice header 16 32 = textField name ∧
      slice header 32 48 = textField fwVersion := by
  rw [buildHeader] at h
  split at h
  · cases h
  · obtain rfl := Option.some.inj h
    simp only [List.append_assoc]
    refine ⟨?_, ?_, ?_, ?_, ?_, ?_, ?_⟩ <;>
      simp [slice_append_self, slice_append_right, length_textField]

/-- The header and the image of a slot that was written. -/
lemma carries_written {base : ℕ} {header image buf : List UInt8} (hsize : header.length = 64)
    (h : Carries buf (written base header image)) :
    Carries buf (placed base header) ∧ Carries buf (placed (base + slotImageOffset) image) := by
  constructor
  · refine h.mono fun i a hi => ?_
    have hin : ¬ (i < base ∨ base + header.length ≤ i) := by
      rw [← placed_eq_none_iff, hi]
      exact Option.some_ne_none a
    have hout : placed (base + slotImageOffset) image i = none :=
      placed_eq_none_iff.mpr (.inl (by rw [slotImageOffset]; omega))
    rw [written, hout, Option.none_or, hi]
  · refine h.mono fun i a hi => ?_
    rw [written, hi, Option.some_or]

/-- **A slot that was written reads back** with its header, and its image is the one written.

**Proof sketch.** The header lies whole in its sector, so each field is read where it was put; the
size in it is the length of the image, so the image is read whole and has the CRC of the header. -/
theorem readSlot_of_written {slot : ℤ} {base : ℕ} {image header buf : List UInt8}
    {name fwVersion : String} (hbase : slotBase slot = some base)
    (hheader : buildHeader image name fwVersion = some header) (hbuf : flashSize ≤ buf.length)
    (h : Carries buf (written base header image)) :
    readSlot buf slot = .ok (some (writtenHeader slot base image name fwVersion, image)) := by
  have hsize := length_buildHeader hheader
  have himage := length_of_buildHeader hheader
  have hbounds := slotBase_bounds hbase
  obtain ⟨hhead, hbody⟩ := carries_written hsize h
  have hfield : ∀ i j, j ≤ 64 → slice buf (base + i) (base + j) = slice header i j :=
    fun i j hj => hhead.slice (by omega)
  have hwhole : slice buf (base + slotImageOffset) (base + slotImageOffset + image.length) = image :=
    hbody.whole rfl
  obtain ⟨hmagic, hver, hflags, hlen, hcrc, hname, hfw⟩ := slice_buildHeader hheader
  have hlong : image.length < 256 ^ 4 := by
    simp only [slotStride, slotImageOffset] at himage
    omega
  have hcrclt : (crc32 image).toNat < 256 ^ 4 := (crc32 image).toNat_lt
  have hshort : ¬ buf.length < base + 16 := by
    simp only [flashSize, slotStride] at hbuf hbounds
    omega
  have hmagic' : slice buf base (base + 4) = toLe 4 slotMagic := (hfield 0 4 (by decide)).trans hmagic
  rw [readSlot, hbase]
  dsimp only
  rw [if_neg hshort, hmagic', hfield 4 6 (by decide), hfield 6 8 (by decide),
    hfield 8 12 (by decide), hfield 12 16 (by decide), hfield 16 32 (by decide),
    hfield 32 48 (by decide), hver, hflags, hlen, hcrc, hname, hfw, ofLe_toLe 4 (by decide),
    ofLe_toLe 2 (by decide), ofLe_toLe 2 (by decide), ofLe_toLe 4 hlong, ofLe_toLe 4 hcrclt,
    if_neg (by decide), hwhole, beq_self_eq_true]
  rfl

/-- **A slot that was erased is empty.** -/
theorem readSlot_of_erased {slot : ℤ} {base : ℕ} {buf : List UInt8} (hbase : slotBase slot = some base)
    (hbuf : flashSize ≤ buf.length) (h : Carries buf (erased base)) : readSlot buf slot = .ok none := by
  have hbounds := slotBase_bounds hbase
  have hmagic : slice buf base (base + 4) = List.replicate 4 0xff := by
    have := h.slice (i := 0) (j := 4) (by rw [List.length_replicate]; decide)
    rw [Nat.add_zero] at this
    rw [this, slice, List.drop_zero, List.take_replicate]
    rfl
  have hshort : ¬ buf.length < base + 16 := by
    simp only [flashSize, slotStride] at hbuf hbounds
    omega
  rw [readSlot, hbase]
  dsimp only
  rw [if_neg hshort, hmagic, if_pos (.inl (by decide))]

/-! ## Texts -/

/-- A text without NUL of at most 15 ASCII characters. -/
def Fits (s : String) : Prop := s.toList.length ≤ 15 ∧ ∀ c ∈ s.toList, c.val < 128 ∧ c.val ≠ 0

/-- A text that fits, character by character. -/
lemma Fits.of_all {s : String} (hlen : s.toList.length ≤ 15)
    (h : s.toList.all (fun c => c.val < 128 ∧ c.val ≠ 0) = true) : Fits s :=
  ⟨hlen, fun c hc => of_decide_eq_true (List.all_eq_true.mp h c hc)⟩

/-- An ASCII character as a byte. -/
lemma toUInt8_ascii {c : Char} (hc : c.val < 128) (hne : c.val ≠ 0) :
    c.val.toUInt8 < 128 ∧ c.val.toUInt8 ≠ 0 ∧ Char.ofNat c.val.toUInt8.toNat = c := by
  have hlt : c.val.toNat < 128 := UInt32.lt_iff_toNat_lt.mp hc
  have hnat : c.val.toUInt8.toNat = c.toNat := by
    rw [UInt32.toNat_toUInt8, Nat.mod_eq_of_lt (by omega)]
    rfl
  refine ⟨UInt8.lt_iff_toNat_lt.mpr (by rw [hnat]; exact hlt), fun hzero => hne ?_, ?_⟩
  · rw [hzero] at hnat
    exact UInt32.toNat_inj.mp hnat.symm
  · rw [hnat, Char.ofNat_toNat]

/-- Cutting a field at its first NUL cuts the text at its first NUL. -/
lemma takeWhile_ascii {cs : List Char} (h : ∀ c ∈ cs, c.val < 128) (n : ℕ) :
    (cs.map (fun c : Char => c.val.toUInt8) ++ List.replicate n 0).takeWhile (· ≠ 0) =
      (cs.takeWhile (·.val ≠ 0)).map fun c => c.val.toUInt8 := by
  induction cs with
  | nil => simp
  | cons c cs ih =>
    have hrest := ih fun d hd => h d (List.mem_cons_of_mem c hd)
    rw [List.map_cons, List.cons_append, List.takeWhile_cons, List.takeWhile_cons]
    by_cases hzero : c.val = 0
    · simp [hzero]
    · have hbyte := (toUInt8_ascii (h c (List.mem_cons_self ..)) hzero).2.1
      rw [if_pos (decide_eq_true hbyte), if_pos (decide_eq_true hzero), hrest, List.map_cons]

/-- **A text field is read back** up to the first NUL of the text. -/
theorem fieldText_textField_of_ascii {s : String} (hlen : s.toList.length ≤ 15)
    (hascii : ∀ c ∈ s.toList, c.val < 128) :
    fieldText (textField s) = String.ofList (s.toList.takeWhile (·.val ≠ 0)) := by
  have hencode : encodeAscii s = s.toList.map fun c => c.val.toUInt8 :=
    List.map_congr_left fun c hc => if_pos (hascii c hc)
  have hpad : textField s = encodeAscii s ++ List.replicate (16 - (encodeAscii s).length) 0 := by
    rw [textField, List.take_of_length_le (by rw [encodeAscii, List.length_map]; exact hlen),
      List.rightpad]
  rw [fieldText, hpad, hencode, takeWhile_ascii hascii, decodeAscii, List.map_map]
  refine congrArg String.ofList ?_
  conv_rhs => rw [← List.map_id (s.toList.takeWhile _)]
  refine List.map_congr_left fun c hc => ?_
  have hne : c.val ≠ 0 := by simpa using List.mem_takeWhile_imp hc
  obtain ⟨hlt, -, hof⟩ := toUInt8_ascii (hascii c ((List.takeWhile_sublist _).subset hc)) hne
  rw [Function.comp_apply, if_pos hlt, hof, id]

/-- A text that fits its field is read back. -/
theorem fieldText_textField {s : String} (h : Fits s) : fieldText (textField s) = s := by
  obtain ⟨hlen, hchars⟩ := h
  rw [fieldText_textField_of_ascii hlen fun c hc => (hchars c hc).1,
    List.takeWhile_eq_self_iff.mpr fun c hc => decide_eq_true (hchars c hc).2,
    String.ofList_toList]

end Uvk5.Slots
