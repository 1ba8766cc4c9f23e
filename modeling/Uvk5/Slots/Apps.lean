import Uvk5.Slots.Store

set_option relaxedAutoImplicit false
set_option autoImplicit false

/-!
# Overlay apps in a flash image (`tools/uvk5_apps.py`)

Behind the state records a flash image has sixteen slots of 8 KiB for overlay apps: a 64-byte header
at the base of a slot and the code one sector later.

## Main definitions

* `Apps.parse` — the header of an app, validated.
* `Apps.readSlot` — what a slot holds.
* `Apps.install`, `Apps.erase` — the edits.

## Main results

* `Apps.install_eq`, `Apps.erase_eq` — what an edit writes.
* `Apps.readSlot_of_installed`, `Apps.readSlot_of_erased` — a slot as it was last left.
-/

namespace Uvk5.Apps

open Bytes Slots

/-- `MAGIC`. -/
def magic : ℕ := 0x31504146
/-- `HDR_VERSION`. -/
def hdrVersion : ℕ := 1
/-- `APP_OVERLAY_MAX`. -/
def appOverlayMax : ℕ := 0x1000
/-- `HDR_SIZE`. -/
def hdrSize : ℕ := 64
/-- `REGION_BASE`. -/
def regionBase : ℕ := 0x00102000
/-- `SLOT_STRIDE`. -/
def slotStride : ℕ := 0x0002000
/-- `CODE_OFFSET`. -/
def codeOffset : ℕ := 0x00001000
/-- `SLOT_COUNT`. -/
def slotCount : ℕ := 16
/-- `FLAG_COMMITTED`. -/
def flagCommitted : ℕ := 0x0001
/-- `FLAG_SCREEN_SAVER`. -/
def flagScreenSaver : ℕ := 0x0002
/-- `FLAG_SHORTCUT_MASK`. -/
def flagShortcutMask : ℕ := 0x0F00
/-- `FLAG_SHORTCUT_SHIFT`. -/
def flagShortcutShift : ℕ := 8
/-- `OVERLAY_VMA`. -/
def overlayVma : ℕ := 0x20000280

/-- The values of `SHORTCUTS`, and `"none"`. -/
inductive Shortcut where
  /-- The broadcast receiver. -/
  | fm
  /-- The fox hunt. -/
  | foxhunt
  /-- The beacon. -/
  | beacon
  /-- Beam. -/
  | beam
  /-- No shortcut. -/
  | none
  deriving DecidableEq

/-- `SHORTCUTS.get(bits, "none")`. -/
def shortcutOf (bits : ℕ) : Shortcut :=
  if bits = 0x01 then .fm
  else if bits = 0x02 then .foxhunt
  else if bits = 0x04 then .beacon
  else if bits = 0x08 then .beam
  else .none

/-- What a slot may hold. -/
inductive Kind where
  /-- `"app"`. -/
  | app
  /-- `"app (unreadable header)"`. -/
  | unreadable
  /-- `"firmware"`. -/
  | firmware
  /-- `"unknown"`. -/
  | unknown
  deriving DecidableEq

/-- `AppError`, with what its text says. -/
inductive AppError where
  /-- `slot_base`: the slot does not exist. -/
  | outOfRange (slot : ℤ)
  /-- `parse`: no room for a header. -/
  | tooShort (length : ℕ)
  /-- `parse`: another magic. -/
  | notApp (magic : List UInt8)
  /-- `parse`: another header version. -/
  | version (found : ℕ)
  /-- `parse`: no code, or too much. -/
  | codeSize (found : ℕ)
  /-- `parse`: less code than the header says. -/
  | truncated (codeSize held : ℕ)
  /-- `parse`: the CRC of the code is not the header's. -/
  | crc (actual found : ℕ)
  /-- `parse`: loaded somewhere else. -/
  | vma (found : ℕ)
  /-- The flash image ends before the slot does. -/
  | imageTooSmall (slot : ℤ)
  /-- `install`: the slot holds something that is not an app. -/
  | occupied (slot : ℤ) (base : ℕ) (kind : Kind)
  deriving DecidableEq

/-- `slot_base`, with `none` for the `AppError`. -/
def slotBase (slot : ℤ) : Option ℕ :=
  if 0 ≤ slot ∧ slot < slotCount then some (regionBase + slot.toNat * slotStride) else none

/-- White space among the ASCII characters, as `str.strip` has it. -/
def isSpace (c : Char) : Bool :=
  let n := c.toNat
  (9 ≤ n && n ≤ 13) || (28 ≤ n && n ≤ 32)

/-- `_text`: the text up to the first NUL, without white space around it. -/
def text (raw : List UInt8) : String :=
  let chars := (fieldText raw).toList
  String.ofList ((((chars.dropWhile isSpace).reverse).dropWhile isSpace).reverse)

/-- The dictionary `parse` returns. -/
structure AppInfo where
  /-- `magic`. -/
  magic : ℕ
  /-- `hdr_version`. -/
  hdrVersion : ℕ
  /-- `abi`. -/
  abi : ℕ
  /-- `api_min`. -/
  apiMin : ℕ
  /-- `code_size`. -/
  codeSize : ℕ
  /-- `crc32`. -/
  crc32 : ℕ
  /-- `entry_off`. -/
  entryOff : ℕ
  /-- `flags`. -/
  flags : ℕ
  /-- `name`. -/
  name : String
  /-- `version`. -/
  version : String
  /-- `vma`. -/
  vma : ℕ
  /-- `capabilities`. -/
  capabilities : ℕ
  /-- `committed`. -/
  committed : Bool
  /-- `screen_saver`. -/
  screenSaver : Bool
  /-- `shortcut`. -/
  shortcut : Shortcut
  /-- `total`. -/
  total : ℕ
  deriving DecidableEq

/-- The dictionary of a header, as `_HEADER` unpacks it. -/
def headerInfo (blob : List UInt8) : AppInfo :=
  let codeSize := ofLe (slice blob 8 12)
  let flags := ofLe (slice blob 18 20)
  { magic := ofLe (slice blob 0 4)
    hdrVersion := ofLe (slice blob 4 6)
    abi := ofLe (slice blob 6 7)
    apiMin := ofLe (slice blob 7 8)
    codeSize := codeSize
    crc32 := ofLe (slice blob 12 16)
    entryOff := ofLe (slice blob 16 18)
    flags := flags
    name := text (slice blob 20 36)
    version := text (slice blob 36 52)
    vma := ofLe (slice blob 52 56)
    capabilities := ofLe (slice blob 56 60)
    committed := flags &&& flagCommitted ≠ 0
    screenSaver := flags &&& flagScreenSaver ≠ 0
    shortcut := shortcutOf ((flags &&& flagShortcutMask) >>> flagShortcutShift)
    total := hdrSize + codeSize }

/-- `parse`. -/
def parse (blob : List UInt8) (strict : Bool) : Except AppError AppInfo :=
  if blob.length < hdrSize then .error (.tooShort blob.length)
  else
    let info := headerInfo blob
    if info.magic ≠ magic then .error (.notApp (blob.take 4))
    else if !strict then .ok info
    else if info.hdrVersion ≠ hdrVersion then .error (.version info.hdrVersion)
    else if info.codeSize = 0 ∨ info.codeSize > appOverlayMax then .error (.codeSize info.codeSize)
    else if blob.length < hdrSize + info.codeSize then
      .error (.truncated info.codeSize (blob.length - hdrSize))
    else
      let actual := (Slots.crc32 (slice blob hdrSize (hdrSize + info.codeSize))).toNat
      if actual ≠ info.crc32 then .error (.crc actual info.crc32)
      else if info.vma ≠ overlayVma then .error (.vma info.vma)
      else .ok info

/-- The dictionary `read_slot` returns. -/
inductive SlotInfo where
  /-- An app. -/
  | app (slot : ℤ) (base : ℕ) (info : AppInfo)
  /-- Something else, with its first four bytes. -/
  | other (slot : ℤ) (base : ℕ) (magic : List UInt8) (kind : Kind)
  deriving DecidableEq

/-- `occupied.get("kind")`. -/
def SlotInfo.kind : SlotInfo → Kind
  | .app .. => .app
  | .other _ _ _ kind => kind

/-- `b"FAP1"`. -/
def fap1 : List UInt8 := [0x46, 0x41, 0x50, 0x31]
/-- `b"FMB1"`. -/
def fmb1 : List UInt8 := [0x46, 0x4D, 0x42, 0x31]

/-- `read_slot`: what the slot holds, or nothing when it is empty or not in the image. -/
def readSlot (image : List UInt8) (slot : ℤ) : Except AppError (Option SlotInfo) :=
  match slotBase slot with
  | none => .error (.outOfRange slot)
  | some base =>
    if base + slotStride > image.length then .ok none
    else
      let raw := slice image base (base + slotStride)
      if raw.take 4 = [0xff, 0xff, 0xff, 0xff] ∨ raw.all (· = 0) then .ok none
      else if raw.take 4 ≠ fap1 then
        .ok (some (.other slot base (raw.take 4)
          (if raw.take 4 = fmb1 then .firmware else .unknown)))
      else
        match parse (raw.take hdrSize ++
            slice raw codeOffset (codeOffset + ofLe (slice raw 8 12))) false with
        | .error _ => .ok (some (.other slot base fap1 .unreadable))
        | .ok info => .ok (some (.app slot base info))

/-- `for i in range(base, base + SLOT_STRIDE): image[i] = 0xFF`. -/
def fillSlot {ε : Type} (base : ℕ) : Proc (List UInt8) ε Unit := fun image =>
  (.ok (), (List.range slotStride).foldl (fun image k => image.set (base + k) 0xff) image)

/-- The test of `install` that the slot may be overwritten. -/
def checkOccupied (slot : ℤ) (base : ℕ) (force : Bool) : Proc (List UInt8) AppError Unit :=
  fun image =>
    if force then (.ok (), image)
    else
      match readSlot image slot with
      | .error e => (.error e, image)
      | .ok none => (.ok (), image)
      | .ok (some info) =>
        if info.kind ≠ .app then (.error (.occupied slot base info.kind), image) else (.ok (), image)

/-- The test that the slot lies in the image. -/
def checkRoom (slot : ℤ) (base : ℕ) : Proc (List UInt8) AppError Unit := fun image =>
  if base + slotStride > image.length then (.error (.imageTooSmall slot), image) else (.ok (), image)

/-- `install`. -/
def install (slot : ℤ) (blob : List UInt8) (force : Bool) : Proc (List UInt8) AppError AppInfo := do
  let info ← Proc.ofExcept (parse blob true)
  let base ← Proc.getOrRaise (.outOfRange slot) (slotBase slot)
  checkRoom slot base
  checkOccupied slot base force
  fillSlot base
  setSlice base (base + hdrSize) (blob.take hdrSize)
  let code := slice blob hdrSize (hdrSize + info.codeSize)
  setSlice (base + codeOffset) (base + codeOffset + code.length) code
  pure info

/-- `erase`. -/
def erase (slot : ℤ) : Proc (List UInt8) AppError ℕ := do
  let base ← Proc.getOrRaise (.outOfRange slot) (slotBase slot)
  checkRoom slot base
  fillSlot base
  pure base

/-! ## Where the slots are -/

/-- A slot that exists. -/
lemma slotBase_eq_some {slot : ℤ} {base : ℕ} (h : slotBase slot = some base) :
    0 ≤ slot ∧ slot < slotCount ∧ base = regionBase + slot.toNat * slotStride := by
  rw [slotBase] at h
  split at h
  · next hrange => exact ⟨hrange.1, hrange.2, (Option.some.inj h).symm⟩
  · cases h

/-- The app slots lie behind the state records. -/
lemma slotBase_bounds {slot : ℤ} {base : ℕ} (h : slotBase slot = some base) :
    0x102000 ≤ base ∧ base + slotStride ≤ 0x122000 := by
  obtain ⟨h0, h16, rfl⟩ := slotBase_eq_some h
  simp only [regionBase, slotStride, slotCount] at *
  omega

/-! ## What an edit writes -/

/-- What `erase` writes. -/
def erased (base : ℕ) : ℕ → Option UInt8 := placed base (List.replicate slotStride 0xff)

/-- What `install` writes: the code and the header over an erased slot. -/
def installed (base : ℕ) (blob : List UInt8) (i : ℕ) : Option UInt8 :=
  ((placed (base + codeOffset) (slice blob hdrSize (hdrSize + (headerInfo blob).codeSize)) i).or
    (placed base (blob.take hdrSize) i)).or (erased base i)

/-- What a header that `parse` accepts says. -/
lemma parse_strict {blob : List UInt8} {info : AppInfo} (h : parse blob true = .ok info) :
    info = headerInfo blob ∧ (headerInfo blob).magic = magic ∧
      (headerInfo blob).codeSize ≤ appOverlayMax ∧
      hdrSize + (headerInfo blob).codeSize ≤ blob.length := by
  rw [parse] at h
  split at h
  · cases h
  dsimp only at h
  split at h
  · cases h
  · next hmagic =>
    rw [Bool.not_true, if_neg Bool.false_ne_true] at h
    split at h
    · cases h
    split at h
    · cases h
    · next hsize =>
      split at h
      · cases h
      · next hlen =>
        split at h
        · cases h
        split at h
        · cases h
        · exact ⟨(Except.ok.inj h).symm, not_not.mp hmagic, by omega, by omega⟩

/-- Outside the slot nothing is written. -/
lemma installed_eq_none {base i : ℕ} {blob : List UInt8}
    (hcode : (headerInfo blob).codeSize ≤ appOverlayMax)
    (hout : i < base ∨ base + slotStride ≤ i) : installed base blob i = none := by
  have hbody : (slice blob hdrSize (hdrSize + (headerInfo blob).codeSize)).length ≤
      appOverlayMax := by
    rw [length_slice]
    omega
  have hhead : (blob.take hdrSize).length ≤ hdrSize := List.length_take_le ..
  simp only [slotStride, appOverlayMax, hdrSize] at *
  rw [installed, erased, Option.or_eq_none_iff, Option.or_eq_none_iff, placed_eq_none_iff,
    placed_eq_none_iff, placed_eq_none_iff, List.length_replicate, codeOffset]
  simp only [slotStride, hdrSize]
  omega

/-- A slot is filled where it is. -/
lemma fillSlot_eq {ε : Type} {base : ℕ} {image : List UInt8} (h : base + slotStride ≤ image.length) :
    (fillSlot base : Proc (List UInt8) ε Unit) image = (.ok (), overlay (erased base) image) := by
  rw [fillSlot, foldl_set_eq_overlay 0xff h, erased]

/-- There is room for a slot that ends in the image. -/
lemma checkRoom_eq {slot : ℤ} {base : ℕ} {image : List UInt8}
    (h : base + slotStride ≤ image.length) : checkRoom slot base image = (.ok (), image) := by
  rw [checkRoom, if_neg (Nat.not_lt.mpr h)]

/-- The test of `install` leaves the image alone. -/
lemma checkOccupied_state (slot : ℤ) (base : ℕ) (force : Bool) (image : List UInt8) :
    checkOccupied slot base force image = ((checkOccupied slot base force image).1, image) := by
  refine Prod.ext rfl ?_
  rw [checkOccupied]
  split
  · rfl
  · split
    · rfl
    · rfl
    · split <;> rfl

/-- The test of `install` sees the size of the image and the bytes of the slot. -/
lemma checkOccupied_congr {slot : ℤ} {base : ℕ} {force : Bool} {image image' : List UInt8}
    (hbase : slotBase slot = some base) (hlen : image.length = image'.length)
    (hsame : slice image base (base + slotStride) = slice image' base (base + slotStride)) :
    (checkOccupied slot base force image).1 = (checkOccupied slot base force image').1 := by
  have hread : readSlot image slot = readSlot image' slot := by
    rw [readSlot, readSlot, hbase]
    dsimp only
    rw [hlen, hsame]
  rw [checkOccupied, checkOccupied, hread]
  split
  · rfl
  · split
    · rfl
    · rfl
    · split <;> rfl

/-- **An app that is installed.** -/
theorem install_eq {slot : ℤ} {base : ℕ} {blob image : List UInt8} {force : Bool} {info : AppInfo}
    (hparse : parse blob true = .ok info) (hbase : slotBase slot = some base)
    (hroom : base + slotStride ≤ image.length)
    (hfree : (checkOccupied slot base force image).1 = .ok ()) :
    install slot blob force image = (.ok info, overlay (installed base blob) image) := by
  obtain ⟨rfl, -, hcode, hlen⟩ := parse_strict hparse
  have hfree' : checkOccupied slot base force image = (.ok (), image) := by
    rw [checkOccupied_state, hfree]
  have hhead : (blob.take hdrSize).length = hdrSize := by
    rw [List.length_take]
    omega
  have hbody : (slice blob hdrSize (hdrSize + (headerInfo blob).codeSize)).length ≤ appOverlayMax := by
    rw [length_slice]
    omega
  have hend : base + 0x2000 ≤ image.length := hroom
  rw [appOverlayMax] at hbody
  rw [install, Proc.bind_of_ok (Proc.ofExcept_eq hparse),
    Proc.bind_of_ok (Proc.getOrRaise_eq_ok.mpr ⟨hbase, rfl⟩), Proc.bind_of_ok (checkRoom_eq hroom),
    Proc.bind_of_ok hfree', Proc.bind_of_ok (fillSlot_eq hroom),
    Proc.bind_of_ok (setSlice_eq hhead (by rw [length_overlay, hdrSize]; omega)),
    Proc.bind_of_ok (setSlice_eq rfl (by simp only [length_overlay, codeOffset]; omega)),
    overlay_overlay, overlay_overlay]
  rfl

/-- An app that is refused changes nothing. -/
theorem install_refused {slot : ℤ} {blob image : List UInt8} {force : Bool}
    (h : ∀ info base, parse blob true = .ok info → slotBase slot = some base →
      base + slotStride ≤ image.length → (checkOccupied slot base force image).1 ≠ .ok ()) :
    ∃ e, install slot blob force image = (.error e, image) := by
  cases hparse : parse blob true with
  | error e => exact ⟨e, by rw [install, Proc.bind_of_error (Proc.ofExcept_eq hparse)]⟩
  | ok info =>
    rw [install, Proc.bind_of_ok (Proc.ofExcept_eq hparse)]
    cases hbase : slotBase slot with
    | none => exact ⟨_, Proc.bind_of_error rfl⟩
    | some base =>
      rw [Proc.bind_of_ok (Proc.getOrRaise_eq_ok.mpr ⟨rfl, rfl⟩)]
      rcases Nat.lt_or_ge image.length (base + slotStride) with hshort | hroom
      · exact ⟨_, Proc.bind_of_error (by rw [checkRoom, if_pos hshort])⟩
      · rw [Proc.bind_of_ok (checkRoom_eq hroom)]
        cases hocc : (checkOccupied slot base force image).1 with
        | ok u => exact absurd hocc (h info base hparse hbase hroom)
        | error e => exact ⟨e, Proc.bind_of_error (by rw [checkOccupied_state, hocc])⟩

/-- **A slot that is erased.** -/
theorem erase_eq {slot : ℤ} {base : ℕ} {image : List UInt8} (hbase : slotBase slot = some base)
    (hroom : base + slotStride ≤ image.length) :
    erase slot image = (.ok base, overlay (erased base) image) := by
  rw [erase, Proc.bind_of_ok (Proc.getOrRaise_eq_ok.mpr ⟨hbase, rfl⟩),
    Proc.bind_of_ok (checkRoom_eq hroom), Proc.bind_of_ok (fillSlot_eq hroom)]
  rfl

/-! ## What a slot holds -/

/-- The dictionary depends on the header alone. -/
lemma headerInfo_append {head : List UInt8} (rest : List UInt8) (h : head.length = hdrSize) :
    headerInfo (head ++ rest) = headerInfo head := by
  have hfield : ∀ i j, j ≤ hdrSize → slice (head ++ rest) i j = slice head i j :=
    fun i j hj => slice_append_left rest (by omega)
  simp only [headerInfo, hfield _ 4 (by decide), hfield _ 6 (by decide), hfield _ 7 (by decide),
    hfield _ 8 (by decide), hfield _ 12 (by decide), hfield _ 16 (by decide),
    hfield _ 18 (by decide), hfield _ 20 (by decide), hfield _ 36 (by decide),
    hfield _ 52 (by decide), hfield _ 56 (by decide), hfield _ 60 (by decide)]

/-- The header of an app that was installed. -/
lemma carries_installed {base : ℕ} {blob image : List UInt8}
    (h : Carries image (installed base blob)) : Carries image (placed base (blob.take hdrSize)) := by
  refine h.mono fun i a hi => ?_
  have hin : ¬ (i < base ∨ base + (blob.take hdrSize).length ≤ i) := by
    rw [← placed_eq_none_iff, hi]
    exact Option.some_ne_none a
  have hshort : (blob.take hdrSize).length ≤ hdrSize := List.length_take_le ..
  have hout : placed (base + codeOffset)
      (slice blob hdrSize (hdrSize + (headerInfo blob).codeSize)) i = none :=
    placed_eq_none_iff.mpr (.inl (by simp only [codeOffset, hdrSize] at *; omega))
  rw [installed, hout, Option.none_or, hi, Option.some_or]

/-- A header with the magic of an app is read without further tests. -/
lemma parse_of_fap1 {head : List UInt8} (rest : List UInt8) (hsize : head.length = hdrSize)
    (hfour : head.take 4 = fap1) : parse (head ++ rest) false = .ok (headerInfo head) := by
  have hmagic : (headerInfo head).magic = magic := by
    show ofLe (slice head 0 4) = magic
    rw [slice_zero, hfour]
    rfl
  rw [parse, if_neg (by rw [List.length_append, hsize]; omega)]
  dsimp only
  rw [headerInfo_append rest hsize, if_neg (not_not.mpr hmagic), Bool.not_false, if_pos rfl]

/-- **A slot that begins with the magic of an app** is reported as one. -/
theorem readSlot_of_fap1 {slot : ℤ} {base : ℕ} {image : List UInt8}
    (hbase : slotBase slot = some base) (hroom : base + slotStride ≤ image.length)
    (hfour : (slice image base (base + slotStride)).take 4 = fap1) :
    readSlot image slot =
      .ok (some (.app slot base (headerInfo (slice image base (base + hdrSize))))) := by
  have hnotempty : ¬ ((slice image base (base + slotStride)).take 4 = [0xff, 0xff, 0xff, 0xff] ∨
      (slice image base (base + slotStride)).all (· = 0) = true) := by
    rintro (hff | hzero)
    · rw [hfour] at hff
      exact absurd hff (by decide)
    · have hmem : (0x46 : UInt8) ∈ slice image base (base + slotStride) :=
        List.mem_of_mem_take (i := 4) (by rw [hfour]; decide)
      exact absurd (of_decide_eq_true (List.all_eq_true.mp hzero _ hmem)) (by decide)
  have hhead : (slice image base (base + slotStride)).take hdrSize =
      slice image base (base + hdrSize) := by
    rw [← slice_zero, slice_slice image base (by decide), Nat.add_zero]
  have hsize : (slice image base (base + hdrSize)).length = hdrSize := by
    rw [length_slice]
    simp only [slotStride, hdrSize] at *
    omega
  have hfour' : (slice image base (base + hdrSize)).take 4 = fap1 := by
    rw [← hhead, List.take_take]
    exact hfour
  rw [readSlot, hbase]
  dsimp only
  rw [if_neg (Nat.not_lt.mpr hroom), if_neg hnotempty, if_neg (not_not.mpr hfour), hhead,
    parse_of_fap1 _ hsize hfour']

/-- **An app that was installed reads back** with its header.

**Proof sketch.** The slot begins with the header, whose magic is that of an app, and `parse` reads
the same 64 bytes again. -/
theorem readSlot_of_installed {slot : ℤ} {base : ℕ} {blob image : List UInt8} {info : AppInfo}
    (hparse : parse blob true = .ok info) (hbase : slotBase slot = some base)
    (hroom : base + slotStride ≤ image.length) (h : Carries image (installed base blob)) :
    readSlot image slot = .ok (some (.app slot base info)) := by
  obtain ⟨rfl, hmagic, hcode, hlen⟩ := parse_strict hparse
  have hhead := carries_installed h
  have hsize : (blob.take hdrSize).length = hdrSize := by
    rw [List.length_take]
    omega
  have hblob : headerInfo blob = headerInfo (blob.take hdrSize) := by
    conv_lhs => rw [← List.take_append_drop hdrSize blob]
    exact headerInfo_append _ hsize
  have hfour : (slice image base (base + slotStride)).take 4 = fap1 := by
    have hlength : ((blob.take hdrSize).take 4).length = 4 := by
      rw [List.length_take, hsize, hdrSize]
      rfl
    have hback := toLe_ofLe ((blob.take hdrSize).take 4)
    have hvalue : ofLe ((blob.take hdrSize).take 4) = magic := by
      rw [hblob] at hmagic
      exact hmagic
    rw [hlength, hvalue] at hback
    rw [← slice_zero, slice_slice image base (by decide), hhead.slice (by rw [hsize]; decide),
      slice_zero, ← hback]
    rfl
  rw [readSlot_of_fap1 hbase hroom hfour, hhead.whole hsize, ← hblob]

/-- **A slot that was erased is empty.** -/
theorem readSlot_of_erased {slot : ℤ} {base : ℕ} {image : List UInt8}
    (hbase : slotBase slot = some base) (hroom : base + slotStride ≤ image.length)
    (h : Carries image (erased base)) : readSlot image slot = .ok none := by
  have hfour : (slice image base (base + slotStride)).take 4 = [0xff, 0xff, 0xff, 0xff] := by
    rw [← slice_zero, slice_slice image base (by decide),
      h.slice (by rw [List.length_replicate]; decide), slice_zero, List.take_replicate]
    rfl
  rw [readSlot, hbase]
  dsimp only
  rw [if_neg (Nat.not_lt.mpr hroom), if_pos (.inl hfour)]

end Uvk5.Apps
