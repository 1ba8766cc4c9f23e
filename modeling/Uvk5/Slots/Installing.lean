import Uvk5.Slots.Apps

set_option relaxedAutoImplicit false
set_option autoImplicit false

/-!
# What an install leaves, and what it destroys (`tools/uvk5_apps.py`)

An install that is refused leaves the image alone, and one that succeeds leaves the app and nothing
else in the slot. Whether a slot may be overwritten without `force` is decided by its first bytes.

## Main definitions

* `Apps.Installs` — an image with an app installed.
* `Apps.Replaceable` — the contents of a slot that an install is allowed to destroy.

## Main results

* `Apps.install_exact` — an install does all of it or nothing.
* `Apps.install_replaces_iff` — the slots of which an install destroys only what it may.
-/

namespace Uvk5.Apps

open Bytes Slots

/-! ## What an install leaves -/

section Exact

variable {base : ℕ} {blob image : List UInt8}

/-- `image'` is `image` with the app of the blob in the slot at `base`, and 0xFF in the rest of the
slot. -/
structure Installs (image : List UInt8) (base : ℕ) (blob : List UInt8) (info : AppInfo)
    (image' : List UInt8) : Prop where
  /-- The image keeps its length. -/
  length : image'.length = image.length
  /-- No byte outside the slot changes. -/
  outside : ∀ i, i < base ∨ base + slotStride ≤ i → image'[i]? = image[i]?
  /-- The blob has a header and as much code as it says. -/
  fits : hdrSize + info.codeSize ≤ blob.length
  /-- The header is at the base. -/
  header : slice image' base (base + hdrSize) = blob.take hdrSize
  /-- The code is in the second sector. -/
  code : slice image' (base + codeOffset) (base + codeOffset + info.codeSize) =
    slice blob hdrSize (hdrSize + info.codeSize)
  /-- Nothing else is in the slot. -/
  rest : ∀ i, base ≤ i → i < base + slotStride → base + hdrSize ≤ i →
    i < base + codeOffset ∨ base + codeOffset + info.codeSize ≤ i → image'[i]? = some 0xff

/-- The code of an app that was installed. -/
lemma carries_installed_code (h : Carries image (installed base blob)) :
    Carries image
      (placed (base + codeOffset) (slice blob hdrSize (hdrSize + (headerInfo blob).codeSize))) := by
  refine h.mono fun i a hi => ?_
  rw [installed, hi, Option.some_or, Option.some_or]

/-- What is installed is there. -/
lemma carries_overlay_installed (hcode : (headerInfo blob).codeSize ≤ appOverlayMax)
    (hroom : base + slotStride ≤ image.length) :
    Carries (overlay (installed base blob) image) (installed base blob) := by
  refine carries_overlay fun i hi => ?_
  by_contra hlong
  exact hi (installed_eq_none hcode (.inr (by omega)))

/-- **The image that an install leaves.** -/
theorem installs_overlay {info : AppInfo} (hparse : parse blob true = .ok info)
    (hroom : base + slotStride ≤ image.length) :
    Installs image base blob info (overlay (installed base blob) image) := by
  obtain ⟨rfl, -, hcode, hlen⟩ := parse_strict hparse
  have hhead : (blob.take hdrSize).length = hdrSize := by
    rw [List.length_take]
    omega
  have hbody : (slice blob hdrSize (hdrSize + (headerInfo blob).codeSize)).length =
      (headerInfo blob).codeSize := by
    rw [length_slice]
    omega
  have hcarries := carries_overlay_installed hcode hroom
  exact
    { length := length_overlay ..
      outside := fun i hi => getElem?_overlay_of_none image (installed_eq_none hcode hi)
      fits := hlen
      header := (carries_installed hcarries).whole hhead
      code := (carries_installed_code hcarries).whole hbody
      rest := by
        intro i hlow hhigh hnothead hnotcode
        refine hcarries i 0xff ?_
        have hoff : ¬ slotStride ≤ i - base := by omega
        rw [installed, placed_eq_none_iff.mpr (by rw [hbody]; exact hnotcode),
          placed_eq_none_iff.mpr (.inr (by rw [hhead]; exact hnothead)), Option.none_or,
          Option.none_or, erased, placed, if_pos hlow, List.getElem?_replicate,
          if_pos (by omega)] }

/-- **An install is exact and atomic**: it raises and leaves the image alone, or it returns what
`parse` says of the blob, leaves the app in the slot and 0xFF around it, changes nothing else, and
the slot reads back as that app.

**Proof sketch.** `install_eq` where no test raises: the image is overlaid with the app, and the
slot reads back as the app that is there (`readSlot_of_installed`). Every test is made before the
image is changed. -/
theorem install_exact (image : List UInt8) (slot : ℤ) (blob : List UInt8) (force : Bool) :
    match install slot blob force image with
    | (.error _, image') => image' = image
    | (.ok info, image') => parse blob true = .ok info ∧ ∃ base, slotBase slot = some base ∧
        Installs image base blob info image' ∧
        readSlot image' slot = .ok (some (.app slot base info)) := by
  by_cases h : ∃ info base, parse blob true = .ok info ∧ slotBase slot = some base ∧
      base + slotStride ≤ image.length ∧ (checkOccupied slot base force image).1 = .ok ()
  · obtain ⟨info, base, hparse, hbase, hroom, hfree⟩ := h
    have hcarries := carries_overlay_installed (parse_strict hparse).2.2.1 hroom
    rw [install_eq hparse hbase hroom hfree]
    exact ⟨hparse, base, hbase, installs_overlay hparse hroom,
      readSlot_of_installed hparse hbase (by rwa [length_overlay]) hcarries⟩
  · obtain ⟨e, he⟩ : ∃ e, install slot blob force image = (.error e, image) := by
      refine install_refused fun info base hparse hbase hroom hfree => h ?_
      exact ⟨info, base, hparse, hbase, hroom, hfree⟩
    rw [he]

end Exact

/-! ## What an install destroys -/

section Foreign

variable {slot : ℤ} {base : ℕ} {image : List UInt8}

/-- What an install without `force` is allowed to destroy: nothing at all, or an app. -/
def Replaceable (raw : List UInt8) : Prop :=
  (∀ b ∈ raw, b = 0xff) ∨ (∀ b ∈ raw, b = 0) ∨ raw.take 4 = fap1

/-- What `install` takes for a slot that may be overwritten. -/
lemma checkOccupied_ok_iff (hbase : slotBase slot = some base)
    (hroom : base + slotStride ≤ image.length) :
    (checkOccupied slot base false image).1 = .ok () ↔
      (slice image base (base + slotStride)).take 4 = [0xff, 0xff, 0xff, 0xff] ∨
        (∀ b ∈ slice image base (base + slotStride), b = 0) ∨
        (slice image base (base + slotStride)).take 4 = fap1 := by
  have hzero : (slice image base (base + slotStride)).all (· = 0) = true ↔
      ∀ b ∈ slice image base (base + slotStride), b = 0 := by
    rw [List.all_eq_true]
    exact forall₂_congr fun b _ => decide_eq_true_iff
  by_cases hfour : (slice image base (base + slotStride)).take 4 = fap1
  · rw [checkOccupied, readSlot_of_fap1 hbase hroom hfour, if_neg Bool.false_ne_true]
    exact iff_of_true rfl (.inr (.inr hfour))
  · rw [checkOccupied, readSlot, hbase, if_neg Bool.false_ne_true]
    dsimp only
    rw [if_neg (Nat.not_lt.mpr hroom), ← hzero, or_iff_left hfour]
    by_cases hempty : (slice image base (base + slotStride)).take 4 = [0xff, 0xff, 0xff, 0xff] ∨
        (slice image base (base + slotStride)).all (· = 0) = true
    · rw [if_pos hempty]
      exact iff_of_true rfl hempty
    · rw [if_neg hempty, if_pos hfour]
      refine iff_of_false ?_ hempty
      by_cases hfirmware : (slice image base (base + slotStride)).take 4 = fmb1
      · rw [if_pos hfirmware]
        exact fun h => by cases h
      · rw [if_neg hfirmware]
        exact fun h => by cases h

/-- **When an install without `force` succeeds.** -/
theorem install_ok_iff {blob : List UInt8} {info : AppInfo} (hparse : parse blob true = .ok info) :
    (∃ info' image', install slot blob false image = (.ok info', image')) ↔
      ∃ base, slotBase slot = some base ∧ base + slotStride ≤ image.length ∧
        ((slice image base (base + slotStride)).take 4 = [0xff, 0xff, 0xff, 0xff] ∨
          (∀ b ∈ slice image base (base + slotStride), b = 0) ∨
          (slice image base (base + slotStride)).take 4 = fap1) := by
  constructor
  · rintro ⟨info', image', hrun⟩
    by_contra hnot
    obtain ⟨e, he⟩ : ∃ e, install slot blob false image = (.error e, image) := by
      refine install_refused fun _ base _ hbase hroom hfree => hnot ?_
      exact ⟨base, hbase, hroom, (checkOccupied_ok_iff hbase hroom).mp hfree⟩
    rw [he] at hrun
    cases hrun
  · rintro ⟨base, hbase, hroom, hholds⟩
    exact ⟨_, _, install_eq hparse hbase hroom ((checkOccupied_ok_iff hbase hroom).mpr hholds)⟩

/-- **The slots of which an install destroys only what it may**: all but those that begin with four
erased bytes and go on with something else.

**Proof sketch.** `install_ok_iff` says which slots are not occupied: those that begin with four
erased bytes, are all zero or begin with the magic of an app. Only the first kind may hold
anything else. -/
theorem install_replaces_iff (image : List UInt8) (slot : ℤ) {blob : List UInt8} {info : AppInfo}
    (hparse : parse blob true = .ok info) :
    (∀ info' image', install slot blob false image = (.ok info', image') →
        ∃ base, slotBase slot = some base ∧
          Replaceable (slice image base (base + slotStride))) ↔
      ∀ base, slotBase slot = some base → base + slotStride ≤ image.length →
        (slice image base (base + slotStride)).take 4 = [0xff, 0xff, 0xff, 0xff] →
        ∀ b ∈ slice image base (base + slotStride), b = 0xff := by
  constructor
  · intro hspares base hbase hroom hfour
    obtain ⟨info', image', hrun⟩ := (install_ok_iff hparse).mpr ⟨base, hbase, hroom, .inl hfour⟩
    obtain ⟨base', hbase', hheld⟩ := hspares info' image' hrun
    rw [hbase] at hbase'
    obtain rfl := Option.some.inj hbase'
    rcases hheld with hff | hzero | hfap
    · exact hff
    · have hmem : (0xff : UInt8) ∈ slice image base (base + slotStride) :=
        List.mem_of_mem_take (i := 4) (by rw [hfour]; decide)
      exact absurd (hzero _ hmem) (by decide)
    · rw [hfour] at hfap
      exact absurd hfap (by decide)
  · intro hwhole info' image' hrun
    obtain ⟨base, hbase, hroom, hff | hzero | hfap⟩ :=
      (install_ok_iff hparse).mp ⟨info', image', hrun⟩
    · exact ⟨base, hbase, .inl (hwhole base hbase hroom hff)⟩
    · exact ⟨base, hbase, .inr (.inl hzero)⟩
    · exact ⟨base, hbase, .inr (.inr hfap)⟩

end Foreign

/-- An app with one byte of code. -/
def smallApp : List UInt8 :=
  [0x46, 0x41, 0x50, 0x31, 1, 0, 1, 1, 1, 0, 0, 0, 0x8d, 0xef, 0x02, 0xd2, 0, 0, 1, 0] ++
    (0x78 :: List.replicate 15 0) ++ (0x31 :: List.replicate 15 0) ++
    [0x80, 0x02, 0x00, 0x20] ++ List.replicate 8 0 ++ [0]

/-- The small app is parsed. -/
lemma parse_smallApp : parse smallApp true = .ok (headerInfo smallApp) := by decide +kernel

/-- An erased image that ends with the last app slot. -/
def erasedImage : List UInt8 := List.replicate (regionBase + slotCount * slotStride) 0xff

/-- An install into an erased slot destroys nothing. -/
theorem install_replaces_erased :
    (∀ info' image', install 1 smallApp false erasedImage = (.ok info', image') →
        ∃ base, slotBase 1 = some base ∧
          Replaceable (slice erasedImage base (base + slotStride))) ↔
      ∀ base, slotBase 1 = some base → base + slotStride ≤ erasedImage.length →
        (slice erasedImage base (base + slotStride)).take 4 = [0xff, 0xff, 0xff, 0xff] →
        ∀ b ∈ slice erasedImage base (base + slotStride), b = 0xff :=
  install_replaces_iff erasedImage 1 parse_smallApp

/-- Data that begins with four erased bytes is destroyed. -/
theorem install_destroys :
    ¬ ∀ (image : List UInt8) (slot : ℤ) (blob : List UInt8) (info : AppInfo),
      parse blob true = .ok info →
      ∀ info' image', install slot blob false image = (.ok info', image') →
        ∃ base, slotBase slot = some base ∧
          Replaceable (slice image base (base + slotStride)) := by
  intro h
  obtain ⟨image, hlen, hraw⟩ : ∃ image : List UInt8, image.length = regionBase + slotStride ∧
      slice image regionBase (regionBase + slotStride) =
        [0xff, 0xff, 0xff, 0xff, 0x00] ++ List.replicate (slotStride - 5) 0xff := by
    refine ⟨List.replicate regionBase 0xff ++
      ([0xff, 0xff, 0xff, 0xff, 0x00] ++ List.replicate (slotStride - 5) 0xff), ?_, ?_⟩
    · rw [List.length_append, List.length_append, List.length_replicate, List.length_replicate]
      rfl
    · refine slice_last _ _ List.length_replicate.symm ?_
      rw [List.length_append, List.length_replicate, List.length_replicate]
      rfl
  have hbase : slotBase 0 = some regionBase := rfl
  have hfour : (slice image regionBase (regionBase + slotStride)).take 4 =
      [0xff, 0xff, 0xff, 0xff] := by
    rw [hraw]
    rfl
  obtain ⟨info', image', hrun⟩ := (install_ok_iff parse_smallApp).mpr
    ⟨regionBase, hbase, Nat.le_of_eq hlen.symm, .inl hfour⟩
  obtain ⟨base, hbase', hheld⟩ := h image 0 smallApp _ parse_smallApp info' image' hrun
  rw [hbase] at hbase'
  obtain rfl := Option.some.inj hbase'
  rcases hheld with hff | hzero | hfap
  · exact absurd (hff 0x00 (by simp [hraw])) (by decide)
  · exact absurd (hzero 0xff (by simp [hraw])) (by decide)
  · rw [hfour] at hfap
    exact absurd hfap (by decide)

end Uvk5.Apps
