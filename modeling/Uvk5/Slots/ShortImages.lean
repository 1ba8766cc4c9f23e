import Uvk5.Slots.Files
import Uvk5.Slots.Law

set_option relaxedAutoImplicit false
set_option autoImplicit false

/-!
# Edits of flash images of any length (`tools/uvk5_slots.py`)

An edit assigns to slices of the image. A slice that reaches past the end makes the image longer, so
an edit of an image that ends before the state records do appends to it.

## Main definitions

* `Slots.EditsSafely` — an edit of a file that raises and leaves it alone, or does what it should.

## Main results

* `Slots.slotFiles_safe_iff` — the images that the edits of the firmware slots are safe for.
-/

namespace Uvk5.Slots

open Bytes

/-- The edit raises and leaves the file alone, or keeps its length, leaves the slot `Good`, and
changes no byte outside the slot and the state records. -/
def EditsSafely (edit : Proc (Disk Path) EditError SlotRow) (path : Path) (slot : ℤ)
    (Good : ℕ → List UInt8 → Prop) (d : Disk Path) : Prop :=
  match edit d with
  | (.error _, d') => d'.contents path = d.contents path
  | (.ok _, d') => ∃ base buf buf', slotBase slot = some base ∧ d.contents path = some buf ∧
      d'.contents path = some buf' ∧ buf'.length = buf.length ∧ Good base buf' ∧
      ∀ i, ¬ (Target.firmware slot).Region i → ¬ Target.state.Region i → buf'[i]? = buf[i]?

/-- The slot holds the header and the image. -/
def HoldsImage (image : List UInt8) (name fwVersion : String) (base : ℕ)
    (buf : List UInt8) : Prop :=
  buildHeader image name fwVersion = some (slice buf base (base + slotHeaderSize)) ∧
    slice buf (base + slotImageOffset) (base + slotImageOffset + image.length) = image

/-- The slot is erased. -/
def HoldsNothing (base : ℕ) (buf : List UInt8) : Prop :=
  slice buf base (base + slotStride) = List.replicate slotStride 0xff

section Edit

variable {edit : Proc (List UInt8) SlotError Unit} {path : Path} {d : Disk Path}

/-- An edit that does not come to saving is safe. -/
lemma safe_of_not_saves {slot : ℤ} {Good : ℕ → List UInt8 → Prop} (h : ¬ Saves edit path d) :
    EditsSafely (editSlotFile edit path slot) path slot Good d := by
  obtain ⟨e, hrun⟩ := editSlotFile_of_not_saves slot h
  rw [EditsSafely, hrun]

/-- An edit that comes to saving is not safe if it changes the length of the image. -/
lemma not_safe_of_length {slot : ℤ} {Good : ℕ → List UInt8 → Prop} {buf : List UInt8}
    (hbuf : d.contents path = some buf) (hedit : (edit buf).1 = .ok ())
    (hwritable : d.writable path.tmp = true) (hlen : (edit buf).2.length ≠ buf.length) :
    ¬ EditsSafely (editSlotFile edit path slot) path slot Good d := by
  obtain ⟨hstate, -⟩ := editSlotFile_of_saves slot hbuf hedit hwritable
  have hcontents := saved_contents path (edit buf).2 d
  rw [← hstate] at hcontents
  intro hsafe
  rw [EditsSafely] at hsafe
  cases hrun : editSlotFile edit path slot d with
  | mk r d' =>
    rw [hrun] at hcontents hsafe
    cases r with
    | error e =>
      rw [show d'.contents path = d.contents path from hsafe, hbuf] at hcontents
      exact hlen (congrArg List.length (Option.some.inj hcontents).symm)
    | ok row =>
      obtain ⟨base, before, after, -, hbefore, hafter, hsame, -⟩ := hsafe
      rw [hbuf] at hbefore
      rw [show d'.contents path = some (edit buf).2 from hcontents] at hafter
      obtain rfl := Option.some.inj hbefore
      obtain rfl := Option.some.inj hafter
      exact hlen hsame

/-- An edit that comes to saving is safe if it lays down bytes inside the slot and the records. -/
lemma safe_of_overlay {slot : ℤ} {base : ℕ} {Good : ℕ → List UInt8 → Prop} {buf : List UInt8}
    {p : ℕ → Option UInt8} (hbase : slotBase slot = some base) (hbuf : d.contents path = some buf)
    (hedit : edit buf = (.ok (), overlay p buf)) (hwritable : d.writable path.tmp = true)
    (hlen : stateBBase + stateSize ≤ buf.length) (hgood : Good base (overlay p buf))
    (hinside : ∀ i, ¬ (Target.firmware slot).Region i → ¬ Target.state.Region i → p i = none) :
    EditsSafely (editSlotFile edit path slot) path slot Good d := by
  obtain ⟨h0, h5, -⟩ := slotBase_eq_some hbase
  have hedit' : (edit buf).1 = .ok () := by rw [hedit]
  obtain ⟨hstate, hok⟩ := editSlotFile_of_saves slot hbuf hedit' hwritable
  obtain ⟨row, hrow⟩ := hok h0 h5 (by
    rw [hedit, length_overlay]
    exact Nat.le_trans (by decide) hlen)
  have hrun : editSlotFile edit path slot d = (.ok row, saved path (overlay p buf) d) := by
    rw [hedit] at hstate
    exact Prod.ext hrow hstate
  rw [EditsSafely, hrun]
  exact ⟨base, buf, overlay p buf, hbase, hbuf, saved_contents .., length_overlay .., hgood,
    fun i hslot hrecords => getElem?_overlay_of_none buf (hinside i hslot hrecords)⟩

/-- The images that an edit is safe for, if it lays down bytes inside the slot and the records of an
image that is long enough. -/
lemma safe_iff {slot : ℤ} {Good : ℕ → List UInt8 → Prop} {fits : Prop}
    (hfits : ∀ buf, (edit buf).1 = .ok () ↔ fits) (hgrows : Lengthens edit)
    (hgood : fits → ∀ buf, stateBBase + stateSize ≤ buf.length → ∃ base p,
      slotBase slot = some base ∧ edit buf = (.ok (), overlay p buf) ∧ Good base (overlay p buf) ∧
        ∀ i, ¬ (Target.firmware slot).Region i → ¬ Target.state.Region i → p i = none) :
    EditsSafely (editSlotFile edit path slot) path slot Good d ↔
      ¬ fits ∨ d.writable path.tmp = false ∨
        ∀ buf, d.contents path = some buf → stateBBase + stateSize ≤ buf.length := by
  by_cases hsaves : Saves edit path d
  · obtain ⟨buf, hbuf, hedit, hwritable⟩ := hsaves
    have hfit := (hfits buf).mp hedit
    constructor
    · intro hsafe
      refine .inr (.inr fun buf' hbuf' => ?_)
      rw [hbuf] at hbuf'
      obtain rfl := Option.some.inj hbuf'
      by_contra hshort
      refine not_safe_of_length hbuf hedit hwritable (fun hsame => ?_) hsafe
      exact hshort ((hgrows buf hedit).2 hsame)
    · rintro (hnot | hnot | hlong)
      · exact absurd hfit hnot
      · rw [hwritable] at hnot
        cases hnot
      · have hlen := hlong buf hbuf
        obtain ⟨base, p, hbase, hrun, hheld, hinside⟩ := hgood hfit buf hlen
        exact safe_of_overlay hbase hbuf hrun hwritable hlen hheld hinside
  · refine iff_of_true (safe_of_not_saves hsaves) ?_
    rw [saves_iff hfits] at hsaves
    by_contra hnot
    push Not at hnot
    obtain ⟨hfit, hwritable, buf, hbuf, -⟩ := hnot
    exact hsaves ⟨hfit, by rw [hbuf]; exact nofun, by simpa using hwritable⟩

end Edit

/-! ## The two edits -/

section Edits

variable {slot : ℤ} {base : ℕ} {buf : List UInt8}

/-- The state records are erased where they are. -/
lemma stateErased_eq_none {i : ℕ} (h : ¬ Target.state.Region i) : stateErased i = none :=
  Op.patch_eq_none (show ¬ Op.eraseState.target.Region i from h)

/-- Writing a slot of an image that is long enough. -/
lemma writeEdit_eq {image header : List UInt8} {name fwVersion : String}
    (hbase : slotBase slot = some base) (hheader : buildHeader image name fwVersion = some header)
    (hlen : stateBBase + stateSize ≤ buf.length) :
    writeEdit slot image name fwVersion true buf =
      (.ok (), overlay (fun i => (stateErased i).or (written base header image i)) buf) := by
  rw [writeEdit, Proc.bind_of_ok (writeSlot_eq hbase hheader hlen), Proc.onlyIf, if_pos rfl,
    eraseState_eq (by rwa [length_overlay]), overlay_overlay]

/-- Erasing a slot of an image that is long enough. -/
lemma eraseEdit_eq (hbase : slotBase slot = some base)
    (hlen : stateBBase + stateSize ≤ buf.length) :
    eraseEdit slot buf = (.ok (), overlay (fun i => (stateErased i).or (erased base i)) buf) := by
  rw [eraseEdit, Proc.bind_of_ok (eraseSlot_eq hbase hlen), eraseState_eq (by rwa [length_overlay]),
    overlay_overlay]

/-- What is laid down inside a slot is there after the state records are erased. -/
lemma carries_or_stateErased {p : ℕ → Option UInt8}
    (hp : ∀ i, ¬ (Target.firmware slot).Region i → p i = none)
    (hlen : stateBBase + stateSize ≤ buf.length) :
    Carries (overlay (fun i => (stateErased i).or (p i)) buf) p := by
  have hin : ∀ i, p i ≠ none → (Target.firmware slot).Region i := by
    intro i hi
    by_contra hout
    exact hi (hp i hout)
  intro i a hi
  have hregion := hin i (by rw [hi]; exact Option.some_ne_none a)
  have hrecords : stateErased i = none := by
    refine stateErased_eq_none fun hstate => ?_
    exact absurd (hregion.unique hstate) nofun
  obtain ⟨base, hbase, -, hhigh⟩ := hregion
  have hbounds := slotBase_bounds hbase
  rw [stateBBase, stateSize] at hlen
  rw [getElem?_overlay, hrecords, Option.none_or, hi, List.getElem?_eq_getElem (by omega)]
  rfl

end Edits

/-- **The images that the edits of the firmware slots are safe for**: those that reach to the end of
the second state record. An edit that does not come to saving is safe for every image; writing does
not if the slot does not exist, if the image does not fit it, or if the files cannot be read and
written, and erasing if the slot does not exist or the files cannot be read and written.

**Proof sketch.** Each slice is replaced by as many bytes, so the image never gets shorter, and it
keeps its length only if the last slice, that of the second record, lies inside it. Then every slice
does, and the table of the slots can be read again. -/
theorem slotFiles_safe_iff (path : Path) (slot : ℤ) (d : Disk Path) :
    (∀ image name fwVersion,
      EditsSafely (writeSlotFile path slot image name fwVersion true) path slot
          (HoldsImage image name fwVersion) d ↔
        slotBase slot = none ∨ slotStride - slotImageOffset < image.length ∨
          d.writable path.tmp = false ∨
          ∀ buf, d.contents path = some buf → stateBBase + stateSize ≤ buf.length) ∧
    (EditsSafely (eraseSlotFile path slot) path slot HoldsNothing d ↔
      slotBase slot = none ∨ d.writable path.tmp = false ∨
        ∀ buf, d.contents path = some buf → stateBBase + stateSize ≤ buf.length) := by
  constructor
  · intro image name fwVersion
    rw [writeSlotFile, safe_iff (fun buf => writeEdit_ok_iff) lengthens_writeEdit, not_and_or,
      not_not, Nat.not_le, or_assoc]
    rintro ⟨hslot, himage⟩ buf hlen
    obtain ⟨base, hbase⟩ := Option.ne_none_iff_exists'.mp hslot
    obtain ⟨header, hheader⟩ := Option.ne_none_iff_exists'.mp
      (mt buildHeader_eq_none_iff.mp (Nat.not_lt.mpr himage) :
        buildHeader image name fwVersion ≠ none)
    have hpatch : (Op.writeSlot slot image name fwVersion).patch = written base header image := by
      rw [Op.patch, hbase, hheader]
    have hwritten : ∀ i, ¬ (Target.firmware slot).Region i →
        written base header image i = none := by
      intro i hi
      rw [← hpatch]
      exact Op.patch_eq_none hi
    have hsize := length_buildHeader hheader
    have hcarries := carries_or_stateErased hwritten hlen
    obtain ⟨hhead, hbody⟩ := carries_written hsize hcarries
    refine ⟨base, _, hbase, writeEdit_eq hbase hheader hlen, ⟨?_, ?_⟩, fun i hi hrecords => ?_⟩
    · rw [slotHeaderSize, hhead.whole hsize, hheader]
    · exact hbody.whole rfl
    · rw [stateErased_eq_none hrecords, Option.none_or, hwritten i hi]
  · rw [eraseSlotFile, safe_iff (fun buf => eraseEdit_ok_iff) lengthens_eraseEdit, not_not]
    intro hslot buf hlen
    obtain ⟨base, hbase⟩ := Option.ne_none_iff_exists'.mp hslot
    have hpatch : (Op.eraseSlot slot).patch = erased base := by
      rw [Op.patch, hbase]
    have herased : ∀ i, ¬ (Target.firmware slot).Region i → erased base i = none := by
      intro i hi
      rw [← hpatch]
      exact Op.patch_eq_none hi
    have hcarries := carries_or_stateErased herased hlen
    refine ⟨base, _, hbase, eraseEdit_eq hbase hlen, ?_, fun i hi hrecords => ?_⟩
    · exact Carries.whole hcarries List.length_replicate
    · rw [stateErased_eq_none hrecords, Option.none_or, herased i hi]

/-- Erasing the first slot of an empty file appends to it. -/
lemma not_safe_of_empty {path : Path} {d : Disk Path} (hempty : d.contents path = some [])
    (hwritable : d.writable path.tmp = true) :
    ¬ EditsSafely (eraseSlotFile path 0) path 0 HoldsNothing d := by
  have herases : (eraseEdit 0 []).1 = .ok () :=
    eraseEdit_ok_iff.mpr (Option.some_ne_none slotBackupBase)
  refine not_safe_of_length hempty herases hwritable fun hsame => ?_
  have hlong := (lengthens_eraseEdit [] herases).2 hsame
  rw [stateBBase, stateSize, List.length_nil] at hlong
  omega

/-- The edits are not safe for every file. -/
theorem erase_appends : ¬ ∀ path slot d,
    (∀ image name fwVersion,
      EditsSafely (writeSlotFile path slot image name fwVersion true) path slot
        (HoldsImage image name fwVersion) d) ∧
    EditsSafely (eraseSlotFile path slot) path slot HoldsNothing d := by
  intro h
  obtain ⟨d, hempty, hwritable⟩ : ∃ d : Disk Path, d.contents (.other "flash.img") = some [] ∧
      d.writable (Path.other "flash.img").tmp = true :=
    ⟨⟨fun _ => some [], fun _ => true⟩, rfl, rfl⟩
  exact not_safe_of_empty hempty hwritable (h (.other "flash.img") 0 d).2

end Uvk5.Slots
