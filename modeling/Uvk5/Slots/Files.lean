import Uvk5.Lib.Disk
import Uvk5.Lib.Text
import Uvk5.Slots.Apps

set_option relaxedAutoImplicit false
set_option autoImplicit false

/-!
# Editing flash images on disk (`tools/uvk5_slots.py`, `tools/uvk5_apps.py`)

An edit loads the image, changes it in memory, and writes it back whole. The edits of the firmware
slots then read the slot table again for their answer, and that may raise when the image has been
written already.

## Main definitions

* `Path` — a file of the upload directory, or of another one.
* `Slots.writeSlotFile`, `Slots.eraseSlotFile`, `Apps.installFile`, `Apps.eraseFile` — the edits.
* `Slots.slotsJson`, `Apps.appsJson` — the tables of the slots.

## Main results

* `Slots.editSlotFile_error` — an edit of a firmware slot that raises has written a longer image, or
  left the disk alone.
* `Apps.editAppFile_error` — an edit of an app slot that raises has left the disk alone.
-/

namespace Uvk5

open Bytes

/-- The path of a file. -/
inductive Path where
  /-- A file of the upload directory, by its name. -/
  | upload (name : String)
  /-- Another file. -/
  | other (path : String)
  deriving DecidableEq

/-- `path + ".tmp"`. -/
def Path.tmp : Path → Path
  | .upload name => .upload (name ++ ".tmp")
  | .other path => .other (path ++ ".tmp")

/-- The temporary file is another one. -/
lemma Path.tmp_ne (path : Path) : path.tmp ≠ path := by
  have hne : ∀ name : String, name ++ ".tmp" ≠ name := by
    intro name heq
    have hlength := congrArg String.length heq
    rw [String.length_append] at hlength
    exact absurd hlength (Nat.ne_of_gt (Nat.lt_add_of_pos_right (by decide)))
  cases path with
  | upload name => exact fun heq => hne name (Path.upload.inj heq)
  | other path => exact fun heq => hne path (Path.other.inj heq)

/-- `os.path.basename`. -/
def basename (s : String) : String := String.ofList (Text.rpartition '/' s.toList).2

/-- `os.path.basename(path)`. -/
def Path.name : Path → String
  | .upload name => name
  | .other path => basename path

/-- The exceptions of an edit. -/
inductive EditError where
  /-- A file cannot be read or written. -/
  | file (e : DiskError Path)
  /-- An exception of `uvk5_slots`. -/
  | slot (e : Slots.SlotError)
  /-- An exception of `uvk5_apps`. -/
  | app (e : Apps.AppError)
  /-- `IndexError`. -/
  | index
  deriving DecidableEq

/-- A function that returns on every element of a list. -/
lemma mapM_of_ok {α β ε : Type} {f : α → Except ε β} {l : List α}
    (h : ∀ a ∈ l, ∃ b, f a = .ok b) : ∃ bs, l.mapM f = .ok bs ∧ bs.length = l.length := by
  induction l with
  | nil => exact ⟨[], rfl, rfl⟩
  | cons a l ih =>
    obtain ⟨b, hb⟩ := h a (List.mem_cons_self ..)
    obtain ⟨bs, hbs, hlen⟩ := ih fun a' ha' => h a' (List.mem_cons_of_mem a ha')
    refine ⟨b :: bs, ?_, by rw [List.length_cons, List.length_cons, hlen]⟩
    rw [List.mapM_cons, hb, hbs]
    rfl

namespace Slots

/-- `load_image`. -/
def loadImage (path : Path) : Proc (Disk Path) EditError (List UInt8) :=
  (Disk.read path).mapError .file

/-- `save_image`: a temporary file takes the place of the image. -/
def saveImage (path : Path) (buf : List UInt8) : Proc (Disk Path) EditError Unit := do
  (Disk.write path.tmp buf).mapError .file
  (Disk.rename path.tmp path).mapError .file

/-- A row of `slots_json`, with the header if the slot is not empty. -/
structure SlotRow where
  /-- `slot`. -/
  slot : ℕ
  /-- `base`. -/
  base : ℕ
  /-- The fields of the header. -/
  header : Option SlotHeader
  deriving DecidableEq

/-- The dictionary `slots_json` returns. -/
structure SlotTable where
  /-- `image`. -/
  image : Path
  /-- `name`. -/
  name : String
  /-- `size`. -/
  size : ℕ
  /-- `slots`. -/
  slots : List SlotRow
  deriving DecidableEq

/-- `l[i]`, counted from the end if the index is negative. -/
def item {α : Type} (l : List α) (i : ℤ) : Option α :=
  if 0 ≤ i then l[i.toNat]?
  else if -(l.length : ℤ) ≤ i then l[(l.length + i).toNat]?
  else none

/-- One row of `slots_json`. -/
def slotRow (buf : List UInt8) (slot : ℕ) : Except SlotError SlotRow := do
  let read ← readSlot buf slot
  match slotBase slot with
  | none => .error (.outOfRange slot)
  | some base => .ok ⟨slot, base, read.map Prod.fst⟩

/-- `slots_json`. -/
def slotsJson (path : Path) : Proc (Disk Path) EditError SlotTable := do
  let buf ← loadImage path
  let slots ← (Proc.ofExcept ((List.range slotCount).mapM (slotRow buf))).mapError .slot
  pure ⟨path, path.name, buf.length, slots⟩

/-- An edit of a firmware slot in a file: load, edit, save, and the row of the slot. -/
def editSlotFile (edit : Proc (List UInt8) SlotError Unit) (path : Path) (slot : ℤ) :
    Proc (Disk Path) EditError SlotRow := do
  let buf ← loadImage path
  let edited ← (Proc.onLocal edit buf).mapError .slot
  saveImage path edited.2
  let table ← slotsJson path
  Proc.getOrRaise .index (item table.slots slot)

/-- The edit gets as far as saving the image. -/
def Saves (edit : Proc (List UInt8) SlotError Unit) (path : Path) (d : Disk Path) : Prop :=
  ∃ buf, d.contents path = some buf ∧ (edit buf).1 = .ok () ∧ d.writable path.tmp = true

/-- The edit never makes an image shorter, and longer if it ends before the state records do. -/
def Lengthens (edit : Proc (List UInt8) SlotError Unit) : Prop :=
  ∀ buf, (edit buf).1 = .ok () → buf.length ≤ (edit buf).2.length ∧
    ((edit buf).2.length = buf.length → stateBBase + stateSize ≤ buf.length)

/-- What `write_slot_file` does to the image. -/
def writeEdit (slot : ℤ) (image : List UInt8) (name fwVersion : String) (eraseStateSectors : Bool) :
    Proc (List UInt8) SlotError Unit := do
  writeSlot slot image name fwVersion
  Proc.onlyIf eraseStateSectors eraseState

/-- What `erase_slot_file` does to the image. -/
def eraseEdit (slot : ℤ) : Proc (List UInt8) SlotError Unit := do
  eraseSlot slot
  eraseState

/-- `write_slot_file`. -/
def writeSlotFile (path : Path) (slot : ℤ) (image : List UInt8) (name fwVersion : String)
    (eraseStateSectors : Bool) : Proc (Disk Path) EditError SlotRow :=
  editSlotFile (writeEdit slot image name fwVersion eraseStateSectors) path slot

/-- `erase_slot_file`. -/
def eraseSlotFile (path : Path) (slot : ℤ) : Proc (Disk Path) EditError SlotRow :=
  editSlotFile (eraseEdit slot) path slot

/-! ## An edit that raises -/

/-- An image that is there is read. -/
lemma loadImage_of_some {path : Path} {d : Disk Path} {buf : List UInt8}
    (h : d.contents path = some buf) : loadImage path d = (.ok buf, d) :=
  Proc.mapError_of_ok (Disk.read_of_some h)

/-- A slot that exists. -/
lemma slotBase_of_lt {slot : ℕ} (hslot : slot < slotCount) :
    slotBase slot = some (slotBackupBase + (slot : ℤ).toNat * slotStride) :=
  slotBase_of_range (Int.natCast_nonneg slot) (Int.ofNat_lt.mpr hslot)

/-- An index that is not negative. -/
lemma item_natCast {α : Type} (l : List α) (i : ℕ) : item l i = l[i]? := by
  rw [item, if_pos (Int.natCast_nonneg i), Int.toNat_natCast]

/-- Every slot is read back when the image holds all the headers. -/
lemma slotRow_of_length {buf : List UInt8} {slot : ℕ} (hslot : slot < slotCount)
    (h : 0xA0010 ≤ buf.length) : ∃ row, slotRow buf slot = .ok row := by
  have hbase := slotBase_of_lt hslot
  have hread : ∃ r, readSlot buf slot = .ok r := by
    rw [readSlot, hbase]
    dsimp only
    rw [if_neg]
    · split
      · exact ⟨_, rfl⟩
      · exact ⟨_, rfl⟩
    · simp only [slotBackupBase, slotStride, slotCount, Int.toNat_natCast] at *
      omega
  obtain ⟨r, hread⟩ := hread
  refine ⟨⟨slot, slotBackupBase + (slot : ℤ).toNat * slotStride, r.map Prod.fst⟩, ?_⟩
  rw [slotRow, hread, hbase]
  rfl

/-- The disk after an image was saved. -/
def saved (path : Path) (buf : List UInt8) (d : Disk Path) : Disk Path :=
  ((d.put path.tmp (some buf)).put path.tmp none).put path (some buf)

/-- An image is saved through its temporary file. -/
lemma saveImage_of_writable {path : Path} {buf : List UInt8} {d : Disk Path}
    (h : d.writable path.tmp = true) : saveImage path buf d = (.ok (), saved path buf d) := by
  rw [saveImage, Proc.bind_of_ok (Proc.mapError_of_ok (Disk.write_of_writable h)),
    Proc.mapError_of_ok (Disk.rename_of_some Disk.put_contents_self)]
  rfl

/-- An image whose temporary file cannot be written is not saved. -/
lemma saveImage_of_not_writable {path : Path} {buf : List UInt8} {d : Disk Path}
    (h : d.writable path.tmp = false) :
    saveImage path buf d = (.error (.file (.notWritable path.tmp)), d) :=
  Proc.bind_of_error (Proc.mapError_of_error (Disk.write_of_not_writable h))

/-- An image that was saved is there. -/
lemma saved_contents (path : Path) (buf : List UInt8) (d : Disk Path) :
    (saved path buf d).contents path = some buf := Disk.put_contents_self

/-- Reading the table changes nothing. -/
lemma slotsJson_snd (path : Path) (d : Disk Path) : (slotsJson path d).2 = d := by
  have hkeeps : Proc.Keeps (· = d) (slotsJson path) := by
    refine Proc.Keeps.bind ?_ fun buf => Proc.Keeps.bind ?_ fun slots => Proc.Keeps.pure
    · rintro _ rfl
      rw [loadImage, Proc.mapError_snd, Disk.read]
      split <;> rfl
    · rintro _ rfl
      rw [Proc.mapError_snd]
      rfl
  exact hkeeps d rfl

/-- The table of an image that holds all the headers. -/
lemma slotsJson_of_length {path : Path} {d : Disk Path} {buf : List UInt8}
    (hbuf : d.contents path = some buf) (h : 0xA0010 ≤ buf.length) :
    ∃ table, slotsJson path d = (.ok table, d) ∧ table.slots.length = slotCount := by
  obtain ⟨rows, hrows, hlen⟩ := mapM_of_ok (l := List.range slotCount) fun slot hslot =>
    slotRow_of_length (List.mem_range.mp hslot) h
  refine ⟨⟨path, path.name, buf.length, rows⟩, ?_, by rw [hlen, List.length_range]⟩
  rw [slotsJson, Proc.bind_of_ok (loadImage_of_some hbuf),
    Proc.bind_of_ok (Proc.mapError_of_ok (Proc.ofExcept_eq hrows))]
  rfl

/-- An edit of a firmware slot touches only the image and its temporary file. -/
lemma keeps_editSlotFile {paths : List Path} {d₀ : Disk Path} {path : Path}
    (hpath : path ∈ paths) (htmp : path.tmp ∈ paths) (edit : Proc (List UInt8) SlotError Unit)
    (slot : ℤ) : Proc.Keeps (Disk.SameOutside paths d₀) (editSlotFile edit path slot) := by
  have hlocal : ∀ buf, Proc.Keeps (Disk.SameOutside paths d₀)
      ((Proc.onLocal edit buf).mapError EditError.slot) :=
    fun buf => Proc.Keeps.onLocal.mapError _
  have hsave : ∀ buf, Proc.Keeps (Disk.SameOutside paths d₀) (saveImage path buf) :=
    fun buf => ((Disk.keeps_write htmp).mapError _).bind fun _ =>
      (Disk.keeps_rename htmp hpath).mapError _
  have htable : Proc.Keeps (Disk.SameOutside paths d₀) (slotsJson path) := by
    intro d h
    rwa [slotsJson_snd]
  exact (Disk.keeps_read.mapError _).bind fun buf => (hlocal buf).bind fun edited =>
    (hsave edited.2).bind fun _ => htable.bind fun _ => Proc.Keeps.getOrRaise

section EditSlotFile

variable {edit : Proc (List UInt8) SlotError Unit} {path : Path} {d : Disk Path}

/-- An edit comes to saving if it fits, and the files are there and can be written. -/
lemma saves_iff {fits : Prop} (hfits : ∀ buf, (edit buf).1 = .ok () ↔ fits) :
    Saves edit path d ↔ fits ∧ d.contents path ≠ none ∧ d.writable path.tmp = true := by
  constructor
  · rintro ⟨buf, hbuf, hedit, hwritable⟩
    exact ⟨(hfits buf).mp hedit, by rw [hbuf]; exact nofun, hwritable⟩
  · rintro ⟨h, hread, hwritable⟩
    obtain ⟨buf, hbuf⟩ := Option.ne_none_iff_exists'.mp hread
    exact ⟨buf, hbuf, (hfits buf).mpr h, hwritable⟩

/-- An edit that does not come to saving raises, and leaves the disk alone. -/
lemma editSlotFile_of_not_saves (slot : ℤ) (h : ¬ Saves edit path d) :
    ∃ e, editSlotFile edit path slot d = (.error e, d) := by
  cases hbuf : d.contents path with
  | none => exact ⟨_, Proc.bind_of_error (Proc.mapError_of_error (Disk.read_of_none hbuf))⟩
  | some buf =>
    rw [editSlotFile, Proc.bind_of_ok (loadImage_of_some hbuf)]
    cases hedit : edit buf with
    | mk r buf' =>
      cases r with
      | error e =>
        exact ⟨_, Proc.bind_of_error
          (Proc.mapError_of_error (Proc.onLocal_of_error (by rw [hedit])))⟩
      | ok u =>
        rw [Proc.bind_of_ok (Proc.mapError_of_ok (Proc.onLocal_of_ok hedit))]
        cases hwritable : d.writable path.tmp with
        | false => exact ⟨_, Proc.bind_of_error (saveImage_of_not_writable hwritable)⟩
        | true => exact absurd ⟨buf, hbuf, by rw [hedit], hwritable⟩ h

/-- An edit that comes to saving leaves the edited image, and then raises only if the image is too
short to hold all the headers. -/
lemma editSlotFile_of_saves (slot : ℤ) {buf : List UInt8} (hbuf : d.contents path = some buf)
    (hedit : (edit buf).1 = .ok ()) (hwritable : d.writable path.tmp = true) :
    (editSlotFile edit path slot d).2 = saved path (edit buf).2 d ∧
      (0 ≤ slot → slot < slotCount → 0xA0010 ≤ (edit buf).2.length →
        ∃ row, (editSlotFile edit path slot d).1 = .ok row) := by
  have hrun : editSlotFile edit path slot d = (do
      let table ← slotsJson path
      Proc.getOrRaise .index (item table.slots slot) : Proc (Disk Path) EditError SlotRow)
        (saved path (edit buf).2 d) := by
    have hedit' : edit buf = (.ok (), (edit buf).2) := by rw [← hedit]
    rw [editSlotFile, Proc.bind_of_ok (loadImage_of_some hbuf),
      Proc.bind_of_ok (Proc.mapError_of_ok (Proc.onLocal_of_ok hedit')),
      Proc.bind_of_ok (saveImage_of_writable hwritable)]
  constructor
  · have hkeeps : Proc.Keeps (· = saved path (edit buf).2 d) (do
        let table ← slotsJson path
        Proc.getOrRaise .index (item table.slots slot) : Proc (Disk Path) EditError SlotRow) := by
      refine Proc.Keeps.bind ?_ fun table => Proc.Keeps.getOrRaise
      rintro _ rfl
      exact slotsJson_snd path _
    rw [hrun]
    exact hkeeps _ rfl
  · intro hnonneg hslot hlen
    obtain ⟨slot, rfl⟩ := Int.eq_ofNat_of_zero_le hnonneg
    rw [Int.ofNat_lt] at hslot
    obtain ⟨table, htable, hrows⟩ := slotsJson_of_length (saved_contents path (edit buf).2 d) hlen
    refine ⟨table.slots[slot], ?_⟩
    rw [hrun, Proc.bind_of_ok htable, item_natCast, List.getElem?_eq_getElem (by omega)]
    rfl

/-- **An edit of a firmware slot that raises** has changed the image exactly when it came to saving,
provided the edit makes a short image longer. -/
theorem editSlotFile_error {slot : ℕ} (hslot : slot < slotCount)
    (hgrows : Lengthens edit) {e : EditError} (h : (editSlotFile edit path slot d).1 = .error e) :
    (editSlotFile edit path slot d).2.contents path = d.contents path ↔ ¬ Saves edit path d := by
  constructor
  · rintro hsame ⟨buf, hbuf, hedit, hwritable⟩
    obtain ⟨hstate, hok⟩ := editSlotFile_of_saves slot hbuf hedit hwritable
    have hshort : (edit buf).2.length < 0xA0010 := by
      by_contra hlong
      obtain ⟨row, hrow⟩ := hok (Int.natCast_nonneg slot) (Int.ofNat_lt.mpr hslot)
        (Nat.not_lt.mp hlong)
      rw [hrow] at h
      cases h
    have hlong := (hgrows buf hedit).2
    rw [hstate, saved_contents, hbuf] at hsame
    rw [Option.some.inj hsame] at hlong hshort
    have hfits := hlong rfl
    rw [stateBBase, stateSize] at hfits
    omega
  · intro hnot
    obtain ⟨e', hrun⟩ := editSlotFile_of_not_saves slot hnot
    rw [hrun]

end EditSlotFile

/-! ## The edits of the firmware slots -/

/-- Erasing the state records of an image that ends before they do makes it longer. -/
lemma lengthens_eraseState : Lengthens eraseState := by
  intro buf _
  have hstate : (eraseState buf).2 = assign
      (assign buf stateABase (stateABase + stateSize) (List.replicate stateSize 0xff))
      stateBBase (stateBBase + stateSize) (List.replicate stateSize 0xff) := rfl
  rw [hstate, length_assign (Nat.le_add_right ..), length_assign (Nat.le_add_right ..),
    List.length_replicate]
  simp only [stateABase, stateBBase, stateSize]
  omega

/-- An edit that does not make an image shorter, and then erases the state records. -/
lemma Lengthens.of_eraseState {edit : Proc (List UInt8) SlotError Unit}
    (h : ∀ buf, (edit buf).1 = .ok () →
      ∃ buf', buf.length ≤ buf'.length ∧ (edit buf).2 = (eraseState buf').2) : Lengthens edit := by
  intro buf hok
  obtain ⟨buf', hle, hstate⟩ := h buf hok
  obtain ⟨hle', hlong⟩ := lengthens_eraseState buf' rfl
  rw [hstate]
  refine ⟨Nat.le_trans hle hle', fun hsame => ?_⟩
  have hfits := hlong (by omega)
  omega

section Edits

variable {image : List UInt8} {name fwVersion : String} {buf : List UInt8}

/-- A slot that is written in an image of any length, and the state records erased. -/
lemma writeEdit_run {slot : ℤ} {base : ℕ} {header : List UInt8} (hbase : slotBase slot = some base)
    (hheader : buildHeader image name fwVersion = some header) :
    writeEdit slot image name fwVersion true buf =
      eraseState (assign (assign buf base (base + slotHeaderSize) header) (base + slotImageOffset)
        (base + slotImageOffset + image.length) image) := by
  rw [writeEdit, writeSlot, hbase, hheader]
  rfl

/-- An image is written exactly if the slot exists and the image fits it. -/
lemma writeEdit_ok_iff {slot : ℤ} :
    (writeEdit slot image name fwVersion true buf).1 = .ok () ↔
      slotBase slot ≠ none ∧ image.length ≤ slotStride - slotImageOffset := by
  cases hbase : slotBase slot with
  | none =>
    rw [writeEdit, writeSlot, hbase]
    exact iff_of_false (fun h => by cases h) fun h => h.1 rfl
  | some base =>
    cases hheader : buildHeader image name fwVersion with
    | none =>
      rw [writeEdit, writeSlot, hbase, hheader]
      have hlong := buildHeader_eq_none_iff.mp hheader
      exact iff_of_false (fun h => by cases h) fun h => absurd h.2 (Nat.not_le.mpr hlong)
    | some header =>
      have hfits := length_of_buildHeader hheader
      rw [writeEdit_run hbase hheader]
      exact iff_of_true rfl ⟨Option.some_ne_none _, by omega⟩

/-- Writing a slot makes a short image longer. -/
lemma lengthens_writeEdit {slot : ℤ} : Lengthens (writeEdit slot image name fwVersion true) := by
  refine Lengthens.of_eraseState fun buf hok => ?_
  cases hbase : slotBase slot with
  | none =>
    rw [writeEdit, writeSlot, hbase] at hok
    cases hok
  | some base =>
    cases hheader : buildHeader image name fwVersion with
    | none =>
      rw [writeEdit, writeSlot, hbase, hheader] at hok
      cases hok
    | some header =>
      rw [writeEdit_run hbase hheader]
      have hlaid : buf.length ≤ (assign buf base (base + slotHeaderSize) header).length :=
        le_length_assign (length_buildHeader hheader)
      exact ⟨_, Nat.le_trans hlaid (le_length_assign rfl), rfl⟩

/-- A slot that is erased in an image of any length, and the state records erased. -/
lemma eraseEdit_run {slot : ℤ} {base : ℕ} (hbase : slotBase slot = some base) :
    eraseEdit slot buf =
      eraseState (assign buf base (base + slotStride) (List.replicate slotStride 0xff)) := by
  rw [eraseEdit, eraseSlot, hbase]
  rfl

/-- A slot is erased exactly if it exists. -/
lemma eraseEdit_ok_iff {slot : ℤ} : (eraseEdit slot buf).1 = .ok () ↔ slotBase slot ≠ none := by
  cases hbase : slotBase slot with
  | none =>
    rw [eraseEdit, eraseSlot, hbase]
    exact iff_of_false (fun h => by cases h) fun h => h rfl
  | some base =>
    rw [eraseEdit_run hbase]
    exact iff_of_true rfl (Option.some_ne_none _)

/-- Erasing a slot makes a short image longer. -/
lemma lengthens_eraseEdit {slot : ℤ} : Lengthens (eraseEdit slot) := by
  refine Lengthens.of_eraseState fun buf hok => ?_
  cases hbase : slotBase slot with
  | none =>
    rw [eraseEdit, eraseSlot, hbase] at hok
    cases hok
  | some base =>
    rw [eraseEdit_run hbase]
    exact ⟨_, le_length_assign List.length_replicate, rfl⟩

end Edits

end Slots

namespace Apps

/-- `apps_json`: what each slot holds. -/
def appsJson (path : Path) : Proc (Disk Path) EditError (List (Option SlotInfo)) := do
  let image ← (Disk.read path).mapError .file
  (Proc.ofExcept ((List.range slotCount).mapM fun slot : ℕ => readSlot image slot)).mapError .app

/-- An edit of an app slot in a file: load, edit, and write. -/
def editAppFile {α : Type} (edit : Proc (List UInt8) AppError α) (path : Path) :
    Proc (Disk Path) EditError α := do
  let image ← (Disk.read path).mapError .file
  let edited ← (Proc.onLocal edit image).mapError .app
  (Disk.write path edited.2).mapError .file
  pure edited.1

/-- `install_file`. -/
def installFile (path : Path) (slot : ℕ) (blob : List UInt8) (force : Bool) :
    Proc (Disk Path) EditError AppInfo :=
  editAppFile (install slot blob force) path

/-- `erase_file`. -/
def eraseFile (path : Path) (slot : ℕ) : Proc (Disk Path) EditError ℕ :=
  editAppFile (erase slot) path

/-- The table of an image that can be read. -/
lemma appsJson_of_some {path : Path} {d : Disk Path} {image : List UInt8}
    (h : d.contents path = some image) : ∃ apps, appsJson path d = (.ok apps, d) := by
  have hread : ∀ slot ∈ List.range slotCount, ∃ held, readSlot image slot = .ok held := by
    intro slot hslot
    have hbase : slotBase slot = some (regionBase + (slot : ℤ).toNat * slotStride) := by
      rw [slotBase, if_pos ⟨Int.natCast_nonneg slot, Int.ofNat_lt.mpr (List.mem_range.mp hslot)⟩]
    rw [readSlot, hbase]
    dsimp only
    split
    · exact ⟨_, rfl⟩
    split
    · exact ⟨_, rfl⟩
    split
    · exact ⟨_, rfl⟩
    split
    · exact ⟨_, rfl⟩
    · exact ⟨_, rfl⟩
  obtain ⟨apps, happs, -⟩ := mapM_of_ok hread
  refine ⟨apps, ?_⟩
  rw [appsJson, Proc.bind_of_ok (Proc.mapError_of_ok (Disk.read_of_some h)),
    Proc.mapError_of_ok (Proc.ofExcept_eq happs)]

/-- Reading the table changes nothing. -/
lemma appsJson_snd (path : Path) (d : Disk Path) : (appsJson path d).2 = d := by
  have hkeeps : Proc.Keeps (· = d) (appsJson path) := by
    refine Proc.Keeps.bind ?_ fun image => ?_
    · rintro _ rfl
      rw [Proc.mapError_snd, Disk.read]
      split <;> rfl
    · rintro _ rfl
      rw [Proc.mapError_snd]
      rfl
  exact hkeeps d rfl

/-- An edit of an app slot touches only the image. -/
lemma keeps_editAppFile {α : Type} {paths : List Path} {d₀ : Disk Path} {path : Path}
    (hpath : path ∈ paths) (edit : Proc (List UInt8) AppError α) :
    Proc.Keeps (Disk.SameOutside paths d₀) (editAppFile edit path) :=
  (Disk.keeps_read.mapError _).bind fun _ => (Proc.Keeps.onLocal.mapError _).bind fun _ =>
    ((Disk.keeps_write hpath).mapError _).bind fun _ => Proc.Keeps.pure

/-! ## An edit that returns, and one that raises -/

/-- An edit that returns has written the image. -/
lemma editAppFile_ok {α : Type} {edit : Proc (List UInt8) AppError α} {path : Path}
    {d d' : Disk Path} {a : α} (h : editAppFile edit path d = (.ok a, d')) :
    ∃ image, d'.contents path = some image := by
  rw [editAppFile, Proc.bind_eq_ok] at h
  obtain ⟨image, d₁, -, h⟩ := h
  rw [Proc.bind_eq_ok] at h
  obtain ⟨edited, d₂, -, h⟩ := h
  rw [Proc.bind_eq_ok] at h
  obtain ⟨⟨⟩, d₃, hwrite, h⟩ := h
  obtain rfl : d₃ = d' := (Prod.mk.inj h).2
  cases hwritable : d₂.writable path with
  | false =>
    rw [Proc.mapError_of_error (Disk.write_of_not_writable hwritable)] at hwrite
    cases hwrite
  | true =>
    rw [Proc.mapError_of_ok (Disk.write_of_writable hwritable)] at hwrite
    refine ⟨edited.2, ?_⟩
    rw [← (Prod.mk.inj hwrite).2]
    exact Disk.put_contents_self

/-- **An edit of an app slot that raises** has left the disk alone. -/
theorem editAppFile_error {α : Type} {edit : Proc (List UInt8) AppError α} {path : Path}
    {d : Disk Path} {e : EditError} (h : (editAppFile edit path d).1 = .error e) :
    (editAppFile edit path d).2 = d := by
  cases himage : d.contents path with
  | none =>
    rw [editAppFile, Proc.bind_of_error (Proc.mapError_of_error (Disk.read_of_none himage))]
  | some image =>
    rw [editAppFile, Proc.bind_of_ok (Proc.mapError_of_ok (Disk.read_of_some himage))] at h ⊢
    cases hedit : edit image with
    | mk r image' =>
      cases r with
      | error e =>
        rw [Proc.bind_of_error (Proc.mapError_of_error (Proc.onLocal_of_error (by rw [hedit])))]
      | ok a =>
        rw [Proc.bind_of_ok (Proc.mapError_of_ok (Proc.onLocal_of_ok hedit))] at h ⊢
        cases hwritable : d.writable path with
        | false =>
          rw [Proc.bind_of_error (Proc.mapError_of_error (Disk.write_of_not_writable hwritable))]
        | true =>
          rw [Proc.bind_of_ok (Proc.mapError_of_ok (Disk.write_of_writable hwritable))] at h
          cases h

end Apps

end Uvk5
