import Uvk5.Web.PowerCycle

set_option relaxedAutoImplicit false
set_option autoImplicit false

/-!
# Requests that are refused

A request that is answered with an error status should leave the radio as it was. A firmware is
saved in the upload directory before it is looked at, and an edit of the flash is refused between a
power-off and a power-on, so neither is true of every request. This file says of which ones it is.

## Main definitions

* `Web.Server.boots` — what a power-on boots.
* `Web.Server.flashBytes` — the bytes of the flash image a launch uses.
* `Web.Edit.saves` — an edit that comes to saving the image before it answers.

## Main results

* `Web.firmware_refused_iff` — when a firmware that is refused leaves what boots as it was.
* `Web.edit_refused_iff` — when an edit that is refused leaves the radio as it was.
-/

namespace Uvk5.Web

open Supervisor (Client Power Start Action)

/-! ## A firmware upload -/

/-- What a power-on boots, if an image is loaded: its path, its bytes, and the bytes of the flash
image. -/
def Server.boots (s : Server) : Option (Path × Option (List UInt8) × Option (Option (List UInt8))) :=
  s.image.map fun info => (info.path, s.disk.contents info.path, s.flash.map s.disk.contents)

/-- What a file holds after another was written. -/
lemma contents_put_eq_iff {d : Disk Path} {path path' : Path} {data : List UInt8} :
    (d.put path' (some data)).contents path = d.contents path ↔
      path ≠ path' ∨ d.contents path = some data := by
  by_cases h : path = path'
  · subst h
    rw [Disk.put_contents_self, eq_comm]
    exact ⟨.inr, fun hor => hor.resolve_left (not_not.mpr rfl)⟩
  · rw [Disk.put_contents_of_ne h]
    exact ⟨fun _ => .inl h, fun _ => rfl⟩

/-- `power_on` raises one answer only. -/
lemma powerOn_error {b : Bool} {start : Start} {response response' : Response} {s s' : Server}
    (h : Proc.onlyIf b ((powerOn start).mapError fun _ => response) s = (.error response', s')) :
    response' = response := by
  cases b with
  | false => cases h
  | true =>
    rw [Proc.onlyIf, if_pos rfl] at h
    cases hon : powerOn start s with
    | mk r s₁ =>
      cases r with
      | ok u =>
        rw [Proc.mapError_of_ok hon] at h
        cases h
      | error e =>
        rw [Proc.mapError_of_error hon] at h
        cases h
        rfl

/-- Loading a firmware is answered with 200 or 500. -/
lemma loadFirmware_status (info : ImageInfo) (start : Start) (s : Server) :
    (respond (loadFirmware info start) s).1.status ≠ 400 := by
  obtain ⟨s₁, hoff⟩ : ∃ s₁, (Proc.onlyIf s.isRunning powerOff : Proc Server Response Unit) s =
      (.ok (), s₁) := by
    cases s.isRunning with
    | false => exact ⟨_, rfl⟩
    | true => exact ⟨_, rfl⟩
  have hset : (Proc.modify fun s => { s with image := some info } : Proc Server Response Unit) s₁ =
      (.ok (), { s₁ with image := some info }) := rfl
  rw [respond, loadFirmware, Proc.get_bind, Proc.bind_of_ok hoff, Proc.bind_of_ok hset]
  cases hon : Proc.onlyIf s.isRunning ((powerOn start).mapError fun _ =>
      refusal 500 (.restartFailed info)) { s₁ with image := some info } with
  | mk r s₂ =>
    cases r with
    | error response =>
      rw [Proc.bind_of_error hon, powerOn_error hon]
      exact (by decide : (500 : ℕ) ≠ 400)
    | ok u =>
      rw [Proc.bind_of_ok hon]
      exact (by decide : (200 : ℕ) ≠ 400)

/-- A body that passes its check is not empty. -/
lemma checkBody_ne_nil {what : String} {data : List UInt8} (h : (checkBody what data).isOk = true) :
    data ≠ [] := by
  rintro rfl
  cases h

/-- What boots after a file was written. -/
lemma boots_put_iff {s : Server} {path : Path} {data : List UInt8} :
    ({ s with disk := s.disk.put path (some data) } : Server).boots = s.boots ↔
      ∀ info ∈ s.image, ∀ path', (path' = info.path ∨ path' ∈ s.flash) →
        path' ≠ path ∨ s.disk.contents path' = some data := by
  rw [Server.boots, Server.boots]
  cases s.image with
  | none => simp
  | some info =>
    cases s.flash with
    | none => simp [contents_put_eq_iff]
    | some flash => simp [contents_put_eq_iff]

/-- **A firmware that is refused** leaves what a power-on boots as it was exactly if there was no
body, or no image is loaded, or neither the loaded image nor the flash image is the file of that
name in the upload directory, unless the file already held the same bytes.

**Proof sketch.** With an empty body nothing is saved. Otherwise the status 400 says that the body
was saved, and found not to be an image; so it is what the file of that name now holds. -/
theorem firmware_refused_iff {arg header : Option String} {data : List UInt8} {start : Start}
    {s : Server} (h : (serve (.firmware arg header data) start s).1.status = 400) :
    (serve (.firmware arg header data) start s).2.boots = s.boots ↔
      data = [] ∨ ∀ info ∈ s.image, ∀ path, (path = info.path ∨ path ∈ s.flash) →
        path ≠ .upload (firmwareName arg header) ∨ s.disk.contents path = some data := by
  have hserve : serve (.firmware arg header data) start s =
      respond (apiFirmwareUpload arg header data start) s := rfl
  rw [hserve] at h ⊢
  cases hsaves : savesFirmware arg header data s with
  | false =>
    obtain ⟨response, hrun, hstatus⟩ := receiveFirmware_of_not_saves hsaves
    rw [respond, apiFirmwareUpload, Proc.bind_of_error hrun] at h ⊢
    exact ⟨fun _ => .inl (hstatus h), fun _ => rfl⟩
  | true =>
    have hrun := receiveFirmware_of_saves hsaves
    rw [savesFirmware, Bool.and_eq_true, Bool.and_eq_true, Bool.and_eq_true] at hsaves
    have hbody : data ≠ [] := checkBody_ne_nil hsaves.1.1.2
    cases hdetect : Image.detect (some data) with
    | error e =>
      rw [hdetect] at hrun
      rw [respond, apiFirmwareUpload, Proc.bind_of_error hrun]
      rw [boots_put_iff]
      exact ⟨.inr, fun hor => hor.resolve_left hbody⟩
    | ok shape =>
      rw [hdetect] at hrun
      rw [respond, apiFirmwareUpload, Proc.bind_of_ok hrun, ← respond] at h
      exact absurd h (loadFirmware_status _ start _)

/-- A server with an image and a flash that was edited before. -/
def edited : Server where
  supervised := true
  power := .initial
  pump := none
  imageControl := true
  image := some ⟨.other "fw.elf", ⟨.elf, 0x2800, 4, none⟩⟩
  flash := some work
  bootKey := none
  environ := ⟨none, none⟩
  uploadDir := true
  disk := ⟨fun path => if path = work then some [0xff] else none, fun _ => true⟩
  runs := fun _ => ⟨none, some work⟩

/-- A file that is not an image, under a name of its own. -/
theorem firmware_refused_other_name :
    (serve (.firmware (some "junk.bin") none [0]) .connected edited).1.status = 400 ∧
      (serve (.firmware (some "junk.bin") none [0]) .connected edited).2.boots = edited.boots := by
  have hstatus : (serve (.firmware (some "junk.bin") none [0]) .connected edited).1.status = 400 := by
    decide +kernel
  refine ⟨hstatus, (firmware_refused_iff hstatus).mpr (.inr ?_)⟩
  rintro info hinfo path (rfl | hpath)
  · cases hinfo
    exact .inl nofun
  · cases hpath
    exact .inl (by decide +kernel)

/-- A file that is not an image, under the name of the working copy: the flash is overwritten. -/
theorem firmware_overwrites_flash :
    ¬ ∀ arg header data start s, (serve (.firmware arg header data) start s).1.status = 400 →
      (serve (.firmware arg header data) start s).2.boots = s.boots := by
  intro h
  have hsame := h (some "flash-current.img") none [0] .connected edited (by decide +kernel)
  exact absurd hsame (by decide +kernel)

/-! ## An edit of the flash -/

/-- The bytes of the flash image a launch uses. -/
def Server.flashBytes (s : Server) : Option (List UInt8) := s.flash.bind s.disk.contents

/-- The flash image can be read, copied to the working file, and saved there. -/
def Server.editable (s : Server) : Bool :=
  s.flashBytes.isSome && (s.flash = some work || s.disk.writable work) && s.disk.writable work.tmp

/-- An edit that comes to saving the image before it answers. -/
def Edit.saves (s : Server) : Edit → Bool
  | .slotWrite _ data _ _ _ =>
    data.length ≤ Slots.slotStride - Slots.slotImageOffset && s.editable
  | .slotErase _ => s.editable
  | .appInstall .. => false
  | .appErase .. => false

section EditCopy

variable {α : Type} {edit : Path → Proc (Disk Path) EditError α} {flash : Path} {s : Server}

/-- A procedure on the disk is all that happens to the server. -/
lemma onDisk_eq {p : Proc (Disk Path) EditError α} :
    onDisk p s = ((p.mapError .edit s.disk).1, { s with disk := (p s.disk).2 }) := by
  rw [onDisk, Proc.zoom, Proc.mapError_snd]

/-- The working file holds the flash image. -/
structure Copied (path : Path) (s s' : Server) : Prop where
  /-- `flash.path`. -/
  flash : s'.flash = some work
  /-- The working file. -/
  contents : s'.disk.contents work = s.disk.contents path
  /-- Where the disk can be written. -/
  writable : s'.disk.writable = s.disk.writable
  /-- The supervisor. -/
  power : s'.power = s.power ∧ s'.supervised = s.supervised

variable (edit) in
/-- The image is copied, or cannot be.

**Proof sketch.** The image is the working file already and is not copied, or it is copied, which
needs a file to read and one that can be written. -/
lemma editCopy_cases (hflash : s.flash = some flash) :
    (∃ e, editCopy flash edit s = (.error (.edit e), s) ∧ flash ≠ work ∧
      (s.disk.contents flash = none ∨ s.disk.writable work = false)) ∨
    ∃ s', Copied flash s s' ∧ editCopy flash edit s = onDisk (edit work) s' ∧
      (flash = work ∨ s.disk.writable work = true) := by
  rw [editCopy]
  by_cases hwork : work = flash
  · refine .inr ⟨s, ⟨hwork ▸ hflash, by rw [hwork], rfl, rfl, rfl⟩, ?_, .inl hwork.symm⟩
    have hpure : Proc.onlyIf (work ≠ flash) (do
        onDisk ((Disk.copyfile flash work).mapError .file)
        Proc.modify fun s => { s with flash := some work }) s = (.ok (), s) := by
      rw [Proc.onlyIf, if_neg (by simpa using hwork)]
      rfl
    rw [Proc.bind_of_ok hpure]
  · rw [Proc.onlyIf, if_pos (decide_eq_true hwork)]
    by_cases hfails : s.disk.contents flash = none ∨ s.disk.writable work = false
    · obtain ⟨e, he⟩ := Disk.copyfile_error hfails
      refine .inl ⟨.file e, Proc.bind_of_error (Proc.bind_of_error ?_), Ne.symm hwork, hfails⟩
      rw [onDisk_eq, Proc.mapError_snd, he, Proc.mapError_of_error (Proc.mapError_of_error he)]
    · rw [not_or, Bool.not_eq_false] at hfails
      obtain ⟨data, hdata⟩ := Option.ne_none_iff_exists'.mp hfails.1
      have hcopy : onDisk ((Disk.copyfile flash work).mapError .file) s =
          (.ok (), { s with disk := s.disk.put work (some data) }) := by
        have hrun := Disk.copyfile_of_readable hdata hfails.2
        rw [onDisk_eq, Proc.mapError_snd, hrun, Proc.mapError_of_ok (Proc.mapError_of_ok hrun)]
      have hswitch : (do
          onDisk ((Disk.copyfile flash work).mapError .file)
          Proc.modify fun s => { s with flash := some work } : Proc Server Exc Unit) s =
          (.ok (), { s with disk := s.disk.put work (some data), flash := some work }) := by
        rw [Proc.bind_of_ok hcopy]
        rfl
      refine .inr ⟨{ s with disk := s.disk.put work (some data), flash := some work },
        ⟨rfl, ?_, rfl, rfl, rfl⟩, Proc.bind_of_ok hswitch, .inr hfails.2⟩
      rw [hdata]
      exact Disk.put_contents_self

/-- The flash image can be edited, for short. -/
lemma editable_iff (hflash : s.flash = some flash) :
    s.editable = true ↔ s.disk.contents flash ≠ none ∧
      (flash = work ∨ s.disk.writable work = true) ∧ s.disk.writable work.tmp = true := by
  rw [Server.editable, Server.flashBytes, hflash, Bool.and_eq_true, Bool.and_eq_true, and_assoc,
    Bool.or_eq_true, decide_eq_true_eq, Option.some.injEq, Option.bind_some,
    Option.isSome_iff_ne_none]

/-- An edit raises without changing the image unless it comes to saving it. -/
def RaisesClean (edit : Path → Proc (Disk Path) EditError α) (fits : Prop) : Prop :=
  ∀ d e, (edit work d).1 = .error e →
    ((edit work d).2.contents work = d.contents work ↔
      ¬ (fits ∧ d.contents work ≠ none ∧ d.writable work.tmp = true))

/-- The supervisor and the flash image after an edit that raises. -/
lemma editCopy_error (hflash : s.flash = some flash) {fits : Prop} (hedit : RaisesClean edit fits)
    {e : Exc} {s' : Server} (h : editCopy flash edit s = (.error e, s')) :
    (s'.power = s.power ∧ s'.supervised = s.supervised) ∧
      (s'.flashBytes = s.flashBytes ↔ ¬ (fits ∧ s.editable = true)) := by
  rw [editable_iff hflash]
  rcases editCopy_cases edit hflash with
    ⟨e', hrun, hne, hfails⟩ | ⟨s₁, hcopied, hrun, hwritable⟩
  · rw [hrun] at h
    obtain rfl : s = s' := (Prod.mk.inj h).2
    refine ⟨⟨rfl, rfl⟩, fun _ => ?_, fun _ => rfl⟩
    rintro ⟨-, hread, hwork, -⟩
    rcases hfails with hnone | hfalse
    · exact hread hnone
    · rw [hfalse] at hwork
      exact hwork.elim hne Bool.false_ne_true
  · rw [hrun, onDisk_eq] at h
    obtain ⟨herror, rfl⟩ := Prod.mk.inj h
    obtain ⟨e', he'⟩ : ∃ e', (edit work s₁.disk).1 = .error e' := by
      cases hout : edit work s₁.disk with
      | mk r d =>
        cases r with
        | ok a =>
          rw [Proc.mapError_of_ok hout] at herror
          cases herror
        | error e' => exact ⟨e', rfl⟩
    have hsame := hedit s₁.disk e' he'
    rw [hcopied.contents, hcopied.writable] at hsame
    refine ⟨hcopied.power, ?_⟩
    rw [Server.flashBytes, Server.flashBytes, hflash, hcopied.flash, Option.bind_some,
      Option.bind_some, hsame]
    simp only [hwritable, true_and]

end EditCopy

/-- The server after `power_off`, if the emulator runs. -/
def Server.off (s : Server) : Server :=
  if s.isRunning then { s with power := (Supervisor.powerOff s.power).2 } else s

/-- Powering off leaves the flash image that is in use. -/
lemma Server.off_flash (s : Server) : s.off.flash = s.flash ∧ s.off.disk = s.disk := by
  rw [Server.off]
  split
  · exact ⟨rfl, rfl⟩
  · exact ⟨rfl, rfl⟩

/-- A server that is off is off. -/
lemma Server.off_isRunning (s : Server) : s.off.isRunning = false := by
  rw [Server.off]
  split
  · rw [Server.isRunning, Power.isRunning, Supervisor.powerOff_client]
    exact Bool.and_false _
  · next h => exact Bool.not_eq_true _ ▸ h

/-- What a power-on raises is a power error. -/
lemma powerOn_raises {b : Bool} {start : Start} {s s' : Server} {e : Exc}
    (h : Proc.onlyIf b (powerOn start) s = (.error e, s')) : e = .power := by
  cases b with
  | false => cases h
  | true =>
    rw [Proc.onlyIf, if_pos rfl, powerOn, Proc.bind_eq_error] at h
    rcases h with h | ⟨_, _, _, h⟩
    · rw [call] at h
      split at h
      · cases h
      · cases h
        rfl
    · cases h

section EditFlash

variable {α : Type} {edit : Path → Proc (Disk Path) EditError α} {flash : Path} {start : Start}
  {s s' : Server}

/-- A running emulator is powered off. -/
lemma Server.off_eq {ε : Type} (s : Server) :
    (Proc.onlyIf s.isRunning powerOff : Proc Server ε Unit) s = (.ok (), s.off) := by
  rw [Server.off]
  cases s.isRunning with
  | false => rfl
  | true => rfl

/-- What `_edit_flash` does, from where it powered off. -/
lemma editFlash_eq (hflash : s.flash = some flash) (hdir : s.uploadDir = true) :
    editFlash edit start s = (do
      let result ← editCopy flash edit
      Proc.onlyIf s.isRunning (powerOn start)
      pure result : Proc Server Exc α) s.off := by
  rw [editFlash, Proc.get_bind, Proc.bind_of_ok (Proc.getOrRaise_eq_ok.mpr ⟨hflash, rfl⟩),
    Proc.bind_of_ok (Proc.ofExcept_eq (makeUploadDir_of_true hdir)), Proc.bind_of_ok s.off_eq]

/-- Without an upload directory `_edit_flash` raises before anything is done. -/
lemma editFlash_of_no_dir (hflash : s.flash = some flash) (hdir : s.uploadDir = false) :
    editFlash edit start s = (.error .uploadDir, s) := by
  rw [editFlash, Proc.get_bind, Proc.bind_of_ok (Proc.getOrRaise_eq_ok.mpr ⟨hflash, rfl⟩),
    Proc.bind_of_error (Proc.ofExcept_eq (makeUploadDir_of_false hdir))]

/-- **A flash edit that is refused** leaves the emulator off, and the flash image as it was exactly
if it did not come to saving it. -/
theorem editFlash_error (hflash : s.flash = some flash) (hdir : s.uploadDir = true) {fits : Prop}
    (hedit : RaisesClean edit fits) {e : Exc} (he : e ≠ .power)
    (h : editFlash edit start s = (.error e, s')) :
    s'.isRunning = false ∧ (s'.flashBytes = s.flashBytes ↔ ¬ (fits ∧ s.editable = true)) := by
  have hcopy : editCopy flash edit s.off = (.error e, s') := by
    rw [editFlash_eq hflash hdir, Proc.bind_eq_error] at h
    rcases h with h | ⟨a, s₁, -, h⟩
    · exact h
    · rw [Proc.bind_eq_error] at h
      rcases h with h | ⟨_, _, _, h⟩
      · exact absurd (powerOn_raises h) he
      · cases h
  obtain ⟨hoffFlash, hoffDisk⟩ := s.off_flash
  obtain ⟨⟨hpower, hsupervised⟩, hbytes⟩ :=
    editCopy_error (hoffFlash.trans hflash) hedit hcopy
  have hoffBytes : s.off.flashBytes = s.flashBytes := by
    simp only [Server.flashBytes, hoffFlash, hoffDisk]
  have hoffEditable : s.off.editable = s.editable := by
    simp only [Server.editable, hoffBytes, hoffFlash, hoffDisk]
  rw [hoffBytes, hoffEditable] at hbytes
  refine ⟨?_, hbytes⟩
  rw [Server.isRunning, hpower, hsupervised]
  exact s.off_isRunning

end EditFlash

/-! ## The four edits -/

/-- A slot write raises before it saves, unless the image is short enough for a slot. -/
lemma raisesClean_slotWrite {slot : ℕ} (hslot : slot < Slots.slotCount) {data : List UInt8}
    {name version : String} :
    RaisesClean (fun path => Slots.writeSlotFile path slot data name version true)
      (data.length ≤ Slots.slotStride - Slots.slotImageOffset) := by
  intro d e he
  have herror := Slots.editSlotFile_error hslot Slots.lengthens_writeEdit he
  have hbase : Slots.slotBase slot ≠ none := by
    rw [Slots.slotBase_of_lt hslot]
    exact nofun
  rwa [Slots.saves_iff fun _ => Slots.writeEdit_ok_iff, and_iff_right hbase] at herror

/-- A slot erase always comes to saving. -/
lemma raisesClean_slotErase {slot : ℕ} (hslot : slot < Slots.slotCount) :
    RaisesClean (fun path => Slots.eraseSlotFile path slot) True := by
  intro d e he
  have hok : ∀ buf, (Slots.eraseEdit slot buf).1 = .ok () ↔ True := by
    intro buf
    rw [Slots.eraseEdit_ok_iff, Slots.slotBase_of_lt hslot]
    exact iff_true_intro nofun
  have herror := Slots.editSlotFile_error hslot Slots.lengthens_eraseEdit he
  rwa [Slots.saves_iff hok] at herror

/-- An edit of an app slot raises without changing anything. -/
lemma raisesClean_app {α : Type} {edit : Proc (List UInt8) Apps.AppError α} :
    RaisesClean (Apps.editAppFile edit) False := by
  intro d e he
  rw [Apps.editAppFile_error he]
  simp

/-- An edit of an app slot that returns leaves a flash image that can be read. -/
lemma editFlash_ok {α : Type} {edit : Proc (List UInt8) Apps.AppError α} {flash : Path}
    {start : Start} {s s' : Server} (hflash : s.flash = some flash) {a : α}
    (h : editFlash (Apps.editAppFile edit) start s = (.ok a, s')) :
    s'.flash = some work ∧ ∃ image, s'.disk.contents work = some image := by
  have hdir : s.uploadDir = true := by
    by_contra hno
    rw [editFlash_of_no_dir hflash (Bool.not_eq_true _ ▸ hno)] at h
    cases h
  rw [editFlash_eq hflash hdir, Proc.bind_eq_ok] at h
  obtain ⟨a', s₁, hcopy, h⟩ := h
  rw [Proc.bind_eq_ok] at h
  obtain ⟨⟨⟩, s₂, hon, h⟩ := h
  obtain rfl : s₂ = s' := (Prod.mk.inj h).2
  have hkept : s₂.flash = s₁.flash ∧ s₂.disk = s₁.disk := by
    have hstate : s₂ = (Proc.onlyIf s.isRunning (powerOn start) s₁).2 := by rw [hon]
    rw [hstate]
    cases s.isRunning with
    | false => exact ⟨rfl, rfl⟩
    | true =>
      rw [Proc.onlyIf, if_pos rfl, powerOn_snd]
      exact ⟨rfl, rfl⟩
  rw [hkept.1, hkept.2]
  rcases editCopy_cases (Apps.editAppFile edit) (s.off_flash.1.trans hflash) with
    ⟨e, hrun, -⟩ | ⟨s₃, hcopied, hrun, -⟩
  · rw [hrun] at hcopy
    cases hcopy
  · rw [hrun, onDisk_eq] at hcopy
    obtain ⟨hok, rfl⟩ := Prod.mk.inj hcopy
    cases hout : Apps.editAppFile edit work s₃.disk with
    | mk r d =>
      cases r with
      | error e =>
        rw [Proc.mapError_of_error hout] at hok
        cases hok
      | ok a => exact ⟨hcopied.flash, Apps.editAppFile_ok hout⟩

/-- The table of the app slots, of a flash image that can be read. -/
lemma appTable_eq {s : Server} {path : Path} {image : List UInt8} (hflash : s.flash = some path)
    (himage : s.disk.contents path = some image) : ∃ apps, appTable s = (.ok apps, s) := by
  obtain ⟨apps, happs⟩ := Apps.appsJson_of_some himage
  refine ⟨apps, ?_⟩
  rw [appTable, Proc.get_bind, Proc.bind_of_ok (Proc.getOrRaise_eq_ok.mpr ⟨hflash, rfl⟩)]
  refine Proc.mapError_of_ok ?_
  rw [onDisk_eq, happs, Proc.mapError_of_ok happs]

section ApiEdit

variable {α : Type} {edit : Path → Proc (Disk Path) EditError α} {answer : α → Handler}
  {start : Start} {s s' : Server}

/-- An edit that raises is answered with 400. -/
lemma apiEdit_of_error {e : Exc} (hedit : editFlash edit start s = (.error e, s')) :
    respond (apiEdit (.ok ()) edit answer start) s = (refusal 400 (.raised e), s') := by
  have herror : orAnswer 400 (editFlash edit start) s = (.error (refusal 400 (.raised e)), s') :=
    Proc.mapError_of_error hedit
  rw [respond, apiEdit, Proc.bind_of_ok (Proc.ofExcept_eq rfl), Proc.bind_of_error herror]

/-- An edit that is saved is answered with what it returns. -/
lemma apiEdit_of_ok {a : α} (hedit : editFlash edit start s = (.ok a, s')) :
    respond (apiEdit (.ok ()) edit answer start) s = respond (answer a) s' := by
  have hok : orAnswer 400 (editFlash edit start) s = (.ok a, s') := Proc.mapError_of_ok hedit
  rw [respond, apiEdit, Proc.bind_of_ok (Proc.ofExcept_eq rfl), Proc.bind_of_ok hok, ← respond]

/-- An edit that is refused leaves the radio as it was if a test refused it, or if the emulator was
off and the edit did not come to saving the image.

**Proof sketch.** A test that fails leaves the server, and so does a server without flash control
or upload directory. Past these the edit itself raises, since what follows it raises only when the
emulator does not start; `editFlash_error` says that the emulator is off then and when the image
is the same. -/
lemma apiEdit_refused_iff {checks : Except Response Unit} {fits : Prop}
    (hclean : checks.isOk = true → RaisesClean edit fits)
    (hanswer : ∀ a s', s.flash.isSome = true → editFlash edit start s = (.ok a, s') →
      ∀ why, (respond (answer a) s').1.body ≠ .error why)
    {why : Refusal} (hwhy : why ≠ .raised .power)
    (h : (respond (apiEdit checks edit answer start) s).1.body = .error why) :
    ((respond (apiEdit checks edit answer start) s).2.isRunning = s.isRunning ∧
        (respond (apiEdit checks edit answer start) s).2.flashBytes = s.flashBytes) ↔
      (checks.isOk && s.flash.isSome && s.uploadDir) = false ∨
        s.isRunning = false ∧ ¬ (fits ∧ s.editable = true) := by
  cases checks with
  | error response => exact ⟨fun _ => .inl rfl, fun _ => ⟨rfl, rfl⟩⟩
  | ok u =>
    cases hflash : s.flash with
    | none =>
      have hedit : editFlash edit start s = (.error .noFlash, s) := by
        rw [editFlash, Proc.get_bind, hflash]
        rfl
      rw [apiEdit_of_error hedit]
      exact ⟨fun _ => .inl rfl, fun _ => ⟨rfl, rfl⟩⟩
    | some flash =>
      cases hdir : s.uploadDir with
      | false =>
        rw [apiEdit_of_error (editFlash_of_no_dir hflash hdir)]
        exact ⟨fun _ => .inl rfl, fun _ => ⟨rfl, rfl⟩⟩
      | true =>
      cases hedit : editFlash edit start s with
      | mk r s' =>
        cases r with
        | ok a =>
          rw [apiEdit_of_ok hedit] at h
          exact absurd h (hanswer a s' (by rw [hflash]; rfl) hedit why)
        | error e =>
          rw [apiEdit_of_error hedit] at h ⊢
          have he : e ≠ .power := by
            rintro rfl
            exact hwhy (Body.error.inj h).symm
          obtain ⟨hrunning, hbytes⟩ := editFlash_error hflash hdir (hclean rfl) he hedit
          rw [hrunning, hbytes]
          constructor
          · rintro ⟨hoff, hclean⟩
            exact .inr ⟨hoff.symm, hclean⟩
          · rintro (hchecks | ⟨hoff, hclean⟩)
            · cases hchecks
            · exact ⟨hoff.symm, hclean⟩

end ApiEdit

/-- The answer to an app edit that returned is not an error. -/
lemma answer_appTable {α : Type} {edit : Proc (List UInt8) Apps.AppError α} {start : Start}
    {s s' : Server} {a : α} {body : List (Option Apps.SlotInfo) → Body} {why : Refusal}
    (hbody : ∀ apps, body apps ≠ .error why) (hflash : s.flash.isSome = true)
    (h : editFlash (Apps.editAppFile edit) start s = (.ok a, s')) :
    (respond (do
      let apps ← appTable
      pure ⟨200, body apps⟩) s').1.body ≠ .error why := by
  obtain ⟨flash, hflash⟩ := Option.isSome_iff_exists.mp hflash
  obtain ⟨hwork, image, himage⟩ := editFlash_ok hflash h
  obtain ⟨apps, happs⟩ := appTable_eq hwork himage
  rw [respond, Proc.bind_of_ok happs]
  exact hbody apps

/-- What an edit needs to come to saving, apart from the files. -/
def Edit.fits : Edit → Prop
  | .slotWrite _ data _ _ _ => data.length ≤ Slots.slotStride - Slots.slotImageOffset
  | .slotErase _ => True
  | .appInstall .. => False
  | .appErase .. => False

/-- An edit comes to saving if it fits, and the files can be used. -/
lemma Edit.saves_iff (e : Edit) (s : Server) : e.saves s = true ↔ e.fits ∧ s.editable = true := by
  cases e with
  | slotWrite slot data arg header version =>
    rw [Edit.saves, Edit.fits, Bool.and_eq_true, decide_eq_true_eq]
  | slotErase slot => exact ⟨fun h => ⟨trivial, h⟩, And.right⟩
  | appInstall slot data force => exact ⟨nofun, fun h => h.1.elim⟩
  | appErase slot => exact ⟨nofun, fun h => h.1.elim⟩

/-- A number that passes its check is that of a slot. -/
lemma lt_of_checkSlot {what : String} {slot count : ℕ}
    (h : (checkSlot what slot count).isOk = true) : slot < count := by
  by_contra hslot
  rw [checkSlot, require, if_neg (by simpa using hslot)] at h
  cases h

/-- A test that is passed with another one after it. -/
lemma isOk_of_bind {checks : Except Response Unit} {rest : Unit → Except Response Unit}
    (h : (checks >>= rest).isOk = true) : checks.isOk = true := by
  cases checks with
  | ok u => rfl
  | error response => cases h

/-- **An edit of the flash that is refused** leaves the emulator running or off as it was, and the
bytes of the flash image as they were, exactly if a test of the handler refused it (the last one is
that of the upload directory), or if the emulator was off and the edit did not come to saving the
image.

**Proof sketch.** A handler powers a running emulator off before the edit is tried, and on again
only after one that returns. The copy to the working file keeps the bytes. An edit of an app slot is
refused before the image is written; an edit of a firmware slot may be refused after that, when the
image is too short for the slot table, and then the records appended at its end have made it longer.
-/
theorem edit_refused_iff {e : Edit} {start : Start} {s : Server} {why : Refusal}
    (h : (serve (.edit e) start s).1.body = .error why) (hwhy : why ≠ .raised .power) :
    ((serve (.edit e) start s).2.isRunning = s.isRunning ∧
        (serve (.edit e) start s).2.flashBytes = s.flashBytes) ↔
      (Request.edit e).accepted s = false ∨ s.isRunning = false ∧ e.saves s = false := by
  rw [Request.accepted, ← Bool.not_eq_true (e.saves s), Edit.saves_iff]
  cases e with
  | slotWrite slot data arg header version =>
    exact apiEdit_refused_iff (fun hok => raisesClean_slotWrite (lt_of_checkSlot (isOk_of_bind hok)))
      (fun _ _ _ _ _ hbody => by cases hbody) hwhy h
  | slotErase slot =>
    exact apiEdit_refused_iff (fun hok => raisesClean_slotErase (lt_of_checkSlot hok))
      (fun _ _ _ _ _ hbody => by cases hbody) hwhy h
  | appInstall slot data force =>
    exact apiEdit_refused_iff (fun _ => raisesClean_app)
      (fun _ _ hflash hedit _ =>
        answer_appTable (fun _ hbody => by cases hbody) hflash hedit) hwhy h
  | appErase slot =>
    exact apiEdit_refused_iff (fun _ => raisesClean_app)
      (fun _ _ hflash hedit _ =>
        answer_appTable (fun _ hbody => by cases hbody) hflash hedit) hwhy h

/-- A file that is not an app, with the emulator off. -/
theorem edit_refused_while_off :
    (serve (.edit (.appInstall 0 [0] none)) .connected edited).1.body =
        .error (.raised (.edit (.app (.tooShort 1)))) ∧
      (serve (.edit (.appInstall 0 [0] none)) .connected edited).2.isRunning = edited.isRunning ∧
      (serve (.edit (.appInstall 0 [0] none)) .connected edited).2.flashBytes =
        edited.flashBytes := by
  have hbody : (serve (.edit (.appInstall 0 [0] none)) .connected edited).1.body =
      .error (.raised (.edit (.app (.tooShort 1)))) := by
    decide +kernel
  exact ⟨hbody, (edit_refused_iff hbody nofun).mpr (.inr ⟨rfl, rfl⟩)⟩

/-- A file that is not an app, with the emulator running: it is left off. -/
theorem edit_refused_leaves_off :
    ¬ ∀ e start s why, (serve (.edit e) start s).1.body = .error why → why ≠ .raised .power →
      (serve (.edit e) start s).2.isRunning = s.isRunning ∧
        (serve (.edit e) start s).2.flashBytes = s.flashBytes := by
  intro h
  have hsame := h (.appInstall 0 [0] none) .connected
    { edited with power := ⟨some (.launched 0), some 0, [0], 1, []⟩ }
    (.raised (.edit (.app (.tooShort 1)))) (by decide +kernel) nofun
  exact absurd hsame.1 (by decide +kernel)

end Uvk5.Web
