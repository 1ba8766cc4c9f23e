import Uvk5.Web.Clients
import Uvk5.Web.Refused

set_option relaxedAutoImplicit false
set_option autoImplicit false

/-!
# What the requests leave of the files

A firmware is saved under the name it is uploaded with, also if it is then refused, and so is a flash
image; an edit writes the working copy of the flash image. Any of these may be the file of the image
that is selected, and the emulator writes its flash to a file as well. This file says what a request
leaves of the disk and of what is selected there, and which events put other bytes in place of the
firmware.

## Main definitions

* `Web.Holding` — the files of another server.
* `Web.Request.files` — what a request leaves of the files.
* `Web.Event.replaces` — other bytes take the place of the image that is selected.

## Main results

* `Web.holding_serve` — a request leaves the files as `Web.Request.files` says.
* `Web.firmware_step_iff` — the bytes of the image that is selected change exactly when they are
  replaced.
-/

namespace Uvk5.Web

open Supervisor (Client Power Start Action)

/-! ## Requests that leave the files alone -/

/-- The server has the files of another one: the disk, what is selected there, and the upload
directory. -/
structure Holding (s₀ s : Server) : Prop where
  /-- The image that is selected. -/
  image : s.image = s₀.image
  /-- `flash.path`. -/
  flash : s.flash = s₀.flash
  /-- The disk. -/
  disk : s.disk = s₀.disk
  /-- The upload directory. -/
  dir : s.uploadDir = s₀.uploadDir

section Holding

variable {s₀ s s' : Server}

/-- A server has its own files. -/
lemma Holding.refl (s : Server) : Holding s s := ⟨rfl, rfl, rfl, rfl⟩

/-- The files of a server with the same files. -/
lemma Holding.trans (h : Holding s₀ s) (h' : Holding s s') : Holding s₀ s' :=
  ⟨h'.image.trans h.image, h'.flash.trans h.flash, h'.disk.trans h.disk, h'.dir.trans h.dir⟩

/-- The firmware is a matter of the files. -/
lemma Holding.firmware (h : Holding s₀ s) : s.firmware = s₀.firmware := by
  rw [Server.firmware, Server.firmware, h.image, h.disk]

/-- What is done to the power leaves the files alone. -/
lemma holding_onlyIf {ε : Type} {b : Bool} {p : Proc Server ε Unit} (hp : Proc.Keeps (Holding s₀) p) :
    Proc.Keeps (Holding s₀) (Proc.onlyIf b p) := by
  cases b with
  | false => exact Proc.Keeps.pure
  | true => exact hp

/-- A server that is powered off keeps its files. -/
lemma holding_off (s : Server) : Holding s s.off := by
  rw [Server.off]
  split
  · exact ⟨rfl, rfl, rfl, rfl⟩
  · exact Holding.refl s

/-- `power_on` leaves the files alone. -/
lemma holding_powerOn (start : Start) : Proc.Keeps (Holding s₀) (powerOn start) := by
  intro s h
  rw [powerOn_snd]
  exact ⟨h.image, h.flash, h.disk, h.dir⟩

/-- A boot key is set. -/
lemma holding_setBootKey (action : Action) (body : PowerBody) :
    Proc.Keeps (Holding s₀) (setBootKey action body) := by
  have hset : ∀ {key : Option BootKey} {s : Server}, Holding s₀ s →
      Holding s₀ { s with bootKey := key } := fun h => ⟨h.image, h.flash, h.disk, h.dir⟩
  refine Proc.Keeps.get.bind fun s => ?_
  split
  · exact Proc.Keeps.pure
  · exact Proc.Keeps.raise
  · exact Proc.Keeps.bind (fun _ h => hset h) fun _ =>
      Proc.Keeps.getOrRaise.bind fun _ => fun _ h => hset h
  · exact fun _ h => hset h

/-- A power request leaves the files alone. -/
lemma holding_apiPower (action : Option Action) (body : PowerBody) (answers : Bool)
    (start : Start) : Proc.Keeps (Holding s₀) (apiPower action body answers start) := by
  refine Proc.Keeps.getOrRaise.bind fun a => Proc.Keeps.get.bind fun s =>
    Proc.Keeps.bind (fun _ h => h) fun _ => Proc.Keeps.bind (fun _ h => h) fun _ =>
      (holding_setBootKey a body).bind fun _ => fun s' h => ?_
  rw [perform_snd]
  exact ⟨h.image, h.flash, h.disk, h.dir⟩

/-- The table of the app slots is only read. -/
lemma holding_appTable : Proc.Keeps (Holding s₀) appTable := by
  refine Proc.Keeps.get.bind fun s => Proc.Keeps.getOrRaise.bind fun flash =>
    Proc.Keeps.mapError _ fun s h => ?_
  rw [onDisk_eq, Apps.appsJson_snd]
  exact h

/-- The table of the firmware slots is only read. -/
lemma holding_slotsJson (path : Path) :
    Proc.Keeps (Holding s₀) (orAnswer 500 (onDisk (Slots.slotsJson path))) := by
  refine Proc.Keeps.mapError _ fun s h => ?_
  rw [onDisk_eq, Slots.slotsJson_snd]
  exact h

end Holding

/-! ## A firmware upload -/

/-- What a firmware upload leaves of the files: it is saved, and selected if it is an image. -/
def Server.uploaded (s : Server) (arg header : Option String) (data : List UInt8) : Server :=
  let path := Path.upload (firmwareName arg header)
  if savesFirmware arg header data s then
    { s with
      disk := s.disk.put path (some data)
      image := match Image.detect (some data) with
        | .ok shape => some ⟨path, shape⟩
        | .error _ => s.image }
  else s

/-- A firmware that is loaded is selected, and nothing is done to the disk. -/
lemma holding_loadFirmware (info : ImageInfo) (start : Start) (s : Server) :
    Holding { s with image := some info } (loadFirmware info start s).2 := by
  rw [loadFirmware, Proc.get_bind, Proc.bind_of_ok s.off_eq]
  have hoff := holding_off s
  have hrest : Proc.Keeps (Holding { s with image := some info }) (do
      Proc.onlyIf s.isRunning ((powerOn start).mapError fun _ => refusal 500 (.restartFailed info))
      pure ⟨200, .firmware info (imageHasMultiboot (s.disk.contents info.path)) s.isRunning⟩ :
        Handler) :=
    (holding_onlyIf ((holding_powerOn start).mapError _)).bind fun _ => Proc.Keeps.pure
  exact hrest { s.off with image := some info } ⟨rfl, hoff.flash, hoff.disk, hoff.dir⟩

/-- **A firmware upload** saves the firmware, and selects it if it is an image. -/
theorem holding_firmware (arg header : Option String) (data : List UInt8) (start : Start)
    (s : Server) :
    Holding (s.uploaded arg header data) (apiFirmwareUpload arg header data start s).2 := by
  rw [Server.uploaded, apiFirmwareUpload]
  cases hsaves : savesFirmware arg header data s with
  | false =>
    obtain ⟨response, hrun, -⟩ := receiveFirmware_of_not_saves hsaves
    rw [Proc.bind_of_error hrun]
    exact Holding.refl s
  | true =>
    have hrun := receiveFirmware_of_saves hsaves
    rw [if_pos rfl]
    cases hdetect : Image.detect (some data) with
    | error e =>
      rw [hdetect] at hrun
      rw [Proc.bind_of_error hrun]
      exact Holding.refl _
    | ok shape =>
      rw [hdetect] at hrun
      rw [Proc.bind_of_ok hrun]
      exact holding_loadFirmware ⟨.upload (firmwareName arg header), shape⟩ start
        { s with disk := s.disk.put (.upload (firmwareName arg header)) (some data) }

/-! ## An edit of the flash -/

/-- What an edit does to the disk. -/
def Edit.write (e : Edit) (d : Disk Path) : Disk Path :=
  match e with
  | .slotWrite slot data arg header version =>
    (Slots.writeSlotFile work slot data (uploadName arg header "firmware.bin") (version.getD "")
      true d).2
  | .slotErase slot => (Slots.eraseSlotFile work slot d).2
  | .appInstall slot data force =>
    (Apps.installFile work slot data ((force.getD "").toLower ∈ ["1", "true", "yes"]) d).2
  | .appErase slot => (Apps.eraseFile work slot d).2

/-- The flash image is copied to the working file, unless it is there already or cannot be copied,
and then the working file is written. -/
def Server.copyEdited (s : Server) (write : Disk Path → Disk Path) (flash : Path) : Server :=
  if flash = work then { s with disk := write s.disk }
  else match Disk.copyfile flash work s.disk with
    | (.ok _, disk) => { s with disk := write disk, flash := some work }
    | (.error _, disk) => { s with disk := disk }

/-- What an edit of the flash leaves of the files, if it passes its tests. -/
def Server.editedIf (s : Server) (passes : Bool) (write : Disk Path → Disk Path) : Server :=
  match s.flash with
  | some flash => if passes && s.uploadDir then s.copyEdited write flash else s
  | none => s

section Edit

variable {α : Type} {edit : Path → Proc (Disk Path) EditError α} {write : Disk Path → Disk Path}
  {s : Server}

/-- The flash image is copied and edited. -/
lemma holding_editCopy (hwrite : ∀ d, (edit work d).2 = write d) (flash : Path) :
    Holding (s.copyEdited write flash) (editCopy flash edit s).2 := by
  rw [editCopy, Server.copyEdited]
  by_cases hwork : flash = work
  · rw [if_pos hwork, Proc.onlyIf, if_neg (by simp [hwork])]
    change Holding _ (onDisk (edit work) s).2
    rw [onDisk_eq, hwrite]
    exact Holding.refl _
  · rw [if_neg hwork, Proc.onlyIf, if_pos (decide_eq_true (Ne.symm hwork))]
    cases hcopy : Disk.copyfile flash work s.disk with
    | mk r disk =>
      have hrun : onDisk ((Disk.copyfile flash work).mapError .file) s =
          ((((Disk.copyfile flash work).mapError EditError.file).mapError Exc.edit s.disk).1,
            { s with disk := disk }) := by
        rw [onDisk_eq, Proc.mapError_snd, hcopy]
      cases r with
      | ok u =>
        rw [Proc.mapError_of_ok (Proc.mapError_of_ok hcopy)] at hrun
        have hboth : (do
            onDisk ((Disk.copyfile flash work).mapError .file)
            Proc.modify fun s => { s with flash := some work } : Proc Server Exc Unit) s =
            (.ok (), { s with disk := disk, flash := some work }) := by
          rw [Proc.bind_of_ok hrun]
          rfl
        rw [Proc.bind_of_ok hboth, onDisk_eq, hwrite]
        exact Holding.refl _
      | error e =>
        rw [Proc.mapError_of_error (Proc.mapError_of_error hcopy)] at hrun
        rw [Proc.bind_of_error (Proc.bind_of_error hrun)]
        exact Holding.refl _

/-- What `_edit_flash` leaves of the files. -/
lemma holding_editFlash (hwrite : ∀ d, (edit work d).2 = write d) (start : Start) {flash : Path}
    (hflash : s.flash = some flash) (hdir : s.uploadDir = true) :
    Holding (s.copyEdited write flash) (editFlash edit start s).2 := by
  have hoff := holding_off s
  have hcopied : Holding (s.copyEdited write flash) (s.off.copyEdited write flash) := by
    rw [Server.copyEdited, Server.copyEdited, hoff.disk]
    split
    · exact ⟨hoff.image, hoff.flash, rfl, hoff.dir⟩
    · split
      · exact ⟨hoff.image, rfl, rfl, hoff.dir⟩
      · exact ⟨hoff.image, hoff.flash, rfl, hoff.dir⟩
  have hkept : ∀ a, Proc.Keeps (Holding (s.copyEdited write flash)) (do
      Proc.onlyIf s.isRunning (powerOn start)
      pure a : Proc Server Exc α) :=
    fun a => (holding_onlyIf (holding_powerOn start)).bind fun _ => Proc.Keeps.pure
  rw [editFlash_eq hflash hdir]
  have hedit := hcopied.trans (holding_editCopy (s := s.off) hwrite flash)
  cases hrun : editCopy flash edit s.off with
  | mk r s' =>
    rw [hrun] at hedit
    cases r with
    | ok a =>
      rw [Proc.bind_of_ok hrun]
      exact hkept a s' hedit
    | error e =>
      rw [Proc.bind_of_error hrun]
      exact hedit

/-- What the handler of an edit leaves of the files. -/
lemma holding_apiEdit {checks : Except Response Unit} {answer : α → Handler}
    (hwrite : ∀ d, (edit work d).2 = write d)
    (hanswer : ∀ a s₀, Proc.Keeps (Holding s₀) (answer a)) (start : Start) :
    Holding (s.editedIf checks.isOk write) (apiEdit checks edit answer start s).2 := by
  rw [Server.editedIf]
  cases checks with
  | error response =>
    cases hflash : s.flash with
    | none => exact Holding.refl s
    | some flash => exact Holding.refl s
  | ok u =>
    rw [apiEdit, Proc.bind_of_ok (Proc.ofExcept_eq rfl)]
    have hanswered : ∀ {s₀ s'}, Holding s₀ s' → (editFlash edit start s).2 = s' →
        Holding s₀ ((orAnswer 400 (editFlash edit start) >>= answer) s).2 := by
      rintro s₀ s' h rfl
      have hedit : Proc.Triple (· = s) (orAnswer 400 (editFlash edit start)) fun _ =>
          Holding s₀ := by
        refine Proc.Triple.mapError _ ?_
        rintro _ rfl
        exact h
      exact Proc.Triple.seq hedit (fun a => hanswer a s₀) (fun _ h => h) s rfl
    cases hflash : s.flash with
    | none =>
      refine hanswered (Holding.refl s) ?_
      rw [editFlash, Proc.get_bind, hflash]
      rfl
    | some flash =>
      cases hdir : s.uploadDir with
      | false => exact hanswered (Holding.refl s) (by rw [editFlash_of_no_dir hflash hdir])
      | true => exact hanswered (holding_editFlash hwrite start hflash hdir) rfl

end Edit

/-- **An edit of the flash** copies the flash image to the working file and writes that. -/
theorem holding_edit (e : Edit) (start : Start) (s : Server) :
    Holding (s.editedIf e.checks.isOk e.write) (e.handler start s).2 := by
  have hrow : ∀ (row : Slots.SlotRow) (s₀ : Server),
      Proc.Keeps (Holding s₀) (pure ⟨200, .slot row⟩ : Handler) := fun _ _ => Proc.Keeps.pure
  cases e with
  | slotWrite slot data arg header version =>
    refine holding_apiEdit (fun _ => ?_) hrow start
    rfl
  | slotErase slot =>
    refine holding_apiEdit (fun _ => ?_) hrow start
    rfl
  | appInstall slot data force =>
    exact holding_apiEdit (fun _ => rfl) (fun _ _ => holding_appTable.bind fun _ => Proc.Keeps.pure)
      start
  | appErase slot =>
    exact holding_apiEdit (fun _ => rfl) (fun _ _ => holding_appTable.bind fun _ => Proc.Keeps.pure)
      start

/-! ## A flash upload -/

/-- What a flash upload leaves of the files: it is saved, and selected. -/
def Server.flashed (s : Server) (arg header : Option String) (data : List UInt8) : Server :=
  let path := Path.upload (uploadName arg header "flash.img")
  if (Request.flash arg header data).accepted s && s.uploadDir && s.disk.writable path then
    { s with disk := s.disk.put path (some data), flash := some path }
  else s

/-- **A flash upload** saves the flash image, and selects it.

**Proof sketch.** Along the tests of the handler: it is refused, or stops at the upload directory
or the file, and then only the power has changed; or it saves the file and selects it, and what
follows changes no file. -/
theorem holding_flash (arg header : Option String) (data : List UInt8) (start : Start)
    (s : Server) :
    Holding (s.flashed arg header data) (apiFlashUpload arg header data start s).2 := by
  rw [Server.flashed, apiFlashUpload, Proc.get_bind, Request.accepted]
  cases hflash : s.flash with
  | none => exact Holding.refl s
  | some flash =>
  rw [Proc.bind_of_ok (Proc.getOrRaise_eq_ok.mpr ⟨rfl, rfl⟩)]
  cases hbody : checkBody "flash image" data with
  | error response => exact Holding.refl s
  | ok u =>
  rw [Proc.bind_of_ok (Proc.ofExcept_eq rfl), Proc.bind_of_ok s.off_eq]
  have hoff := holding_off s
  have hmake := orAnswer_makeUploadDir 500 s s.off
  cases hdir : s.uploadDir with
  | false =>
    rw [hdir] at hmake
    rw [Proc.bind_of_error hmake]
    exact hoff
  | true =>
  rw [hdir] at hmake
  rw [Proc.bind_of_ok hmake]
  cases hwritable : s.disk.writable (.upload (uploadName arg header "flash.img")) with
  | false =>
    have hwrite : orAnswer 500 (onDisk ((Disk.write (.upload (uploadName arg header "flash.img"))
        data).mapError .file)) s.off = (.error (refusal 500 (.raised (.edit (.file
          (.notWritable (.upload (uploadName arg header "flash.img"))))))), s.off) := by
      have hrun : Disk.write _ data s.off.disk = _ :=
        Disk.write_of_not_writable (hoff.disk ▸ hwritable)
      refine Proc.mapError_of_error ?_
      rw [onDisk_eq, Proc.mapError_snd, hrun, Proc.mapError_of_error (Proc.mapError_of_error hrun)]
    rw [Proc.bind_of_error hwrite]
    exact hoff
  | true =>
    have hwrite : orAnswer 500 (onDisk ((Disk.write (.upload (uploadName arg header "flash.img"))
        data).mapError .file)) s.off = (.ok (), { s.off with
          disk := s.disk.put (.upload (uploadName arg header "flash.img")) (some data) }) := by
      have hrun : Disk.write _ data s.off.disk = _ :=
        Disk.write_of_writable (hoff.disk ▸ hwritable)
      refine Proc.mapError_of_ok ?_
      rw [onDisk_eq, Proc.mapError_snd, hrun, Proc.mapError_of_ok (Proc.mapError_of_ok hrun),
        hoff.disk]
    have hrest : ∀ s₀, Proc.Keeps (Holding s₀) (do
        Proc.onlyIf s.isRunning (orAnswer 500 (powerOn start))
        let table ← orAnswer 500
          (onDisk (Slots.slotsJson (.upload (uploadName arg header "flash.img"))))
        pure ⟨200, .slots table⟩ : Handler) := fun s₀ =>
      (holding_onlyIf ((holding_powerOn start).mapError _)).bind fun _ =>
        (holding_slotsJson _).bind fun _ => Proc.Keeps.pure
    rw [Proc.bind_of_ok hwrite]
    exact hrest _ _ ⟨hoff.image, rfl, rfl, hoff.dir.trans hdir⟩

/-! ## Requests -/

/-- What a request leaves of the files. -/
def Request.files (s : Server) : Request → Server
  | .power .. => s
  | .firmware arg header data => s.uploaded arg header data
  | .edit e => s.editedIf e.checks.isOk e.write
  | .flash arg header data => s.flashed arg header data

/-- **A request** leaves the files as `Request.files` says, however its launch ends. -/
theorem holding_serve (request : Request) (start : Start) (s : Server) :
    Holding (request.files s) (serve request start s).2 := by
  rw [serve, respond_snd]
  cases request with
  | power action body answers => exact holding_apiPower action body answers start s (Holding.refl s)
  | firmware arg header data => exact holding_firmware arg header data start s
  | edit e => exact holding_edit e start s
  | flash arg header data => exact holding_flash arg header data start s

/-! ## The image that is selected -/

/-- The image that is selected is in this file. -/
def Server.selects (s : Server) (path : Path) : Bool := s.image.any fun info => info.path = path

/-- The request puts other bytes in place of the image that is selected: a firmware is selected that
is another one, or other bytes are written to the file the image is in. -/
def Request.replaces (s : Server) : Request → Bool
  | .power .. => false
  | .firmware arg header data =>
    savesFirmware arg header data s &&
      ((Image.detect (some data)).isOk || s.selects (.upload (firmwareName arg header))) &&
      s.firmware ≠ some data
  | .edit e =>
    (s.selects work || s.selects work.tmp) &&
      (s.editedIf e.checks.isOk e.write).firmware ≠ s.firmware
  | .flash arg header data =>
    (Request.flash arg header data).accepted s && s.uploadDir &&
      s.disk.writable (.upload (uploadName arg header "flash.img")) &&
      s.selects (.upload (uploadName arg header "flash.img")) && s.firmware ≠ some data

/-- The event puts other bytes in place of the image that is selected: a request does, or an emulator
that writes its flash in the file of the image, or removes that file as its temporary one. -/
def Event.replaces (s : Server) : Event → Bool
  | .request r _ => r.replaces s
  | .flushes client flush =>
    (s.runs client).flashImage.any (fun path => s.selects path || s.selects path.tmp) &&
      (s.flushed client flush).firmware ≠ s.firmware
  | .exits _ => false

section Firmware

variable {s : Server} {path : Path} {data : List UInt8}

/-- What a file that is written leaves of the firmware. -/
lemma firmware_put :
    { s with disk := s.disk.put path (some data) }.firmware =
      if s.selects path then some data else s.firmware := by
  rw [Server.firmware, Server.selects, Server.firmware]
  cases s.image with
  | none => rfl
  | some info =>
    rw [Option.bind_some, Option.bind_some, Option.any_some]
    by_cases hpath : info.path = path
    · rw [if_pos (decide_eq_true hpath), hpath, Disk.put_contents_self]
    · rw [if_neg (by simpa using hpath), Disk.put_contents_of_ne hpath]

/-- A disk with the same file of the image has the same firmware. -/
lemma firmware_of_same {disk : Disk Path} {flash : Option Path} {paths : List Path}
    (hpaths : ∀ path ∈ paths, s.selects path = false)
    (hdisk : Disk.SameOutside paths s.disk disk) :
    { s with disk := disk, flash := flash }.firmware = s.firmware := by
  rw [Server.firmware, Server.firmware]
  cases himage : s.image with
  | none => rfl
  | some info =>
    rw [Option.bind_some, Option.bind_some]
    refine hdisk info.path fun hmem => ?_
    have hnot := hpaths _ hmem
    rw [Server.selects, himage, Option.any_some, decide_eq_false_iff_not] at hnot
    exact hnot rfl

/-- The image is in neither of the two files. -/
lemma selects_eq_false (hpath : s.selects path = false) (htmp : s.selects path.tmp = false) :
    ∀ path' ∈ [path, path.tmp], s.selects path' = false := by
  intro path' hpath'
  rcases List.mem_cons.mp hpath' with rfl | hpath'
  · exact hpath
  · rw [List.mem_singleton.mp hpath']
    exact htmp

/-- An edit writes the working file, and the temporary file beside it. -/
lemma sameOutside_write (e : Edit) {d₀ d : Disk Path}
    (h : Disk.SameOutside [work, work.tmp] d₀ d) :
    Disk.SameOutside [work, work.tmp] d₀ (e.write d) := by
  have hwork : work ∈ [work, work.tmp] := List.mem_cons_self
  have htmp : work.tmp ∈ [work, work.tmp] := List.mem_cons_of_mem _ List.mem_cons_self
  cases e with
  | slotWrite slot data arg header version => exact Slots.keeps_editSlotFile hwork htmp _ _ d h
  | slotErase slot => exact Slots.keeps_editSlotFile hwork htmp _ _ d h
  | appInstall slot data force => exact Apps.keeps_editAppFile hwork _ d h
  | appErase slot => exact Apps.keeps_editAppFile hwork _ d h

/-- An edit leaves the firmware alone unless it is in the working file or beside it. -/
lemma firmware_editedIf (e : Edit) (passes : Bool) (hwork : s.selects work = false)
    (htmp : s.selects work.tmp = false) : (s.editedIf passes e.write).firmware = s.firmware := by
  have hpaths := selects_eq_false hwork htmp
  have hself : Disk.SameOutside [work, work.tmp] s.disk s.disk := fun _ _ => rfl
  rw [Server.editedIf]
  split
  · next flash hflash =>
    split
    · have hcopied : Disk.SameOutside [work, work.tmp] s.disk
          (Disk.copyfile flash work s.disk).2 :=
        Disk.keeps_copyfile (List.mem_cons_self) s.disk hself
      rw [Server.copyEdited]
      split
      · exact firmware_of_same hpaths (sameOutside_write e hself)
      · split
        · next hcopy =>
          rw [hcopy] at hcopied
          exact firmware_of_same hpaths (sameOutside_write e hcopied)
        · next hcopy =>
          rw [hcopy] at hcopied
          exact firmware_of_same hpaths hcopied
    · rfl
  · rfl

/-- A firmware is selected that is another one, or written over the one that is selected. -/
lemma firmware_uploaded (arg header : Option String) (data : List UInt8) :
    (s.uploaded arg header data).firmware =
      if savesFirmware arg header data s &&
        ((Image.detect (some data)).isOk || s.selects (.upload (firmwareName arg header)))
      then some data else s.firmware := by
  rw [Server.uploaded]
  cases savesFirmware arg header data s with
  | false => rfl
  | true =>
    rw [Bool.true_and, if_pos rfl]
    cases Image.detect (some data) with
    | ok shape => exact Disk.put_contents_self
    | error e => exact firmware_put

/-- A flash image is saved over the firmware that is selected. -/
lemma firmware_flashed (arg header : Option String) (data : List UInt8) :
    (s.flashed arg header data).firmware =
      if (Request.flash arg header data).accepted s && s.uploadDir &&
        s.disk.writable (.upload (uploadName arg header "flash.img")) &&
        s.selects (.upload (uploadName arg header "flash.img"))
      then some data else s.firmware := by
  rw [Server.flashed]
  cases (Request.flash arg header data).accepted s && s.uploadDir &&
    s.disk.writable (.upload (uploadName arg header "flash.img")) with
  | false => rfl
  | true => exact firmware_put

/-- An emulator that writes its flash leaves the firmware alone unless it is in the file of the flash
or beside it. -/
lemma firmware_flushed (client : Client) (flush : Flush)
    (h : (s.runs client).flashImage.any (fun path => s.selects path || s.selects path.tmp) = false) :
    (s.flushed client flush).firmware = s.firmware := by
  rw [Server.flushed]
  split
  · split
    · next path hpath =>
      rw [hpath, Option.any_some, Bool.or_eq_false_iff] at h
      exact firmware_of_same (selects_eq_false h.1 h.2) (flush.sameOutside_write path s.disk)
    · rfl
  · rfl

/-- Bytes that take the place of the firmware change it if they are others. -/
lemma ite_firmware_ne_iff {b : Bool} :
    (if b then some data else s.firmware) ≠ s.firmware ↔ (b && s.firmware ≠ some data) = true := by
  cases b with
  | false => exact iff_of_false (fun hne => hne rfl) Bool.false_ne_true
  | true => rw [if_pos rfl, Bool.true_and, decide_eq_true_eq, ne_comm]

/-- The firmware after a request is the one from before, unless the request replaces it. -/
lemma firmware_files_iff (request : Request) :
    (request.files s).firmware ≠ s.firmware ↔ request.replaces s = true := by
  cases request with
  | power action body answers => exact iff_of_false (fun h => h rfl) Bool.false_ne_true
  | firmware arg header data =>
    rw [Request.files, firmware_uploaded]
    exact ite_firmware_ne_iff
  | edit e =>
    rw [Request.files, Request.replaces, Bool.and_eq_true, Bool.or_eq_true, decide_eq_true_eq]
    refine ⟨fun hne => ⟨?_, hne⟩, And.right⟩
    by_contra hnot
    rw [not_or, Bool.not_eq_true, Bool.not_eq_true] at hnot
    exact hne (firmware_editedIf e _ hnot.1 hnot.2)
  | flash arg header data =>
    rw [Request.files, firmware_flashed]
    exact ite_firmware_ne_iff

/-- **The bytes of the image that is selected** change exactly when they are replaced. -/
theorem firmware_step_iff (s : Server) (e : Event) :
    (step s e).firmware ≠ s.firmware ↔ e.replaces s = true := by
  cases e with
  | exits pid => exact iff_of_false (fun h => h rfl) Bool.false_ne_true
  | flushes client flush =>
    rw [step, Event.replaces, Bool.and_eq_true, decide_eq_true_eq]
    refine ⟨fun hne => ⟨?_, hne⟩, And.right⟩
    by_contra hnot
    exact hne (firmware_flushed client flush (Bool.not_eq_true _ ▸ hnot))
  | request request start =>
    rw [step, (holding_serve request start s).firmware]
    exact firmware_files_iff request

end Firmware

end Uvk5.Web
