import Mathlib.Data.List.Infix
import Uvk5.Slots.Files
import Uvk5.Supervisor.Power
import Uvk5.Web.Image

set_option relaxedAutoImplicit false
set_option autoImplicit false

/-!
# The web server (`tools/webui.py`)

The requests that change something: the power actions, a firmware upload, the edits of the firmware
and the app slots, and a flash upload. A handler that answers early raises its answer here; an
exception of what it calls becomes the answer it is caught with, or a 500.

The emulator writes its flash back to its file, so the bytes of its flash are those of the file. What
an emulator was started with stays with it, whatever becomes of the files afterwards.

## Main definitions

* `Web.Server` — what a request can change.
* `Web.Spawn`, `Web.Server.called` — what the emulators were started with.
* `Web.Server.firmware` — what the file of the image that is selected holds.
* `Web.editFlash` — off, edit a working copy, on again.
* `Web.apiPower`, `Web.apiFirmwareUpload`, `Web.apiEdit`, `Web.apiFlashUpload` — the handlers.
* `Web.serve` — a request from beginning to end.
-/

namespace Uvk5.Web

open Supervisor (Client Power Start Action)

/-- `MAX_UPLOAD_BYTES`. -/
def maxUploadBytes : ℕ := 4 * 1024 * 1024

/-- `ImageInfo`. -/
structure ImageInfo where
  /-- `path`. -/
  path : Path
  /-- The rest. -/
  shape : Image.Shape
  deriving DecidableEq

/-- `BootKey`. -/
structure BootKey where
  /-- `name`. -/
  name : Option String
  /-- `hold_ms`. -/
  holdMs : ℤ
  deriving DecidableEq

/-- The variables for the boot key in an environment, `UVK5_BOOT_KEY` and `UVK5_BOOT_KEY_MS`. -/
structure BootVars where
  /-- `UVK5_BOOT_KEY`. -/
  key : Option String
  /-- `UVK5_BOOT_KEY_MS`. -/
  ms : Option String
  deriving DecidableEq

/-- What an emulator was started with. -/
structure Spawn where
  /-- What the file of `-kernel` held. -/
  kernel : Option (List UInt8)
  /-- `UVK5_FLASH_IMAGE`: the file the emulator keeps its flash in. -/
  flashImage : Option Path
  deriving DecidableEq

/-- The server, its supervisor, the emulators and the disk. -/
structure Server where
  /-- The server has a supervisor. -/
  supervised : Bool
  /-- The supervisor. -/
  power : Power
  /-- The client of the grabber of the `FramePump`. -/
  pump : Option Client
  /-- The server has firmware control. -/
  imageControl : Bool
  /-- `image.current`. -/
  image : Option ImageInfo
  /-- `flash.path`, if the server has flash control. -/
  flash : Option Path
  /-- `boot_key`. -/
  bootKey : Option BootKey
  /-- The variables for the boot key in the server's own environment. -/
  environ : BootVars
  /-- `upload_dir()` is there, or can be made. -/
  uploadDir : Bool
  /-- The disk. -/
  disk : Disk Path
  /-- What the emulator of a client was started with. -/
  runs : Client → Spawn

/-- The emulator runs. -/
def Server.isRunning (s : Server) : Bool := s.supervised && s.power.isRunning

/-- The exceptions of what the handlers call. -/
inductive Exc where
  /-- `_edit_flash`: no flash control. -/
  | noFlash
  /-- `os.makedirs` of the upload directory raises. -/
  | uploadDir
  /-- An exception of a file or of an edit. -/
  | edit (e : EditError)
  /-- `power_on` raises, or the emulator does not answer. -/
  | power
  deriving DecidableEq

/-- The texts of the answers with an error status. -/
inductive Refusal where
  /-- "this server was started without … control". -/
  | noControl (what : String)
  /-- "no … in the request body". -/
  | noBody (what : String)
  /-- "%d bytes is too large". -/
  | tooLarge (size : ℕ)
  /-- "… %d is out of range (0..%d)". -/
  | outOfRange (what : String) (slot last : ℕ)
  /-- The upload is not an image, but it has been saved. -/
  | notImage (e : Image.ImageError) (saved : Path)
  /-- The firmware is loaded, but the emulator does not start with it. -/
  | restartFailed (info : ImageInfo)
  /-- "unknown action". -/
  | unknownAction
  /-- "power control needs a supervisor". -/
  | noSupervisor
  /-- "this server attached to an emulator it did not start". -/
  | notOwned
  /-- A power action raises. -/
  | actionFailed (action : Action) (powered : Bool)
  /-- The body of a power request is not what it should be. -/
  | badBody
  /-- An exception. -/
  | raised (e : Exc)
  deriving DecidableEq

/-- What an answer carries. -/
inductive Body where
  /-- `error`. -/
  | error (why : Refusal)
  /-- A power action was carried out. -/
  | power (action : Action) (powered : Bool)
  /-- A firmware was loaded. -/
  | firmware (info : ImageInfo) (multiboot : Option Bool) (restarted : Bool)
  /-- A firmware slot. -/
  | slot (row : Slots.SlotRow)
  /-- The firmware slots. -/
  | slots (table : Slots.SlotTable)
  /-- An app that was installed, and the app slots. -/
  | app (slot : ℕ) (info : Apps.AppInfo) (apps : List (Option Apps.SlotInfo))
  /-- The app slots. -/
  | apps (apps : List (Option Apps.SlotInfo))
  deriving DecidableEq

/-- An answer. -/
structure Response where
  /-- The status. -/
  status : ℕ
  /-- What it carries. -/
  body : Body
  deriving DecidableEq

/-- A handler: it returns its answer, or raises one to leave early. -/
abbrev Handler := Proc Server Response Response

/-- The answer with an error. -/
def refusal (status : ℕ) (why : Refusal) : Response := ⟨status, .error why⟩

/-- Answer early unless the condition holds. -/
def require (b : Bool) (status : ℕ) (why : Refusal) : Except Response Unit :=
  if b then .ok () else .error (refusal status why)

/-- An exception becomes the answer. -/
def orAnswer {α : Type} (status : ℕ) (p : Proc Server Exc α) : Proc Server Response α :=
  p.mapError fun e => refusal status (.raised e)

/-- A procedure on the disk. -/
def onDisk {α : Type} (p : Proc (Disk Path) EditError α) : Proc Server Exc α :=
  Proc.zoom Server.disk (fun s disk => { s with disk := disk }) (p.mapError .edit)

/-! ## The supervisor -/

/-- How a launch ends: the launcher raises when no image is loaded. -/
def Server.start (s : Server) (start : Start) : Start :=
  if s.image.isNone then .launchRaises else start

/-- What the file of the image that is selected holds. -/
def Server.firmware (s : Server) : Option (List UInt8) :=
  s.image.bind fun info => s.disk.contents info.path

/-- What the launcher starts an emulator with: the image is read when the process is spawned. -/
def Server.spawn (s : Server) : Spawn where
  kernel := s.firmware
  flashImage := s.flash

/-- The server after a call of the supervisor, which may have launched the next process. -/
def Server.called (s : Server) (power : Power) : Server :=
  { s with
    power := power
    runs := if power.next = s.power.next then s.runs
      else Function.update s.runs (.launched s.power.next) s.spawn }

/-- A call leaves the supervisor as it says. -/
@[simp] lemma Server.called_power (s : Server) (power : Power) : (s.called power).power = power :=
  rfl

/-- A call of the supervisor. -/
def call (start : Start) (answers : Bool) (action : Action) : Proc Server Exc Bool := fun s =>
  match Supervisor.act (s.start start) answers action s.power with
  | (some b, power) => (.ok b, s.called power)
  | (none, power) => (.error .power, s.called power)

/-- `supervisor.power_off()`. -/
def powerOff {ε : Type} : Proc Server ε Unit :=
  Proc.modify fun s => { s with power := (Supervisor.powerOff s.power).2 }

/-- `supervisor.power_on()`. -/
def powerOn (start : Start) : Proc Server Exc Unit := do
  let _ ← call start true .on
  pure ()

/-- `pump.rebind(supervisor.client())`. -/
def rebind {ε : Type} : Proc Server ε Unit := Proc.modify fun s => { s with pump := s.power.client }

/-! ## The handlers -/

/-- `os.makedirs(upload_dir(), exist_ok=True)`. -/
def makeUploadDir (s : Server) : Except Exc Unit := if s.uploadDir then .ok () else .error .uploadDir

/-- The upload directory is there, or can be made. -/
lemma makeUploadDir_of_true {s : Server} (h : s.uploadDir = true) : makeUploadDir s = .ok () := by
  rw [makeUploadDir, if_pos h]

/-- The upload directory cannot be made. -/
lemma makeUploadDir_of_false {s : Server} (h : s.uploadDir = false) :
    makeUploadDir s = .error .uploadDir := by
  rw [makeUploadDir, h, if_neg Bool.false_ne_true]

/-- `directory/flash-current.img`. -/
def work : Path := .upload "flash-current.img"

/-- What `_edit_flash` does between `power_off` and `power_on`: the image is copied to the working
file, unless it is there already, and edited there. -/
def editCopy {α : Type} (flash : Path) (edit : Path → Proc (Disk Path) EditError α) :
    Proc Server Exc α := do
  Proc.onlyIf (work ≠ flash) (do
    onDisk ((Disk.copyfile flash work).mapError .file)
    Proc.modify fun s => { s with flash := some work })
  onDisk (edit work)

/-- `_edit_flash`. -/
def editFlash {α : Type} (edit : Path → Proc (Disk Path) EditError α) (start : Start) :
    Proc Server Exc α := do
  let s ← Proc.get
  let flash ← Proc.getOrRaise .noFlash s.flash
  Proc.ofExcept (makeUploadDir s)
  Proc.onlyIf s.isRunning powerOff
  let result ← editCopy flash edit
  Proc.onlyIf s.isRunning (powerOn start)
  pure result

/-- The first of the two that is not empty, or the default: `a or b or default`. -/
def firstOf (a b : Option String) (default : String) : String :=
  match a.filter (· ≠ ""), b.filter (· ≠ "") with
  | some a, _ => a
  | none, some b => b
  | none, none => default

/-- `os.path.basename(name.replace("\\", "/"))`. -/
def uploadName (arg header : Option String) (default : String) : String :=
  basename ((firstOf arg header default).map fun c => if c = '\\' then '/' else c)

/-- The tests of a body. -/
def checkBody (what : String) (data : List UInt8) : Except Response Unit := do
  require (data ≠ []) 400 (.noBody what)
  require (data.length ≤ maxUploadBytes) 413 (.tooLarge data.length)

/-- The test of the number of a slot. -/
def checkSlot (what : String) (slot count : ℕ) : Except Response Unit :=
  require (slot < count) 400 (.outOfRange what slot (count - 1))

/-- The body of a power request. -/
inductive PowerBody where
  /-- An object: the text of `boot_key` if it is true, and what `int(body.get("hold_ms") or 1500)`
  gives, if it does not raise. -/
  | object (bootKey : Option String) (holdMs : Option ℤ)
  /-- Some other value. -/
  | other
  deriving DecidableEq

/-- What `api_power` does to `boot_key`. -/
def setBootKey (action : Action) (body : PowerBody) : Proc Server Response Unit := do
  let s ← Proc.get
  match s.bootKey, action, body with
  | none, _, _ => pure ()
  | some _, .on, .other => Proc.raise (refusal 500 .badBody)
  | some key, .on, .object (some name) holdMs => do
    let name := String.ofList (name.toList.take 16)
    Proc.modify fun s => { s with bootKey := some { key with name := some name } }
    let holdMs ← Proc.getOrRaise (refusal 500 .badBody) holdMs
    Proc.modify fun s => { s with bootKey := some ⟨some name, holdMs⟩ }
  | some key, _, _ => Proc.modify fun s => { s with bootKey := some { key with name := none } }

/-- What `api_power` does when the call raises. -/
def actionFailed {α : Type} (action : Action) : Proc Server Response α := do
  rebind
  let s ← Proc.get
  Proc.raise (refusal 503 (.actionFailed action s.power.isRunning))

/-- The end of `api_power`: the call, and the pump pointed at the client there is then. -/
def perform (action : Action) (answers : Bool) (start : Start) : Handler := do
  let _ ← (call start answers action).handle fun _ => actionFailed action
  rebind
  let s ← Proc.get
  pure ⟨200, .power action s.power.isRunning⟩

/-- `api_power`. -/
def apiPower (action : Option Action) (body : PowerBody) (answers : Bool) (start : Start) :
    Handler := do
  let action ← Proc.getOrRaise (refusal 400 .unknownAction) action
  let s ← Proc.get
  Proc.ofExcept (require s.supervised 409 .noSupervisor)
  Proc.ofExcept (require (action ≠ .off ∨ s.power.ownsProcess) 409 .notOwned)
  setBootKey action body
  perform action answers start

/-- `MULTIBOOT_MARKERS`. -/
def multibootMarkers : List String := ["F4HWN MULTIBOOT", "RESTORE REFUSED", "SLOT NOT VALID"]

/-- `image_has_multiboot`. -/
def imageHasMultiboot (file : Option (List UInt8)) : Option Bool :=
  file.map fun blob => multibootMarkers.any fun marker => marker.toUTF8.data.toList <:+: blob

/-- The name of a firmware that is uploaded. -/
def firmwareName (arg header : Option String) : String :=
  let name := uploadName arg header "firmware.bin"
  if name = "" then "firmware.bin" else name

/-- The first half of `api_firmware_upload`: the body is saved, and then looked at. -/
def receiveFirmware (arg header : Option String) (data : List UInt8) :
    Proc Server Response ImageInfo := do
  let s ← Proc.get
  Proc.ofExcept (require s.imageControl 409 (.noControl "firmware"))
  let path := Path.upload (firmwareName arg header)
  Proc.ofExcept (checkBody "image" data)
  orAnswer 500 (Proc.ofExcept (makeUploadDir s))
  orAnswer 500 (onDisk ((Disk.write path data).mapError .file))
  let s ← Proc.get
  match Image.detect (s.disk.contents path) with
  | .error e => Proc.raise (refusal 400 (.notImage e path))
  | .ok shape => pure ⟨path, shape⟩

/-- The second half of `api_firmware_upload`: the image is loaded. -/
def loadFirmware (info : ImageInfo) (start : Start) : Handler := do
  let s ← Proc.get
  Proc.onlyIf s.isRunning powerOff
  Proc.modify fun s => { s with image := some info }
  Proc.onlyIf s.isRunning ((powerOn start).mapError fun _ => refusal 500 (.restartFailed info))
  pure ⟨200, .firmware info (imageHasMultiboot (s.disk.contents info.path)) s.isRunning⟩

/-- `api_firmware_upload`. -/
def apiFirmwareUpload (arg header : Option String) (data : List UInt8) (start : Start) :
    Handler := do
  let info ← receiveFirmware arg header data
  loadFirmware info start

/-- The handler of an edit of the flash. -/
def apiEdit {α : Type} (checks : Except Response Unit) (edit : Path → Proc (Disk Path) EditError α)
    (answer : α → Handler) (start : Start) : Handler := do
  Proc.ofExcept checks
  let result ← orAnswer 400 (editFlash edit start)
  answer result

/-- `api_slot_write`. -/
def apiSlotWrite (slot : ℕ) (data : List UInt8) (arg header version : Option String)
    (start : Start) : Handler :=
  apiEdit (do checkSlot "slot" slot Slots.slotCount; checkBody "image" data)
    (fun path => Slots.writeSlotFile path slot data (uploadName arg header "firmware.bin")
      (version.getD "") true)
    (fun row => pure ⟨200, .slot row⟩) start

/-- `api_slot_erase`. -/
def apiSlotErase (slot : ℕ) (start : Start) : Handler :=
  apiEdit (checkSlot "slot" slot Slots.slotCount) (fun path => Slots.eraseSlotFile path slot)
    (fun row => pure ⟨200, .slot row⟩) start

/-- `uvk5_apps.apps_json(flash.path)`. -/
def appTable : Proc Server Response (List (Option Apps.SlotInfo)) := do
  let s ← Proc.get
  let flash ← Proc.getOrRaise (refusal 500 (.raised .noFlash)) s.flash
  orAnswer 500 (onDisk (Apps.appsJson flash))

/-- `api_app_install`. -/
def apiAppInstall (slot : ℕ) (data : List UInt8) (force : Option String) (start : Start) : Handler :=
  apiEdit (do checkSlot "app slot" slot Apps.slotCount; checkBody ".app" data)
    (fun path => Apps.installFile path slot data ((force.getD "").toLower ∈ ["1", "true", "yes"]))
    (fun info => do
      let apps ← appTable
      pure ⟨200, .app slot info apps⟩) start

/-- `api_app_erase`. -/
def apiAppErase (slot : ℕ) (start : Start) : Handler :=
  apiEdit (checkSlot "app slot" slot Apps.slotCount) (fun path => Apps.eraseFile path slot)
    (fun _ => do
      let apps ← appTable
      pure ⟨200, .apps apps⟩) start

/-- `api_flash_upload`. -/
def apiFlashUpload (arg header : Option String) (data : List UInt8) (start : Start) : Handler := do
  let s ← Proc.get
  let _ ← Proc.getOrRaise (refusal 409 (.noControl "flash")) s.flash
  Proc.ofExcept (checkBody "flash image" data)
  Proc.onlyIf s.isRunning powerOff
  orAnswer 500 (Proc.ofExcept (makeUploadDir s))
  let path := Path.upload (uploadName arg header "flash.img")
  orAnswer 500 (onDisk ((Disk.write path data).mapError .file))
  Proc.modify fun s => { s with flash := some path }
  Proc.onlyIf s.isRunning (orAnswer 500 (powerOn start))
  let table ← orAnswer 500 (onDisk (Slots.slotsJson path))
  pure ⟨200, .slots table⟩

/-! ## Requests -/

/-- A request that edits the flash. -/
inductive Edit where
  /-- `POST /api/slots/<slot>`. -/
  | slotWrite (slot : ℕ) (data : List UInt8) (arg header version : Option String)
  /-- `POST /api/slots/<slot>/erase`. -/
  | slotErase (slot : ℕ)
  /-- `POST /api/apps/<slot>`. -/
  | appInstall (slot : ℕ) (data : List UInt8) (force : Option String)
  /-- `POST /api/apps/<slot>/erase`. -/
  | appErase (slot : ℕ)
  deriving DecidableEq

/-- A request that changes something. -/
inductive Request where
  /-- `POST /api/power/<action>`. -/
  | power (action : Option Action) (body : PowerBody) (answers : Bool)
  /-- `POST /api/firmware`. -/
  | firmware (arg header : Option String) (data : List UInt8)
  /-- One of the edits. -/
  | edit (e : Edit)
  /-- `POST /api/flash`. -/
  | flash (arg header : Option String) (data : List UInt8)
  deriving DecidableEq

/-- The handler of an edit. -/
def Edit.handler (start : Start) : Edit → Handler
  | .slotWrite slot data arg header version => apiSlotWrite slot data arg header version start
  | .slotErase slot => apiSlotErase slot start
  | .appInstall slot data force => apiAppInstall slot data force start
  | .appErase slot => apiAppErase slot start

/-- The handler of a request. -/
def Request.handler (start : Start) : Request → Handler
  | .power action body answers => apiPower action body answers start
  | .firmware arg header data => apiFirmwareUpload arg header data start
  | .edit e => e.handler start
  | .flash arg header data => apiFlashUpload arg header data start

/-- The answer a handler returned or raised. -/
def respond (handler : Handler) (s : Server) : Response × Server :=
  match handler s with
  | (.ok response, s) => (response, s)
  | (.error response, s) => (response, s)

/-- A request from beginning to end. -/
def serve (request : Request) (start : Start) (s : Server) : Response × Server :=
  respond (request.handler start) s

/-! ## A firmware that is received -/

/-- The firmware passes the tests that come before it is saved, and can be saved. -/
def savesFirmware (arg header : Option String) (data : List UInt8) (s : Server) : Bool :=
  s.imageControl && (checkBody "image" data).isOk && s.uploadDir &&
    s.disk.writable (.upload (firmwareName arg header))

section ReceiveFirmware

variable {arg header : Option String} {data : List UInt8} {s : Server}

/-- A test that is passed. -/
lemma require_of_true {b : Bool} {status : ℕ} {why : Refusal} (h : b = true) :
    require b status why = .ok () := by
  rw [require, if_pos h]

/-- The tests of a body say 400 only to an empty one. -/
lemma checkBody_error {what : String} {response : Response}
    (h : checkBody what data = .error response) (hstatus : response.status = 400) : data = [] := by
  by_contra hne
  have hlarge : checkBody what data =
      require (data.length ≤ maxUploadBytes) 413 (.tooLarge data.length) := by
    rw [checkBody, require_of_true (decide_eq_true hne)]
    rfl
  rw [hlarge, require] at h
  split at h
  · cases h
  · rw [← Except.error.inj h] at hstatus
    cases hstatus

/-- The upload directory is there, or cannot be made. -/
lemma orAnswer_makeUploadDir (status : ℕ) (s s' : Server) :
    orAnswer status (Proc.ofExcept (makeUploadDir s)) s' =
      (if s.uploadDir then .ok () else .error (refusal status (.raised .uploadDir)), s') := by
  cases hdir : s.uploadDir with
  | true => exact Proc.mapError_of_ok (Proc.ofExcept_eq (makeUploadDir_of_true hdir))
  | false => exact Proc.mapError_of_error (Proc.ofExcept_eq (makeUploadDir_of_false hdir))

/-- A firmware that is not saved changes nothing. -/
lemma receiveFirmware_of_not_saves (h : savesFirmware arg header data s = false) :
    ∃ response, receiveFirmware arg header data s = (.error response, s) ∧
      (response.status = 400 → data = []) := by
  rw [savesFirmware] at h
  rw [receiveFirmware, Proc.get_bind]
  cases hcontrol : s.imageControl with
  | false => exact ⟨_, rfl, nofun⟩
  | true =>
    rw [Proc.bind_of_ok (Proc.ofExcept_eq (require_of_true rfl))]
    cases hbody : checkBody "image" data with
    | error response => exact ⟨response, rfl, checkBody_error hbody⟩
    | ok u =>
      rw [Proc.bind_of_ok (Proc.ofExcept_eq rfl)]
      have hmake := orAnswer_makeUploadDir 500 s s
      cases hdir : s.uploadDir with
      | false =>
        rw [hdir] at hmake
        exact ⟨_, Proc.bind_of_error hmake, nofun⟩
      | true =>
        rw [hdir] at hmake
        rw [hcontrol, hbody, hdir] at h
        have hwrite : orAnswer 500 (onDisk
            ((Disk.write (.upload (firmwareName arg header)) data).mapError .file)) s =
            (.error (refusal 500 (.raised (.edit (.file
              (.notWritable (.upload (firmwareName arg header))))))), s) := by
          refine Proc.mapError_of_error ?_
          rw [onDisk, Proc.zoom, Proc.mapError_of_error
            (Proc.mapError_of_error (Disk.write_of_not_writable h))]
        exact ⟨_, (Proc.bind_of_ok hmake).trans (Proc.bind_of_error hwrite), nofun⟩

/-- A firmware that is saved is looked at. -/
lemma receiveFirmware_of_saves (h : savesFirmware arg header data s = true) :
    receiveFirmware arg header data s =
      (match Image.detect (some data) with
        | .error e => .error (refusal 400 (.notImage e (.upload (firmwareName arg header))))
        | .ok shape => .ok ⟨.upload (firmwareName arg header), shape⟩,
      { s with disk := s.disk.put (.upload (firmwareName arg header)) (some data) }) := by
  rw [savesFirmware, Bool.and_eq_true, Bool.and_eq_true, Bool.and_eq_true] at h
  obtain ⟨⟨⟨hcontrol, hbody⟩, hdir⟩, hwritable⟩ := h
  have hmake := orAnswer_makeUploadDir 500 s s
  rw [hdir] at hmake
  have hwrite : orAnswer 500 (onDisk
      ((Disk.write (.upload (firmwareName arg header)) data).mapError .file)) s =
      (.ok (), { s with disk := s.disk.put (.upload (firmwareName arg header)) (some data) }) := by
    refine Proc.mapError_of_ok ?_
    rw [onDisk, Proc.zoom, Proc.mapError_of_ok (Proc.mapError_of_ok
      (Disk.write_of_writable hwritable))]
  rw [receiveFirmware, Proc.get_bind, Proc.bind_of_ok (Proc.ofExcept_eq (require_of_true hcontrol))]
  cases hchecks : checkBody "image" data with
  | error response =>
    rw [hchecks] at hbody
    cases hbody
  | ok u =>
    rw [Proc.bind_of_ok (Proc.ofExcept_eq rfl), Proc.bind_of_ok hmake, Proc.bind_of_ok hwrite,
      Proc.get_bind]
    dsimp only
    rw [Disk.put_contents_self]
    cases Image.detect (some data) with
    | error e => rfl
    | ok shape => rfl

end ReceiveFirmware

end Uvk5.Web
