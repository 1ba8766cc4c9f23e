import Uvk5.Lib.Run
import Uvk5.Web.Server

set_option relaxedAutoImplicit false
set_option autoImplicit false

/-!
# Power cycles behind the requests

The emulator takes up a new image only when it is started, so a firmware upload, an edit of the
flash and a flash upload power a running emulator off and on again. Only the power requests ask who
owns the process, and only they point the pump at the new client.

## Main definitions

* `Web.Request.accepted` — the request passes the tests of its handler.
* `Web.Cycled` — the supervisor after a request with or without a power cycle.

## Main results

* `Web.serve_cycled` — a request other than a power request cycles the power exactly when it is
  accepted and the emulator runs, and leaves the pump alone.
* `Web.serve_power` — a power request.
-/

namespace Uvk5.Web

open Supervisor (Client Power Start Action)

/-! ## Accepted requests -/

/-- The tests of an edit that come before anything is done. -/
def Edit.checks : Edit → Except Response Unit
  | .slotWrite slot data _ _ _ => do checkSlot "slot" slot Slots.slotCount; checkBody "image" data
  | .slotErase slot => checkSlot "slot" slot Slots.slotCount
  | .appInstall slot data _ => do checkSlot "app slot" slot Apps.slotCount; checkBody ".app" data
  | .appErase slot => checkSlot "app slot" slot Apps.slotCount

/-- The request passes the tests of its handler. -/
def Request.accepted (s : Server) : Request → Bool
  | .power .. => false
  | .firmware arg header data =>
    savesFirmware arg header data s && (Image.detect (some data)).isOk
  | .edit e => e.checks.isOk && s.flash.isSome && s.uploadDir
  | .flash _ _ data => s.flash.isSome && (checkBody "flash image" data).isOk

/-! ## Calls of the supervisor -/

/-- The server after a call to the emulator. -/
lemma call_snd (start : Start) (answers : Bool) (action : Action) (s : Server) :
    (call start answers action s).2 =
      s.called (Supervisor.act (s.start start) answers action s.power).2 := by
  rw [call]
  split
  · next h => rw [h]
  · next h => rw [h]

/-- The server after a power-on. -/
lemma powerOn_snd (start : Start) (s : Server) :
    (powerOn start s).2 = s.called (Supervisor.powerOn (s.start start) s.power).2 := by
  have hcall := call_snd start true .on s
  cases h : call start true .on s with
  | mk r s' =>
    rw [h] at hcall
    cases r with
    | ok answer => rw [powerOn, Proc.bind_of_ok h]; exact hcall
    | error e => rw [powerOn, Proc.bind_of_error h]; exact hcall

/-! ## Power cycles -/

section Cycle

variable (b : Bool) (s₀ : Server)

/-- The server after `power_off`, if there was one. -/
structure Off (s : Server) : Prop where
  /-- The client of the pump. -/
  pump : s.pump = s₀.pump
  /-- Whether there is a supervisor. -/
  supervised : s.supervised = s₀.supervised
  /-- What the emulators were started with. -/
  runs : s.runs = s₀.runs
  /-- Another flash image is selected only while no emulator runs. -/
  flash : s.flash = s₀.flash ∨ b = true ∨ s₀.isRunning = false
  /-- The supervisor. -/
  power : s.power = if b then (Supervisor.powerOff s₀.power).2 else s₀.power

/-- What the emulators were started with, when no more than one process was launched: the flash of
that one is the flash image that is selected. -/
structure Spawns (s : Server) : Prop where
  /-- The other emulators. -/
  others : ∀ client, client ≠ .launched s₀.power.next → s.runs client = s₀.runs client
  /-- The one that was launched. -/
  next : s.power.next ≠ s₀.power.next → (s.runs (.launched s₀.power.next)).flashImage = s.flash

/-- The server after `power_off`, if there was one, and perhaps `power_on`. -/
structure Cycled (s : Server) : Prop where
  /-- The client of the pump. -/
  pump : s.pump = s₀.pump
  /-- Whether there is a supervisor. -/
  supervised : s.supervised = s₀.supervised
  /-- Another flash image is selected only while no emulator runs. -/
  flash : s.flash = s₀.flash ∨ b = true ∨ s₀.isRunning = false
  /-- What the emulators were started with. -/
  spawns : Spawns s₀ s
  /-- The supervisor. -/
  power : s.power = (if b then (Supervisor.powerOff s₀.power).2 else s₀.power) ∨
    b = true ∧ ∃ start, s.power = (Supervisor.powerOn start (Supervisor.powerOff s₀.power).2).2

variable {b s₀}

/-- A server that is as it was is one without a power cycle. -/
lemma off_self : Off false s₀ s₀ := ⟨rfl, rfl, rfl, .inl rfl, rfl⟩

/-- The number of the next process is that from before. -/
lemma Off.next {s : Server} (h : Off b s₀ s) : s.power.next = s₀.power.next := by
  rw [h.power]
  split
  · exact Supervisor.powerOff_next _
  · rfl

/-- A server that was powered off only. -/
lemma Off.cycled {s : Server} (h : Off b s₀ s) : Cycled b s₀ s :=
  ⟨h.pump, h.supervised, h.flash, ⟨fun _ _ => by rw [h.runs], fun hne => absurd h.next hne⟩,
    .inl h.power⟩

/-- What was done to the disk before does not matter. -/
lemma Cycled.of_disk {disk : Disk Path} {s : Server}
    (h : Cycled b { s₀ with disk := disk } s) : Cycled b s₀ s :=
  ⟨h.pump, h.supervised, h.flash, ⟨h.spawns.others, h.spawns.next⟩, h.power⟩

/-- What a call leaves of what the emulators were started with. -/
lemma spawns_called {s : Server} (hruns : s.runs = s₀.runs) (hnext : s.power.next = s₀.power.next)
    (power : Power) : Spawns s₀ (s.called power) := by
  constructor
  · intro client hclient
    rw [Server.called]
    dsimp only
    split
    · rw [hruns]
    · rw [Function.update_of_ne (hnext ▸ hclient), hruns]
  · intro hlaunched
    rw [Server.called_power, ← hnext] at hlaunched
    rw [Server.called, ← hnext]
    dsimp only
    rw [if_neg hlaunched, Function.update_self]
    rfl

/-- `power_off`, if the emulator runs. -/
lemma off_onlyIf {ε : Type} (hb : b = s₀.isRunning) :
    Proc.Triple (· = s₀) (Proc.onlyIf b powerOff : Proc Server ε Unit) fun _ => Off b s₀ := by
  rintro _ rfl
  cases b with
  | false => exact ⟨rfl, rfl, rfl, .inl rfl, rfl⟩
  | true => exact ⟨rfl, rfl, rfl, .inl rfl, rfl⟩

/-- A test or an exception changes nothing. -/
lemma off_ofExcept {ε α : Type} {r : Except ε α} :
    Proc.Keeps (Off b s₀) (Proc.ofExcept r) := fun _ h => h

/-- The disk is not part of the power. -/
lemma off_onDisk {α : Type} {p : Proc (Disk Path) EditError α} :
    Proc.Keeps (Off b s₀) (onDisk p) := fun _ h => ⟨h.pump, h.supervised, h.runs, h.flash, h.power⟩

/-- What is done to the disk after a power cycle does not matter. -/
lemma cycled_onDisk {α : Type} {p : Proc (Disk Path) EditError α} :
    Proc.Keeps (Cycled b s₀) (onDisk p) :=
  fun _ h => ⟨h.pump, h.supervised, h.flash, ⟨h.spawns.others, h.spawns.next⟩, h.power⟩

/-- Another flash image is selected after `power_off`, or while no emulator runs. -/
lemma off_setFlash {ε : Type} {flash : Option Path} (hb : b = s₀.isRunning) :
    Proc.Keeps (Off b s₀) (Proc.modify fun s => { s with flash := flash } : Proc Server ε Unit) := by
  intro s h
  refine ⟨h.pump, h.supervised, h.runs, .inr ?_, h.power⟩
  rw [hb]
  exact Bool.eq_false_or_eq_true _

/-- Another image is selected. -/
lemma off_setImage {ε : Type} {image : Option ImageInfo} :
    Proc.Keeps (Off b s₀) (Proc.modify fun s => { s with image := image } : Proc Server ε Unit) :=
  fun _ h => ⟨h.pump, h.supervised, h.runs, h.flash, h.power⟩

/-- The flash image is copied and edited. -/
lemma off_editCopy {α : Type} {flash : Path} {edit : Path → Proc (Disk Path) EditError α}
    (hb : b = s₀.isRunning) : Proc.Keeps (Off b s₀) (editCopy flash edit) := by
  refine Proc.Keeps.bind ?_ fun _ => off_onDisk
  rw [Proc.onlyIf]
  split
  · exact off_onDisk.bind fun _ => off_setFlash hb
  · exact Proc.Keeps.pure

/-- `power_on`, if the emulator ran before. -/
lemma cycled_onlyIf {ε : Type} {p : Proc Server ε Unit} {start : Start}
    (hp : ∀ s, (p s).2 = (powerOn start s).2) :
    Proc.Triple (Off b s₀) (Proc.onlyIf b p) fun _ => Cycled b s₀ := by
  intro s h
  cases b with
  | false => exact h.cycled
  | true =>
    have hpower : s.power = (Supervisor.powerOff s₀.power).2 := h.power
    rw [Proc.onlyIf, if_pos rfl, hp, powerOn_snd]
    refine ⟨h.pump, h.supervised, .inr (.inl rfl), spawns_called h.runs h.next _,
      .inr ⟨rfl, s.start start, ?_⟩⟩
    rw [Server.called_power, hpower]

end Cycle

/-! ## The handlers -/

/-- **A flash edit** cycles the power if the emulator runs, whether or not the edit raises. -/
theorem editFlash_cycled {α : Type} (edit : Path → Proc (Disk Path) EditError α) (start : Start)
    (s : Server) :
    Cycled (s.flash.isSome && s.uploadDir && s.isRunning) s (editFlash edit start s).2 := by
  rw [editFlash, Proc.get_bind]
  cases hflash : s.flash with
  | none => exact off_self.cycled
  | some flash =>
    rw [Proc.bind_of_ok (Proc.getOrRaise_eq_ok.mpr ⟨rfl, rfl⟩), Option.isSome_some, Bool.true_and]
    cases hdir : s.uploadDir with
    | false =>
      rw [Proc.bind_of_error (Proc.ofExcept_eq (makeUploadDir_of_false hdir))]
      exact off_self.cycled
    | true =>
    rw [Proc.bind_of_ok (Proc.ofExcept_eq (makeUploadDir_of_true hdir)), Bool.true_and]
    refine Proc.Triple.seq (off_onlyIf rfl) (fun _ => ?_) (fun _ h => h.cycled) s rfl
    refine Proc.Triple.seq (off_editCopy rfl) (fun result => ?_) fun _ h => h.cycled
    exact Proc.Triple.seq (cycled_onlyIf fun _ => rfl) (fun _ => Proc.Keeps.pure) fun _ h => h

/-- An answer leaves the server as the handler does. -/
lemma respond_snd (handler : Handler) (s : Server) : (respond handler s).2 = (handler s).2 := by
  rw [respond]
  split
  · next h => rw [h]
  · next h => rw [h]

/-- The handler of an edit whose answer changes nothing. -/
lemma apiEdit_cycled {α : Type} {checks : Except Response Unit}
    {edit : Path → Proc (Disk Path) EditError α} {answer : α → Handler} {start : Start} {s : Server}
    (hanswer : ∀ a b s₀, Proc.Keeps (Cycled b s₀) (answer a)) :
    Cycled (checks.isOk && s.flash.isSome && s.uploadDir && s.isRunning) s
      (apiEdit checks edit answer start s).2 := by
  cases checks with
  | error response => exact off_self.cycled
  | ok u =>
    rw [apiEdit, Proc.bind_of_ok (Proc.ofExcept_eq rfl)]
    have hedit : Proc.Triple (· = s) (orAnswer 400 (editFlash edit start)) fun _ =>
        Cycled (s.flash.isSome && s.uploadDir && s.isRunning) s := by
      refine Proc.Triple.mapError _ ?_
      rintro _ rfl
      exact editFlash_cycled edit start _
    exact Proc.Triple.seq hedit (fun a => hanswer a _ _) (fun _ h => h) s rfl

/-- Listing the applications leaves a server that was powered off, and perhaps on. -/
lemma cycled_appTable {b : Bool} {s₀ : Server} : Proc.Keeps (Cycled b s₀) appTable :=
  Proc.Keeps.get.bind fun _ => Proc.Keeps.getOrRaise.bind fun _ =>
    Proc.Triple.mapError _ cycled_onDisk

/-- An edit powers the emulator off if it passes its tests and there is a flash image to edit, and
perhaps on again. -/
lemma edit_cycled (e : Edit) (start : Start) (s : Server) :
    Cycled (e.checks.isOk && s.flash.isSome && s.uploadDir && s.isRunning) s
      (e.handler start s).2 := by
  cases e with
  | slotWrite slot data arg header version => exact apiEdit_cycled fun _ _ _ => Proc.Keeps.pure
  | slotErase slot => exact apiEdit_cycled fun _ _ _ => Proc.Keeps.pure
  | appInstall slot data force =>
    exact apiEdit_cycled fun _ _ _ => cycled_appTable.bind fun _ => Proc.Keeps.pure
  | appErase slot =>
    exact apiEdit_cycled fun _ _ _ => cycled_appTable.bind fun _ => Proc.Keeps.pure

/-- Loading a firmware cycles the power if the emulator runs. -/
lemma loadFirmware_cycled (info : ImageInfo) (start : Start) (s : Server) :
    Cycled s.isRunning s (loadFirmware info start s).2 := by
  rw [loadFirmware, Proc.get_bind]
  refine Proc.Triple.seq (off_onlyIf rfl) (fun _ => ?_) (fun _ h => h.cycled) s rfl
  refine Proc.Triple.seq off_setImage (fun _ => ?_) fun _ h => h.cycled
  exact Proc.Triple.seq (cycled_onlyIf fun _ => Proc.mapError_snd _) (fun _ => Proc.Keeps.pure)
    fun _ h => h

/-- A firmware upload that is accepted powers the emulator off, and perhaps on again. -/
lemma firmware_cycled (arg header : Option String) (data : List UInt8) (start : Start)
    (s : Server) :
    Cycled ((Request.firmware arg header data).accepted s && s.isRunning) s
      (apiFirmwareUpload arg header data start s).2 := by
  rw [Request.accepted, apiFirmwareUpload]
  cases hsaves : savesFirmware arg header data s with
  | false =>
    obtain ⟨response, hrun, -⟩ := receiveFirmware_of_not_saves hsaves
    rw [Proc.bind_of_error hrun]
    exact off_self.cycled
  | true =>
    have hrun := receiveFirmware_of_saves hsaves
    cases hdetect : Image.detect (some data) with
    | error e =>
      rw [hdetect] at hrun
      rw [Proc.bind_of_error hrun]
      exact off_self.cycled.of_disk
    | ok shape =>
      rw [hdetect] at hrun
      rw [Proc.bind_of_ok hrun]
      have hcycled := loadFirmware_cycled ⟨.upload (firmwareName arg header), shape⟩ start
        { s with disk := s.disk.put (.upload (firmwareName arg header)) (some data) }
      exact hcycled.of_disk

/-- A flash upload that is accepted powers the emulator off, and perhaps on again. -/
lemma flash_cycled (arg header : Option String) (data : List UInt8) (start : Start) (s : Server) :
    Cycled ((Request.flash arg header data).accepted s && s.isRunning) s
      (apiFlashUpload arg header data start s).2 := by
  rw [apiFlashUpload, Proc.get_bind, Request.accepted]
  cases hflash : s.flash with
  | none => exact off_self.cycled
  | some flash =>
  rw [Proc.bind_of_ok (Proc.getOrRaise_eq_ok.mpr ⟨rfl, rfl⟩)]
  cases hbody : checkBody "flash image" data with
  | error response => exact off_self.cycled
  | ok u =>
  rw [Proc.bind_of_ok (Proc.ofExcept_eq rfl)]
  refine Proc.Triple.seq (off_onlyIf rfl) (fun _ => ?_) (fun _ h => h.cycled) s rfl
  refine Proc.Triple.seq (Proc.Triple.mapError _ off_ofExcept) (fun _ => ?_) fun _ h => h.cycled
  refine Proc.Triple.seq (Proc.Triple.mapError _ off_onDisk) (fun _ => ?_) fun _ h => h.cycled
  refine Proc.Triple.seq (off_setFlash rfl) (fun _ => ?_) fun _ h => h.cycled
  refine Proc.Triple.seq (cycled_onlyIf fun _ => Proc.mapError_snd _) (fun _ => ?_) fun _ h => h
  exact Proc.Keeps.bind (Proc.Triple.mapError _ cycled_onDisk) fun _ => Proc.Keeps.pure

/-- **A request other than a power request** cycles the power exactly when it is accepted and the
emulator runs. -/
theorem serve_cycled {request : Request} (start : Start) (s : Server)
    (h : ∀ action body answers, request ≠ .power action body answers) :
    Cycled (request.accepted s && s.isRunning) s (serve request start s).2 := by
  rw [serve, respond_snd]
  cases request with
  | power action body answers => exact absurd rfl (h action body answers)
  | firmware arg header data => exact firmware_cycled arg header data start s
  | edit e => exact edit_cycled e start s
  | flash arg header data => exact flash_cycled arg header data start s

/-! ## Power requests -/

section Power

variable {s₀ : Server} {start : Start} {answers : Bool} {action : Action}

/-- A call of the supervisor was made. -/
structure Called (answers : Bool) (action : Action) (s₀ s : Server) : Prop where
  /-- There is a supervisor. -/
  supervisor : s₀.supervised = true
  /-- There still is. -/
  supervised : s.supervised = s₀.supervised
  /-- Another flash image is selected only while no emulator runs. -/
  flash : s.flash = s₀.flash ∨ s₀.isRunning = false
  /-- What the emulators were started with. -/
  spawns : Spawns s₀ s
  /-- The supervisor. -/
  power : ∃ start, s.power = (Supervisor.act start answers action s₀.power).2

/-- A power request sets the boot key before its call, and nothing else. -/
lemma off_setBootKey {body : PowerBody} :
    Proc.Keeps (Off false s₀) (setBootKey action body) := by
  have hset : ∀ {key : Option BootKey} {s : Server}, Off false s₀ s →
      Off false s₀ { s with bootKey := key } :=
    fun h => ⟨h.pump, h.supervised, h.runs, h.flash, h.power⟩
  intro s hs
  rw [setBootKey, Proc.get_bind]
  cases s.bootKey with
  | none => exact hs
  | some key =>
    cases action with
    | on =>
      match body with
      | .other => exact hs
      | .object none holdMs => exact hset hs
      | .object (some name) none => exact hset hs
      | .object (some name) (some holdMs) => exact hset (hset hs)
    | off => exact hset hs
    | reset => exact hset hs
    | pause => exact hset hs
    | resume => exact hset hs

/-- What `api_power` does when the call raises. -/
lemma actionFailed_eq {α : Type} (action : Action) (s : Server) :
    (actionFailed action : Proc Server Response α) s =
      (.error (refusal 503 (.actionFailed action s.power.isRunning)),
        { s with pump := s.power.client }) := rfl

/-- The end of a power request changes the power, and points the pump at the client there is then,
also when the call raises. -/
lemma perform_snd (action : Action) (answers : Bool) (start : Start) (s : Server) :
    (perform action answers start s).2 =
      { s.called (Supervisor.act (s.start start) answers action s.power).2 with
        pump := (Supervisor.act (s.start start) answers action s.power).2.client } := by
  have hstate := call_snd start answers action s
  cases hcall : call start answers action s with
  | mk r s' =>
    rw [hcall] at hstate
    subst hstate
    cases r with
    | ok b =>
      rw [perform, Proc.bind_of_ok (Proc.handle_of_ok hcall)]
      rfl
    | error e =>
      rw [perform, Proc.bind_of_error ((Proc.handle_of_error hcall).trans (actionFailed_eq ..))]
      rfl

/-- A power request that is carried out makes its call and points the pump at the client there is
then. -/
lemma perform_called (hsupervised : s₀.supervised = true) {s : Server} (h : Off false s₀ s) :
    Called answers action s₀ (perform action answers start s).2 ∧
      (perform action answers start s).2.pump = (perform action answers start s).2.power.client := by
  have hpower : s.power = s₀.power := h.power
  rw [perform_snd]
  refine ⟨⟨hsupervised, h.supervised, h.flash.imp_right (Or.resolve_left · Bool.false_ne_true), ?_,
    s.start start, ?_⟩, rfl⟩
  · have hspawns := spawns_called h.runs h.next
      (Supervisor.act (s.start start) answers action s.power).2
    exact ⟨hspawns.others, hspawns.next⟩
  · rw [← hpower]
    rfl

/-- **A power request** is refused, or it makes its call and points the pump at the client there is
then; to power off, the process has to be the supervisor's own.

**Proof sketch.** Along the tests of the handler. Before its call only the boot key has changed;
the call and the rebind are `perform_called`. -/
theorem apiPower_cases (action : Option Action) (body : PowerBody) (answers : Bool) (start : Start)
    (s₀ : Server) :
    Off false s₀ (apiPower action body answers start s₀).2 ∨
      ∃ a, (a = .off → s₀.power.ownsProcess = true) ∧
        Called answers a s₀ (apiPower action body answers start s₀).2 ∧
        (apiPower action body answers start s₀).2.pump =
          (apiPower action body answers start s₀).2.power.client := by
  rw [apiPower]
  cases action with
  | none => exact .inl off_self
  | some a =>
    rw [Proc.bind_of_ok (Proc.getOrRaise_eq_ok.mpr ⟨rfl, rfl⟩), Proc.get_bind]
    cases hsupervised : s₀.supervised with
    | false => exact .inl off_self
    | true =>
      rw [Proc.bind_of_ok (Proc.ofExcept_eq (require_of_true rfl))]
      cases howns : decide (a ≠ .off ∨ s₀.power.ownsProcess = true) with
      | false => exact .inl off_self
      | true =>
        rw [Proc.bind_of_ok (Proc.ofExcept_eq (require_of_true rfl))]
        have hkey : Off false s₀ (setBootKey a body s₀).2 := off_setBootKey s₀ off_self
        cases hset : setBootKey a body s₀ with
        | mk r s =>
          rw [hset] at hkey
          cases r with
          | error response =>
            rw [Proc.bind_of_error hset]
            exact .inl hkey
          | ok u =>
            rw [Proc.bind_of_ok hset]
            refine .inr ⟨a, fun hoff => ?_, perform_called hsupervised hkey⟩
            exact (of_decide_eq_true howns).resolve_left (not_not.mpr hoff)

end Power

end Uvk5.Web
