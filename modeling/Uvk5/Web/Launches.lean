import Uvk5.Web.Clients

set_option relaxedAutoImplicit false
set_option autoImplicit false

/-!
# What the emulator is launched with

The launcher reads the image, the flash image and the boot key when it spawns the process, and hands
them to the emulator on the command line and in its environment, which is otherwise the server's
own. A boot key is asked for by a request to power on. It is dropped by the next power request that
does not ask for one, but by no other request, and other requests launch the emulator too.

## Main definitions

* `Web.Env`, `Web.Server.env` — what `default_launcher` hands to the emulator.
* `Web.Launch`, `Web.History` — the launches of a run.

## Main results

* `Web.serve_bootKey` — only power requests change the boot key.
* `Web.bootKey_oneShot_iff` — the emulator is launched with a boot key only by the request that
  asked for it exactly if no other request launches it while a boot key is set or inherited.
-/

namespace Uvk5.Web

open Supervisor (Client Power Start Action)

/-- What the emulator is launched with. -/
structure Env where
  /-- `-kernel`. -/
  kernel : Option Path
  /-- `UVK5_FLASH_IMAGE`. -/
  flashImage : Option Path
  /-- `UVK5_BOOT_KEY` and `UVK5_BOOT_KEY_MS`. -/
  bootVars : BootVars
  deriving DecidableEq

/-- The boot key that is set, with how long it is held. -/
def Server.named (s : Server) : Option (String × ℤ) :=
  s.bootKey.bind fun key =>
    match key.name with
    | none => none
    | some name => if name = "" then none else some (name, key.holdMs)

/-- What `launch` of `default_launcher` reads. The environment begins as a copy of the server's. -/
def Server.env (s : Server) : Env where
  kernel := s.image.map ImageInfo.path
  flashImage := s.flash
  bootVars :=
    match s.named with
    | some (name, holdMs) => ⟨some name, some (toString holdMs)⟩
    | none => s.environ

/-- A launch, and the request whose handler made it. -/
structure Launch where
  /-- The process. -/
  pid : ℕ
  /-- What it was launched with. -/
  env : Env
  /-- The request. -/
  request : Request
  deriving DecidableEq

/-- The server, and the launches so far. -/
structure History where
  /-- The server. -/
  server : Server
  /-- The launches. -/
  launches : List Launch

/-- The request launches a process. -/
def Launches (s : Server) (request : Request) (start : Start) : Prop :=
  (serve request start s).2.power.next ≠ s.power.next

instance (s : Server) (request : Request) (start : Start) : Decidable (Launches s request start) :=
  inferInstanceAs (Decidable (_ ≠ _))

/-- One step. A handler that launches the emulator does not change what the launcher reads
afterwards, so it is read from what the handler leaves. -/
def History.step (h : History) : Event → History
  | .exits pid => { h with server := Web.step h.server (.exits pid) }
  | .flushes client flush => { h with server := Web.step h.server (.flushes client flush) }
  | .request request start =>
    let server := (serve request start h.server).2
    { server := server
      launches := if Launches h.server request start then
          ⟨h.server.power.next, server.env, request⟩ :: h.launches
        else h.launches }

/-- The request powers on, and its body names a boot key. -/
def Request.AsksBootKey (request : Request) : Prop :=
  ∃ name holdMs answers, request = .power (some .on) (.object (some name) holdMs) answers

/-- A launch with a boot key was made by the request that asked for it. -/
def Launch.OneShot (l : Launch) : Prop :=
  l.env.bootVars.key.isSome = true → l.request.AsksBootKey

/-! ## The boot key over a request -/

section BootKey

variable {key : Option BootKey × BootVars}

/-- The boot key is what it was, and so is the server's environment. -/
def HasKey (key : Option BootKey × BootVars) (s : Server) : Prop := (s.bootKey, s.environ) = key

/-- A result that is known leaves the boot key. -/
lemma hasKey_ofExcept {ε α : Type} {r : Except ε α} :
    Proc.Keeps (HasKey key) (Proc.ofExcept r) := fun _ h => h

/-- What is done to the files leaves the boot key. -/
lemma hasKey_onDisk {α : Type} {p : Proc (Disk Path) EditError α} :
    Proc.Keeps (HasKey key) (onDisk p) := fun _ h => h

/-- Turning errors into answers leaves the boot key to the program. -/
lemma hasKey_orAnswer {α : Type} {status : ℕ} {p : Proc Server Exc α}
    (hp : Proc.Keeps (HasKey key) p) : Proc.Keeps (HasKey key) (orAnswer status p) :=
  Proc.Triple.mapError _ hp

/-- A program that may be skipped leaves the boot key, if it does so when run. -/
lemma hasKey_onlyIf {ε : Type} {b : Bool} {p : Proc Server ε Unit}
    (hp : Proc.Keeps (HasKey key) p) : Proc.Keeps (HasKey key) (Proc.onlyIf b p) := by
  rw [Proc.onlyIf]
  split
  · exact hp
  · exact Proc.Keeps.pure

/-- Powering off leaves the boot key. -/
lemma hasKey_powerOff {ε : Type} : Proc.Keeps (HasKey key) (powerOff : Proc Server ε Unit) :=
  fun _ h => h

/-- A call to the emulator leaves the boot key. -/
lemma hasKey_call {start : Start} {answers : Bool} {action : Action} :
    Proc.Keeps (HasKey key) (call start answers action) := by
  intro s h
  rw [call_snd]
  exact h

/-- Powering on leaves the boot key. -/
lemma hasKey_powerOn {start : Start} : Proc.Keeps (HasKey key) (powerOn start) :=
  hasKey_call.bind fun _ => Proc.Keeps.pure

/-- An edit of the flash image leaves the boot key. -/
lemma hasKey_editFlash {α : Type} {edit : Path → Proc (Disk Path) EditError α} {start : Start} :
    Proc.Keeps (HasKey key) (editFlash edit start) := by
  unfold editFlash editCopy
  refine Proc.Keeps.get.bind fun s => Proc.Keeps.getOrRaise.bind fun flash => ?_
  refine hasKey_ofExcept.bind fun _ => (hasKey_onlyIf hasKey_powerOff).bind fun _ => ?_
  refine Proc.Keeps.bind ?_ fun result =>
    (hasKey_onlyIf hasKey_powerOn).bind fun _ => Proc.Keeps.pure
  refine Proc.Keeps.bind (hasKey_onlyIf ?_) fun _ => hasKey_onDisk
  exact hasKey_onDisk.bind fun _ _ h => h

/-- The handler of an edit leaves the boot key, if its answer does. -/
lemma hasKey_apiEdit {α : Type} {checks : Except Response Unit}
    {edit : Path → Proc (Disk Path) EditError α} {answer : α → Handler} {start : Start}
    (hanswer : ∀ a, Proc.Keeps (HasKey key) (answer a)) :
    Proc.Keeps (HasKey key) (apiEdit checks edit answer start) :=
  hasKey_ofExcept.bind fun _ => (hasKey_orAnswer hasKey_editFlash).bind hanswer

/-- Listing the applications leaves the boot key. -/
lemma hasKey_appTable : Proc.Keeps (HasKey key) appTable :=
  Proc.Keeps.get.bind fun _ => Proc.Keeps.getOrRaise.bind fun _ => hasKey_orAnswer hasKey_onDisk

/-- Every edit of a slot or an application leaves the boot key. -/
lemma hasKey_edit (e : Edit) (start : Start) : Proc.Keeps (HasKey key) (e.handler start) := by
  cases e with
  | slotWrite slot data arg header version => exact hasKey_apiEdit fun _ => Proc.Keeps.pure
  | slotErase slot => exact hasKey_apiEdit fun _ => Proc.Keeps.pure
  | appInstall slot data force =>
    exact hasKey_apiEdit fun _ => hasKey_appTable.bind fun _ => Proc.Keeps.pure
  | appErase slot =>
    exact hasKey_apiEdit fun _ => hasKey_appTable.bind fun _ => Proc.Keeps.pure

/-- A firmware upload leaves the boot key. -/
lemma hasKey_firmware (arg header : Option String) (data : List UInt8) (start : Start) :
    Proc.Keeps (HasKey key) (apiFirmwareUpload arg header data start) := by
  unfold apiFirmwareUpload receiveFirmware loadFirmware
  refine Proc.Keeps.bind ?_ fun info => ?_
  · refine Proc.Keeps.get.bind fun s => hasKey_ofExcept.bind fun _ => ?_
    refine hasKey_ofExcept.bind fun _ => (hasKey_orAnswer hasKey_ofExcept).bind fun _ => ?_
    refine (hasKey_orAnswer hasKey_onDisk).bind fun _ => ?_
    refine Proc.Keeps.get.bind fun s' => ?_
    split
    · exact Proc.Keeps.raise
    · exact Proc.Keeps.pure
  · refine Proc.Keeps.get.bind fun s => (hasKey_onlyIf hasKey_powerOff).bind fun _ => ?_
    refine Proc.Keeps.bind (fun _ h => h) fun _ => ?_
    exact (hasKey_onlyIf (Proc.Triple.mapError _ hasKey_powerOn)).bind fun _ => Proc.Keeps.pure

/-- A flash upload leaves the boot key. -/
lemma hasKey_flash (arg header : Option String) (data : List UInt8) (start : Start) :
    Proc.Keeps (HasKey key) (apiFlashUpload arg header data start) := by
  unfold apiFlashUpload
  refine Proc.Keeps.get.bind fun s => Proc.Keeps.getOrRaise.bind fun _ => ?_
  refine hasKey_ofExcept.bind fun _ => (hasKey_onlyIf hasKey_powerOff).bind fun _ => ?_
  refine (hasKey_orAnswer hasKey_ofExcept).bind fun _ => ?_
  refine (hasKey_orAnswer hasKey_onDisk).bind fun _ => Proc.Keeps.bind (fun _ h => h) fun _ => ?_
  refine (hasKey_onlyIf (hasKey_orAnswer hasKey_powerOn)).bind fun _ => ?_
  exact (hasKey_orAnswer hasKey_onDisk).bind fun _ => Proc.Keeps.pure

end BootKey

/-- The request is a power request. -/
def Request.IsPower (request : Request) : Prop :=
  ∃ action body answers, request = .power action body answers

/-- **Only power requests change the boot key**, and none the server's environment. -/
theorem serve_bootKey {request : Request} (start : Start) (s : Server) (h : ¬ request.IsPower) :
    (serve request start s).2.bootKey = s.bootKey ∧
      (serve request start s).2.environ = s.environ := by
  rw [serve, respond_snd, ← Prod.mk.injEq]
  cases request with
  | power action body answers => exact absurd ⟨action, body, answers, rfl⟩ h
  | firmware arg header data => exact hasKey_firmware arg header data start s rfl
  | edit e => exact hasKey_edit e start s rfl
  | flash arg header data => exact hasKey_flash arg header data start s rfl

/-! ## Power requests -/

/-- There is no boot key, or it has no name. -/
def Unnamed (s : Server) : Prop := s.bootKey.bind BootKey.name = none

/-- What a power request does to the boot key before its call: it sets the one its body names, or
leaves none. It touches neither the supervisor nor the server's environment. -/
lemma setBootKey_cases (action : Action) (body : PowerBody) (s : Server) :
    ((setBootKey action body s).2.power = s.power ∧
        (setBootKey action body s).2.environ = s.environ) ∧
      ((∃ response, (setBootKey action body s).1 = .error response) ∨
        (action = .on ∧ ∃ name holdMs, body = .object (some name) holdMs) ∨
        Unnamed (setBootKey action body s).2) := by
  rw [setBootKey, Proc.get_bind]
  cases hkey : s.bootKey with
  | none =>
    exact ⟨⟨rfl, rfl⟩, .inr (.inr (by rw [Unnamed]; exact congrArg (·.bind BootKey.name) hkey))⟩
  | some key =>
    cases action with
    | on =>
      cases body with
      | other => exact ⟨⟨rfl, rfl⟩, .inl ⟨_, rfl⟩⟩
      | object name holdMs =>
        cases name with
        | none => exact ⟨⟨rfl, rfl⟩, .inr (.inr rfl)⟩
        | some name =>
          cases holdMs with
          | none => exact ⟨⟨rfl, rfl⟩, .inl ⟨_, rfl⟩⟩
          | some holdMs => exact ⟨⟨rfl, rfl⟩, .inr (.inl ⟨rfl, name, some holdMs, rfl⟩)⟩
    | off => exact ⟨⟨rfl, rfl⟩, .inr (.inr rfl)⟩
    | reset => exact ⟨⟨rfl, rfl⟩, .inr (.inr rfl)⟩
    | pause => exact ⟨⟨rfl, rfl⟩, .inr (.inr rfl)⟩
    | resume => exact ⟨⟨rfl, rfl⟩, .inr (.inr rfl)⟩

/-- The call of a power request, and what comes after it, leave the boot key. -/
lemma hasKey_perform {key : Option BootKey × BootVars} {action : Action} {answers : Bool}
    {start : Start} : Proc.Keeps (HasKey key) (perform action answers start) := by
  intro s h
  rw [perform_snd]
  exact h

/-- **A power request that launches the emulator** names a boot key itself, or leaves none set. In
either case the server's environment is as it was.

**Proof sketch.** The request passes all tests of the handler, since a refused one launches
nothing. By `setBootKey_cases` the name is then the one of the body or none, and the call of the
supervisor leaves it. -/
theorem power_launch {action : Option Action} {body : PowerBody} {answers : Bool} {start : Start}
    {s : Server} (h : Launches s (.power action body answers) start) :
    ((Request.power action body answers).AsksBootKey ∨
        Unnamed (serve (.power action body answers) start s).2) ∧
      (serve (.power action body answers) start s).2.environ = s.environ := by
  have hserve : (serve (.power action body answers) start s).2 =
      (apiPower action body answers start s).2 := respond_snd _ s
  rw [Launches, hserve] at h
  rw [hserve]
  rw [apiPower] at h ⊢
  cases action with
  | none => exact absurd rfl h
  | some a =>
    rw [Proc.bind_of_ok (Proc.getOrRaise_eq_ok.mpr ⟨rfl, rfl⟩), Proc.get_bind] at h ⊢
    cases hsupervised : s.supervised with
    | false =>
      rw [hsupervised] at h
      exact absurd rfl h
    | true =>
      rw [hsupervised] at h
      rw [Proc.bind_of_ok (Proc.ofExcept_eq (require_of_true rfl))] at h ⊢
      cases howns : decide (a ≠ .off ∨ s.power.ownsProcess = true) with
      | false =>
        rw [howns] at h
        exact absurd rfl h
      | true =>
        rw [howns] at h
        rw [Proc.bind_of_ok (Proc.ofExcept_eq (require_of_true rfl))] at h ⊢
        obtain ⟨⟨hpower, henviron⟩, hcases⟩ := setBootKey_cases a body s
        cases hset : setBootKey a body s with
        | mk r s₁ =>
          rw [hset] at hpower henviron hcases
          cases r with
          | error response =>
            rw [Proc.bind_of_error hset] at h
            exact absurd (congrArg Power.next hpower) h
          | ok u =>
            rw [Proc.bind_of_ok hset]
            have hkept : HasKey (s₁.bootKey, s₁.environ) (perform a answers start s₁).2 :=
              hasKey_perform s₁ rfl
            obtain ⟨hkey, henv⟩ := Prod.mk.inj hkept
            refine ⟨?_, henv.trans henviron⟩
            rcases hcases with ⟨response, herror⟩ | ⟨rfl, name, holdMs, rfl⟩ | hunnamed
            · cases herror
            · exact .inl ⟨name, holdMs, answers, rfl⟩
            · refine .inr ?_
              rw [Unnamed, hkey]
              exact hunnamed

/-! ## Over a run -/

/-- Without a name there is no boot key. -/
lemma named_of_unnamed {s : Server} (h : Unnamed s) : s.named = none := by
  rw [Unnamed] at h
  rw [Server.named]
  cases hkey : s.bootKey with
  | none => rfl
  | some key =>
    rw [hkey, Option.bind_some] at h
    rw [Option.bind_some, h]

/-- The emulator is launched without a boot key exactly if none is set and none is inherited. -/
lemma env_key_eq_none_iff {s : Server} :
    s.env.bootVars.key = none ↔ s.named = none ∧ s.environ.key = none := by
  rw [Server.env]
  cases s.named with
  | none => simp
  | some named => simp

/-- No request launches the emulator with a boot key it did not ask for: the server's environment has
none, and none is set, unless the request is a power request, which drops it. -/
def Unarmed (h : History) : Event → Prop
  | .request request start =>
    Launches h.server request start → ¬ request.AsksBootKey →
      h.server.environ.key = none ∧ (¬ request.IsPower → h.server.named = none)
  | _ => True

/-- The emulator is launched with a boot key by a request that did not ask for it exactly if it is
armed. -/
lemma oneShot_iff_unarmed {h : History} {request : Request} {start : Start}
    (hlaunch : Launches h.server request start) :
    (Launch.mk h.server.power.next (serve request start h.server).2.env request).OneShot ↔
      Unarmed h (.request request start) := by
  have hkey : (serve request start h.server).2.env.bootVars.key = none ∨ request.AsksBootKey ↔
      request.AsksBootKey ∨
        h.server.environ.key = none ∧ (¬ request.IsPower → h.server.named = none) := by
    rw [env_key_eq_none_iff]
    by_cases hasks : request.AsksBootKey
    · simp [hasks]
    · by_cases hpower : request.IsPower
      · obtain ⟨action, body, answers, rfl⟩ := hpower
        obtain ⟨hcases, henviron⟩ := power_launch hlaunch
        have hnamed := named_of_unnamed (hcases.resolve_left hasks)
        have hpower : (Request.power action body answers).IsPower := ⟨action, body, answers, rfl⟩
        simp [hasks, hnamed, henviron, hpower]
      · obtain ⟨hbootKey, henviron⟩ := serve_bootKey start h.server hpower
        have hnamed : (serve request start h.server).2.named = h.server.named := by
          rw [Server.named, Server.named, hbootKey]
        simp [hasks, hnamed, henviron, hpower, and_comm]
  rw [Launch.OneShot, Unarmed, Option.isSome_iff_ne_none]
  constructor
  · intro honce _ hasks
    by_cases hnone : (serve request start h.server).2.env.bootVars.key = none
    · exact (hkey.mp (.inl hnone)).resolve_left hasks
    · exact absurd (honce hnone) hasks
  · intro hunarmed hsome
    by_contra hasks
    exact hsome ((hkey.mpr (.inr (hunarmed hlaunch hasks))).resolve_right hasks)

/-- Every launch so far with a boot key was made by the request that names it. -/
def History.OneShot (h : History) : Prop := ∀ l ∈ h.launches, l.OneShot

/-- The launches after a request. -/
lemma launches_step (h : History) (request : Request) (start : Start) :
    (h.step (.request request start)).launches =
      if Launches h.server request start then
        ⟨h.server.power.next, (serve request start h.server).2.env, request⟩ :: h.launches
      else h.launches := rfl

/-- A step that is unarmed launches with no boot key that was not asked for. -/
lemma oneShot_step {h : History} {e : Event} (honce : h.OneShot) (hunarmed : Unarmed h e) :
    (h.step e).OneShot := by
  cases e with
  | exits pid => exact honce
  | flushes client flush => exact honce
  | request request start =>
    intro l hl
    rw [launches_step] at hl
    by_cases hlaunch : Launches h.server request start
    · rw [if_pos hlaunch] at hl
      rcases List.mem_cons.mp hl with rfl | hold
      · exact (oneShot_iff_unarmed hlaunch).mpr hunarmed
      · exact honce l hold
    · rw [if_neg hlaunch] at hl
      exact honce l hl

/-- Any other step makes such a launch. -/
lemma not_oneShot_step {h : History} {e : Event} (harmed : ¬ Unarmed h e) :
    ¬ (h.step e).OneShot := by
  cases e with
  | exits pid => exact absurd trivial harmed
  | flushes client flush => exact absurd trivial harmed
  | request request start =>
    intro honce
    have hlaunch : Launches h.server request start := by
      by_contra hnone
      exact harmed fun hlaunch => absurd hlaunch hnone
    have hmem : Launch.mk h.server.power.next (serve request start h.server).2.env request ∈
        (h.step (.request request start)).launches := by
      rw [launches_step, if_pos hlaunch]
      exact List.mem_cons_self
    exact harmed ((oneShot_iff_unarmed hlaunch).mp (honce _ hmem))

/-- **A boot key lasts for one launch, exactly if no other request launches meanwhile.** In every
run from any server, every launch with a boot key is made by the request that names it exactly if
no request that names none launches the emulator while the server's environment has one, and no
firmware upload, edit or flash upload launches it while one is set.

**Proof sketch.** A launch is recorded with the environment of the launcher. A power request names
its key or leaves none set (`power_launch`), and then only the server's own environment can have
one; any other request leaves the key that is set. -/
theorem bootKey_oneShot_iff (s : Server) (events : List Event) :
    Run.AllStates History.step History.OneShot ⟨s, []⟩ events ↔
      Run.AllSteps History.step Unarmed ⟨s, []⟩ events :=
  Run.allStates_iff_allSteps (fun _ h => h) (fun _ _ honce hunarmed => oneShot_step honce hunarmed)
    (fun _ _ _ harmed => not_oneShot_step harmed) events _ (fun _ hl => absurd hl List.not_mem_nil)

/-- A firmware upload restarts the emulator with the boot key of the power request before it. -/
theorem bootKey_of_firmware_upload :
    ¬ ∀ (s : Server) (events : List Event),
      Run.AllStates History.step History.OneShot ⟨s, []⟩ events := by
  intro h
  have hrun := (h managed
    [.request (.power (some .off) (.object none (some 1500)) true) .connected,
      .request (.power (some .on) (.object (some "MENU") (some 1500)) true) .connected,
      .request (.firmware (some "fw.elf") none [0x7f, 0x45, 0x4c, 0x46]) .connected]).last
  have hlaunch := hrun
    ⟨2, ⟨some (.upload "fw.elf"), some (.other "flash.img"), ⟨some "MENU", some "1500"⟩⟩,
      .firmware (some "fw.elf") none [0x7f, 0x45, 0x4c, 0x46]⟩ (by decide +kernel) rfl
  obtain ⟨name, holdMs, answers, heq⟩ := hlaunch
  cases heq

end Uvk5.Web
