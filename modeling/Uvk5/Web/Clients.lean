import Uvk5.Web.PowerCycle

set_option relaxedAutoImplicit false
set_option autoImplicit false

/-!
# The client of the emulator over a run of requests

The supervisor's client may be that of an emulator somebody else started, and the pump draws what
the client of its grabber sees. This file says over which runs the adopted client stays, and over
which the pump follows the supervisor.

## Main definitions

* `Web.Flush` — how an emulator leaves the file of its flash.
* `Web.step` — a web request, an emulator that writes its flash, or a process that ends on its own.
* `Web.Restarts` — a request that cycles the power.
* `Web.stepCall`, `Web.Stops` — the same with calls of the supervisor.

## Main results

* `Web.pump_follows_iff` — the pump is at the client exactly while no request but a power request
  cycles the power.
* `Web.adopted_kept_iff` — an adopted emulator is left alone exactly while no request that cycles
  the power is accepted and `power_off` is not called.
-/

namespace Uvk5.Web

open Supervisor (Client Power Start Action)

/-- The emulator of a client has not ended. One that was adopted may still be there. -/
def emulates (s : Server) : Client → Bool
  | .launched pid => pid ∈ s.power.alive
  | .adopted _ => true

/-- How an emulator leaves the file it keeps its flash in, when it writes its flash back. -/
inductive Flush where
  /-- Bytes were written in place, and the file holds this now. -/
  | inPlace (data : List UInt8)
  /-- The file could not be opened. A temporary one was written, and renamed. -/
  | renamed (data : List UInt8)
  /-- The temporary file could not be written or renamed, and was removed. -/
  | removed
  deriving DecidableEq

/-- What the file holds then, if it has been written. -/
def Flush.data? : Flush → Option (List UInt8)
  | .inPlace data => some data
  | .renamed data => some data
  | .removed => none

/-- The disk then. -/
def Flush.write (flush : Flush) (path : Path) (d : Disk Path) : Disk Path :=
  match flush with
  | .inPlace data => d.put path (some data)
  | .renamed data => (d.put path.tmp none).put path (some data)
  | .removed => d.put path.tmp none

/-- The file holds what was written, or what it held. -/
lemma Flush.write_contents (flush : Flush) (path : Path) (d : Disk Path) :
    (flush.write path d).contents path = flush.data?.or (d.contents path) := by
  cases flush with
  | inPlace data => exact Disk.put_contents_self
  | renamed data => exact Disk.put_contents_self
  | removed => exact Disk.put_contents_of_ne path.tmp_ne.symm

/-- Nothing changes but the file, and the temporary one beside it. -/
lemma Flush.sameOutside_write (flush : Flush) (path : Path) (d : Disk Path) :
    Disk.SameOutside [path, path.tmp] d (flush.write path d) := by
  have hpath : path ∈ [path, path.tmp] := List.mem_cons_self
  have htmp : path.tmp ∈ [path, path.tmp] := List.mem_cons_of_mem _ List.mem_cons_self
  have hself : Disk.SameOutside [path, path.tmp] d d := fun _ _ => rfl
  cases flush with
  | inPlace data => exact hself.put hpath _
  | renamed data => exact (hself.put htmp _).put hpath _
  | removed => exact hself.put htmp _

/-- The same files can be written. -/
@[simp] lemma Flush.write_writable (flush : Flush) (path : Path) (d : Disk Path) :
    (flush.write path d).writable = d.writable := by
  cases flush <;> rfl

/-- The server after an emulator has written its flash back to the file it was started with. -/
def Server.flushed (s : Server) (client : Client) (flush : Flush) : Server :=
  if emulates s client then
    match (s.runs client).flashImage with
    | some path => { s with disk := flush.write path s.disk }
    | none => s
  else s

/-- Nothing but the disk changes. -/
lemma Server.flushed_eq (s : Server) (client : Client) (flush : Flush) :
    ∃ disk, s.flushed client flush = { s with disk := disk } := by
  rw [Server.flushed]
  split
  · split
    · exact ⟨_, rfl⟩
    · exact ⟨s.disk, rfl⟩
  · exact ⟨s.disk, rfl⟩

/-- What can happen to the server. -/
inductive Event where
  /-- A request, and how a launch ends if it makes one. -/
  | request (request : Request) (start : Start)
  /-- An emulator writes its flash back to its file. What it writes when a request stops it counts
  as written before that request. -/
  | flushes (client : Client) (flush : Flush)
  /-- A process ends on its own. -/
  | exits (pid : ℕ)
  deriving DecidableEq

/-- One step. -/
def step (s : Server) : Event → Server
  | .request request start => (serve request start s).2
  | .flushes client flush => s.flushed client flush
  | .exits pid => { s with power := s.power.dies (some pid) }

/-- What a step does: it cycles the power, it makes a call, or it leaves the client and the pump
alone. -/
lemma step_request (request : Request) (start : Start) (s : Server) :
    Cycled (request.accepted s && s.isRunning) s (step s (.request request start)) ∨
      request.accepted s = false ∧ ∃ a answers, (a = .off → s.power.ownsProcess = true) ∧
        Called answers a s (step s (.request request start)) ∧
        (step s (.request request start)).pump = (step s (.request request start)).power.client := by
  cases request with
  | power action body answers =>
    rw [step, serve, respond_snd]
    rcases apiPower_cases action body answers start s with hoff | ⟨a, howns, hcalled, hpump⟩
    · exact .inl hoff.cycled
    · exact .inr ⟨rfl, a, answers, howns, hcalled, hpump⟩
  | firmware arg header data => exact .inl (serve_cycled start s fun _ _ _ hreq => by cases hreq)
  | edit e => exact .inl (serve_cycled start s fun _ _ _ hreq => by cases hreq)
  | flash arg header data => exact .inl (serve_cycled start s fun _ _ _ hreq => by cases hreq)

/-- A cycle ends without the client it began with. -/
lemma Cycled.client {s s' : Server} (h : Cycled true s s') :
    s'.power.client = none ∨ s'.power.client = some (.launched s.power.next) := by
  rcases h.power with hpower | ⟨-, start, hpower⟩
  · rw [hpower, if_pos rfl]
    exact .inl (Supervisor.powerOff_client _)
  · rw [hpower, ← Supervisor.powerOff_next]
    exact Supervisor.powerOn_client start (Supervisor.powerOff_client _)

/-- Without a cycle the supervisor is left alone. -/
lemma Cycled.kept {s s' : Server} (h : Cycled false s s') : s'.power = s.power := by
  rcases h.power with hpower | ⟨hb, -⟩
  · exact hpower
  · cases hb

/-! ## The pump -/

/-- A request that cycles the power. -/
def Restarts (s : Server) : Event → Bool
  | .request request _ => request.accepted s && s.isRunning
  | .flushes .. => false
  | .exits _ => false

/-- The server as it is created: the pump is at the supervisor's client. -/
structure Created (s : Server) : Prop where
  /-- It has a supervisor. -/
  supervised : s.supervised = true
  /-- `FramePump(supervisor.client(), …)`. -/
  pump : s.pump = s.power.client
  /-- The processes are numbered. -/
  numbered : Supervisor.Numbered s.power

/-- A step that does not cycle the power leaves the pump at the client. -/
lemma created_step {s : Server} {e : Event} (hs : Created s) (he : Restarts s e = false) :
    Created (step s e) := by
  cases e with
  | exits pid => exact ⟨hs.supervised, hs.pump, hs.numbered⟩
  | flushes client flush =>
    obtain ⟨disk, hflushed⟩ := s.flushed_eq client flush
    rw [step, hflushed]
    exact ⟨hs.supervised, hs.pump, hs.numbered⟩
  | request request start =>
    rcases step_request request start s with hcycled | ⟨-, a, answers, -, hcalled, hpump⟩
    · rw [Restarts] at he
      rw [he] at hcycled
      have hpower := hcycled.kept
      refine ⟨hcycled.supervised.trans hs.supervised, hcycled.pump.trans ?_, ?_⟩
      · rw [hs.pump, hpower]
      · rw [hpower]
        exact hs.numbered
    · obtain ⟨start', hpower⟩ := hcalled.power
      refine ⟨hcalled.supervised.trans hs.supervised, hpump, ?_⟩
      rw [hpower]
      exact Supervisor.numbered_act hs.numbered

/-- A step that cycles the power leaves the pump at the client there was before. -/
lemma pump_behind {s : Server} {e : Event} (hs : Created s) (he : Restarts s e = true) :
    (step s e).pump ≠ (step s e).power.client := by
  cases e with
  | exits pid => cases he
  | flushes client flush => cases he
  | request request start =>
    rw [Restarts, Bool.and_eq_true] at he
    obtain ⟨haccepted, hrunning⟩ := he
    rcases step_request request start s with hcycled | ⟨hrefused, -⟩
    · rw [haccepted, hrunning, Bool.true_and] at hcycled
      rw [Server.isRunning, Power.isRunning, Bool.and_eq_true, Bool.and_eq_true] at hrunning
      obtain ⟨client, hclient⟩ := Option.isSome_iff_exists.mp hrunning.2.1
      rw [hcycled.pump, hs.pump, hclient]
      intro hsame
      rcases hcycled.client with hnone | hnew
      · rw [hnone] at hsame
        cases hsame
      · rw [hnew] at hsame
        rw [hsame] at hclient
        exact absurd (hs.numbered _ hclient) (Nat.lt_irrefl _)
    · rw [haccepted] at hrefused
      cases hrefused

/-- **The screen follows the emulator** over exactly the runs in which no firmware upload, flash
edit or flash upload is accepted while the emulator runs.

**Proof sketch.** A power request ends with `pump.rebind`. A request that cycles the power puts
another client in place of the one the pump has, or none; the numbers of the processes tell the new
client from the old one. -/
theorem pump_follows_iff {s : Server} (hs : Created s) (events : List Event) :
    Run.AllStates step (fun s => s.pump = s.power.client) s events ↔
      Run.AllSteps step (fun s e => Restarts s e = false) s events :=
  Run.allStates_iff_allSteps (fun _ h => h.pump) (fun _ _ h he => created_step h he)
    (fun _ _ h he => pump_behind h (Bool.not_eq_false _ ▸ he)) events s hs

/-- A server with an emulator it launched. -/
def managed : Server where
  supervised := true
  power := { client := some (.launched 0), proc := some 0, alive := [0], next := 1, quits := [] }
  pump := some (.launched 0)
  imageControl := true
  image := some ⟨.other "old.elf", ⟨.elf, 0x2800, 4, none⟩⟩
  flash := some (.other "flash.img")
  bootKey := some ⟨none, 1500⟩
  environ := ⟨none, none⟩
  uploadDir := true
  disk := ⟨fun path =>
    if path = .other "flash.img" then some [0xff]
    else if path = .other "old.elf" then some [0x7f, 0x45, 0x4c, 0x46, 0x01] else none, fun _ => true⟩
  runs := fun _ => ⟨some [0x7f, 0x45, 0x4c, 0x46, 0x01], some (.other "flash.img")⟩

/-- The server of the example was created so. -/
lemma created_managed : Created managed :=
  ⟨rfl, rfl, fun pid h => by cases h; decide⟩

/-- An ELF image is uploaded while the emulator is off, and booted. -/
theorem pump_follows_upload_off :
    Created managed ∧ Run.AllStates step (fun s => s.pump = s.power.client) managed
      [.request (.power (some .off) (.object none (some 1500)) true) .connected,
        .request (.firmware (some "fw.elf") none [0x7f, 0x45, 0x4c, 0x46]) .connected,
        .request (.power (some .on) (.object none (some 1500)) true) .connected] :=
  ⟨created_managed, (pump_follows_iff created_managed _).mpr (by decide)⟩

/-- An ELF image is uploaded while the emulator runs: the emulator is started with it, and the pump
stays at the client of the process that was stopped. -/
theorem pump_behind_upload :
    ¬ ∀ s, Created s → ∀ events, Run.AllStates step (fun s => s.pump = s.power.client) s events := by
  intro h
  have hrun := (h managed created_managed
    [.request (.firmware (some "fw.elf") none [0x7f, 0x45, 0x4c, 0x46]) .connected]).last
  exact absurd hrun (by decide +kernel)

/-! ## An adopted emulator -/

/-- What can happen to an emulator that was adopted. -/
inductive Act where
  /-- A request, or a process that ends. -/
  | web (event : Event)
  /-- A call of the supervisor. -/
  | call (action : Action) (start : Start) (answers : Bool)
  deriving DecidableEq

/-- One step, with calls of the supervisor. -/
def stepCall (s : Server) : Act → Server
  | .web event => step s event
  | .call action start answers => (call start answers action s).2

/-- A step that comes to `power_off`, when there is a client of an adopted emulator. -/
def Stops (s : Server) : Act → Bool
  | .web (.request request _) => s.supervised && request.accepted s
  | .web (.flushes ..) => false
  | .web (.exits _) => false
  | .call action _ _ => action = .off

/-- The client is the adopted one, and has been sent `quit` as often as `n`. -/
structure Adopted (id n : ℕ) (s : Server) : Prop where
  /-- `_client`. -/
  client : s.power.client = some (.adopted id)
  /-- `_proc`. -/
  proc : s.power.proc = none
  /-- The commands sent to it. -/
  quits : s.power.quits.count (.adopted id) = n

section Adopted

variable {id n : ℕ} {s : Server}

/-- With an adopted client the emulator runs. -/
lemma Adopted.isRunning (h : Adopted id n s) : s.power.isRunning = true := by
  rw [Power.isRunning, Power.exited, h.client, h.proc]
  rfl

/-- A step that does not come to `power_off` leaves the adopted emulator alone. -/
lemma adopted_stepCall {a : Act} (hs : Adopted id n s) (ha : Stops s a = false) :
    Adopted id n (stepCall s a) := by
  have hsame : ∀ {s' : Server}, s'.power = s.power → Adopted id n s' := by
    intro s' hpower
    exact ⟨hpower ▸ hs.client, hpower ▸ hs.proc, hpower ▸ hs.quits⟩
  match a with
  | .web (.exits pid) => exact ⟨hs.client, hs.proc, hs.quits⟩
  | .web (.flushes client flush) =>
    obtain ⟨disk, hflushed⟩ := s.flushed_eq client flush
    refine hsame ?_
    rw [stepCall, step, hflushed]
  | .call action start answers =>
    refine hsame ?_
    rw [stepCall, call_snd, Server.called_power]
    exact Supervisor.act_of_running (of_decide_eq_false ha) hs.isRunning
  | .web (.request request start) =>
    refine hsame ?_
    rcases step_request request start s with hcycled | ⟨-, action, answers, howns, hcalled, -⟩
    · rw [Server.isRunning, hs.isRunning, Bool.and_true, Bool.and_comm] at hcycled
      rw [Stops] at ha
      rw [ha] at hcycled
      exact hcycled.kept
    · obtain ⟨start', hpower⟩ := hcalled.power
      have hoff : action ≠ .off := by
        intro hoff
        have hown := howns hoff
        rw [Power.ownsProcess, hs.proc] at hown
        cases hown
      rw [stepCall, hpower]
      exact Supervisor.act_of_running hoff hs.isRunning

/-- A step that comes to `power_off` clears the adopted client. -/
lemma cleared_stepCall {a : Act} (hs : Adopted id n s) (ha : Stops s a = true) :
    (stepCall s a).power.client ≠ some (.adopted id) := by
  match a with
  | .web (.exits pid) => cases ha
  | .web (.flushes client flush) => cases ha
  | .call action start answers =>
    obtain rfl : action = .off := of_decide_eq_true ha
    have hnone : (stepCall s (.call .off start answers)).power.client = none := by
      rw [stepCall, call_snd]
      exact Supervisor.powerOff_client s.power
    rw [hnone]
    exact nofun
  | .web (.request request start) =>
    rw [Stops, Bool.and_eq_true] at ha
    rcases step_request request start s with hcycled | ⟨hrefused, -⟩
    · rw [Server.isRunning, hs.isRunning, ha.1, ha.2] at hcycled
      rw [stepCall]
      rcases hcycled.client with hnone | hnew
      · rw [hnone]
        exact nofun
      · rw [hnew]
        exact nofun
    · rw [ha.2] at hrefused
      cases hrefused

end Adopted

/-- **An adopted emulator is left alone** over exactly the runs in which `power_off` is not called
and no firmware upload, flash edit or flash upload is accepted.

**Proof sketch.** An adopted emulator counts as running and has no process. So a power request may
not power it off, and any other call finds the client and leaves it; but a request that is accepted
powers off whatever runs, without asking whose it is. -/
theorem adopted_kept_iff (s : Server) (id : ℕ) (acts : List Act) :
    Run.AllStates stepCall
        (fun s' => s'.power.client = some (.adopted id) ∧
          s'.power.quits.count (.adopted id) = s.power.quits.count (.adopted id))
        { s with power := s.power.adopt (.adopted id) } acts ↔
      Run.AllSteps stepCall (fun s' a => Stops s' a = false)
        { s with power := s.power.adopt (.adopted id) } acts :=
  Run.allStates_iff_allSteps (I := Adopted id (s.power.quits.count (.adopted id)))
    (fun _ h => ⟨h.client, h.quits⟩) (fun _ _ h ha => adopted_stepCall h ha)
    (fun _ _ h ha hstays => cleared_stepCall h (Bool.not_eq_false _ ▸ ha) hstays.1) acts _
    ⟨rfl, rfl, rfl⟩

/-- A server without an emulator yet. -/
def unmanaged : Server := { managed with power := .initial, pump := none }

/-- An app slot is erased on a server that adopted an emulator: the emulator is sent `quit`. -/
theorem adopted_stopped_by_edit :
    ¬ ∀ (s : Server) (id : ℕ) (acts : List Act), Run.AllStates stepCall
        (fun s' => s'.power.client = some (.adopted id) ∧
          s'.power.quits.count (.adopted id) = s.power.quits.count (.adopted id))
        { s with power := s.power.adopt (.adopted id) } acts := by
  intro h
  have hrun := (h unmanaged 0 [.web (.request (.edit (.appErase 0)) .connected)]).last
  exact absurd hrun.2 (by decide)

end Uvk5.Web
