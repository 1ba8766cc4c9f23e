import Mathlib.Data.List.Basic

set_option relaxedAutoImplicit false
set_option autoImplicit false

/-!
# The supervisor (`tools/uvk5_supervisor.py`)

The supervisor launches the emulator and stops it. It holds a QMP client, and the process if it
launched one; a client of an emulator somebody else started is adopted, without a process.

## Main definitions

* `Supervisor.Power` — the client and the process the supervisor holds, and the processes it
  launched.
* `Supervisor.Power.discardExited`, `Supervisor.Power.launch`, `Supervisor.Power.connected`,
  `Supervisor.Power.abandon`, `Supervisor.Power.release`, `Supervisor.Power.stop` — the parts of
  `power_on` and `power_off`.
* `Supervisor.powerOn`, `Supervisor.powerOff` — a call from beginning to end.
* `Supervisor.act` — any of the calls.
-/

namespace Uvk5.Supervisor

/-- A QMP client. -/
inductive Client where
  /-- The client of a process the supervisor launched. -/
  | launched (pid : ℕ)
  /-- A client that was adopted. -/
  | adopted (id : ℕ)
  deriving DecidableEq

/-- `Supervisor`, with the processes it launched. -/
structure Power where
  /-- `_client`. -/
  client : Option Client
  /-- `_proc`. -/
  proc : Option ℕ
  /-- The processes it launched that are alive. -/
  alive : List ℕ
  /-- The number of the next process. -/
  next : ℕ
  /-- The clients that were sent `quit`. -/
  quits : List Client
  deriving DecidableEq

/-- A new supervisor. -/
def Power.initial : Power where
  client := none
  proc := none
  alive := []
  next := 0
  quits := []

/-- `adopt`. -/
def Power.adopt (s : Power) (client : Client) : Power := { s with client := some client, proc := none }

/-- `_proc is not None and _proc.poll() is not None`. -/
def Power.exited (s : Power) : Bool :=
  match s.proc with
  | none => false
  | some pid => pid ∉ s.alive

/-- `is_running`. -/
def Power.isRunning (s : Power) : Bool := s.client.isSome && !s.exited

/-- `owns_process`. -/
def Power.ownsProcess (s : Power) : Bool := s.proc.isSome

/-- The beginning of `power_on`: a process that exited on its own is forgotten. -/
def Power.discardExited (s : Power) : Power :=
  if s.client.isSome && s.exited then { s with client := none, proc := none } else s

/-- `self._proc = self._launch()`, if it does not raise. -/
def Power.launch (s : Power) : Power :=
  { s with proc := some s.next, alive := s.next :: s.alive, next := s.next + 1 }

/-- `self._client = self._connect()`, if it does not raise. -/
def Power.connected (s : Power) : Power := { s with client := s.proc.map .launched }

/-- A process is no longer alive. -/
def Power.dies (s : Power) (proc : Option ℕ) : Power :=
  { s with alive := s.alive.filter fun pid => some pid ≠ proc }

/-- The handler of `power_on` when `_connect` raises: the process is terminated or killed. -/
def Power.abandon (s : Power) : Power := ({ s with client := none, proc := none } : Power).dies s.proc

/-- What `power_off` does under the lock. -/
def Power.release (s : Power) : Power := { s with client := none, proc := none }

/-- What `power_off` does with the client and the process it took: `quit`, then terminate or kill.
-/
def Power.stop (s : Power) (client : Client) (proc : Option ℕ) : Power :=
  ({ s with quits := client :: s.quits } : Power).dies proc

/-- How starting the emulator ends. -/
inductive Start where
  /-- `_launch` raises. -/
  | launchRaises
  /-- `_connect` raises. -/
  | connectRaises
  /-- The emulator runs and the client is connected. -/
  | connected
  deriving DecidableEq

/-- `power_on`: what it returns, or `none` if it raises. -/
def powerOn (start : Start) (s : Power) : Option Bool × Power :=
  let s := s.discardExited
  if s.client.isSome then (some false, s)
  else
    match start with
    | .launchRaises => (none, s)
    | .connectRaises => (none, s.launch.abandon)
    | .connected => (some true, s.launch.connected)

/-- `power_off`. -/
def powerOff (s : Power) : Bool × Power :=
  match s.client with
  | none => (false, s.release)
  | some client => (true, s.release.stop client s.proc)

/-- A command to the emulator, which raises if the emulator does not answer. -/
def command (answers : Bool) (s : Power) : Option Bool × Power :=
  (if answers then some true else none, s)

/-- `reset`. -/
def reset (start : Start) (answers : Bool) (s : Power) : Option Bool × Power :=
  if s.client.isNone then powerOn start s else command answers s

/-- `pause`, and `resume`. -/
def pause (answers : Bool) (s : Power) : Option Bool × Power :=
  if s.client.isNone then (some false, s) else command answers s

/-- `POWER_ACTIONS`. -/
inductive Action where
  /-- `"on"`. -/
  | on
  /-- `"off"`. -/
  | off
  /-- `"reset"`. -/
  | reset
  /-- `"pause"`. -/
  | pause
  /-- `"resume"`. -/
  | resume
  deriving DecidableEq

/-- The call of an action. -/
def act (start : Start) (answers : Bool) : Action → Power → Option Bool × Power
  | .on => powerOn start
  | .off => fun s => ((powerOff s).map some id)
  | .reset => reset start answers
  | .pause => pause answers
  | .resume => pause answers

/-! ## What a call leaves -/

/-- After `power_off` there is no client. -/
lemma powerOff_client (s : Power) : (powerOff s).2.client = none := by
  rw [powerOff]
  split
  · rfl
  · rfl

/-- `power_off` launches nothing. -/
lemma powerOff_next (s : Power) : (powerOff s).2.next = s.next := by
  rw [powerOff]
  split
  · rfl
  · rfl

/-- The client of an emulator that is started from off is new, if there is one. -/
lemma powerOn_client (start : Start) {s : Power} (h : s.client = none) :
    (powerOn start s).2.client = none ∨ (powerOn start s).2.client = some (.launched s.next) := by
  have hdiscard : s.discardExited = s := by rw [Power.discardExited, h]; rfl
  unfold powerOn
  dsimp only
  rw [hdiscard, h]
  cases start with
  | launchRaises => exact .inl h
  | connectRaises => exact .inl rfl
  | connected => exact .inr rfl

/-- Only `power_off` does anything to an emulator that runs. -/
lemma act_of_running {start : Start} {answers : Bool} {action : Action} {s : Power}
    (haction : action ≠ .off) (h : s.isRunning = true) : (act start answers action s).2 = s := by
  rw [Power.isRunning, Bool.and_eq_true, Bool.not_eq_true'] at h
  obtain ⟨hclient, hexited⟩ := h
  have hnone : s.client.isNone = false := by rw [← Option.not_isSome, hclient]; rfl
  have hdiscard : s.discardExited = s := by
    rw [Power.discardExited, hexited, Bool.and_false, if_neg Bool.false_ne_true]
  cases action with
  | on =>
    unfold act powerOn
    dsimp only
    rw [hdiscard, if_pos hclient]
  | off => exact absurd rfl haction
  | reset => rw [act, reset, hnone, if_neg Bool.false_ne_true]; rfl
  | pause => rw [act, pause, hnone, if_neg Bool.false_ne_true]; rfl
  | resume => rw [act, pause, hnone, if_neg Bool.false_ne_true]; rfl

/-- The client of a process that was launched has an older number than the next one will have. -/
def Numbered (s : Power) : Prop := ∀ pid, s.client = some (.launched pid) → pid < s.next

/-- Without a client there is nothing to be numbered. -/
lemma numbered_of_none {s : Power} (h : s.client = none) : Numbered s := by
  intro pid hpid
  rw [h] at hpid
  cases hpid

/-- The client of a power-on has the number that was next. -/
lemma numbered_powerOn {start : Start} {s : Power} (h : Numbered s) :
    Numbered (powerOn start s).2 := by
  have hdiscard : Numbered s.discardExited := by
    rw [Power.discardExited]
    split
    · exact numbered_of_none rfl
    · exact h
  unfold powerOn
  dsimp only
  split
  · exact hdiscard
  · cases start with
    | launchRaises => exact hdiscard
    | connectRaises => exact numbered_of_none rfl
    | connected =>
      intro pid hpid
      cases hpid
      exact Nat.lt_succ_self _

/-- The numbering survives every call. -/
lemma numbered_act {start : Start} {answers : Bool} {action : Action} {s : Power}
    (h : Numbered s) : Numbered (act start answers action s).2 := by
  cases action with
  | on => exact numbered_powerOn h
  | off => exact numbered_of_none (powerOff_client s)
  | reset =>
    rw [act, reset]
    split
    · exact numbered_powerOn h
    · exact h
  | pause =>
    rw [act, pause]
    split
    · exact h
    · exact h
  | resume =>
    rw [act, pause]
    split
    · exact h
    · exact h

/-- A process that is alive is the one the supervisor holds, with a client, and has an older number
than the next one will have. -/
structure Owned (s : Power) : Prop where
  /-- The process is the supervisor's. -/
  own : ∀ pid ∈ s.alive, s.proc = some pid ∧ s.client.isSome = true
  /-- The number. -/
  older : ∀ pid ∈ s.alive, pid < s.next

section Owned

variable {s : Power}

/-- A process that is alive runs. -/
lemma Owned.isRunning (h : Owned s) {pid : ℕ} (hpid : pid ∈ s.alive) : s.isRunning = true := by
  obtain ⟨hproc, hclient⟩ := h.own pid hpid
  have hexited : s.exited = false := by
    rw [Power.exited, hproc]
    exact decide_eq_false (not_not.mpr hpid)
  rw [Power.isRunning, hclient, hexited]
  rfl

/-- While none runs, none is alive. -/
lemma Owned.alive_of_not_running (h : Owned s) (hrunning : s.isRunning = false) : s.alive = [] := by
  refine List.eq_nil_iff_forall_not_mem.mpr fun pid hpid => ?_
  rw [h.isRunning hpid] at hrunning
  cases hrunning

/-- After `power_off` no process is alive. -/
lemma Owned.alive_powerOff (h : Owned s) : (powerOff s).2.alive = [] := by
  rw [powerOff]
  cases hclient : s.client with
  | none =>
    refine h.alive_of_not_running ?_
    rw [Power.isRunning, hclient]
    rfl
  | some client =>
    refine List.filter_eq_nil_iff.mpr fun pid hpid => ?_
    have halive : pid ∈ s.alive := hpid
    simp [(h.own pid halive).1]

/-- A process that is alive after `power_on` was before, or has been launched.

**Proof sketch.** If the emulator runs nothing happens. If not, no process is alive, and
`power_on` raises before the launch, kills what it launched, or keeps it as the only one. -/
lemma owned_powerOn (h : Owned s) (start : Start) :
    Owned (powerOn start s).2 ∧ ∀ pid ∈ (powerOn start s).2.alive,
      pid ∈ s.alive ∨ pid = s.next ∧ (powerOn start s).2.next ≠ s.next := by
  have hnone : ∀ {t : Power}, t.alive = [] → Owned t ∧ ∀ pid ∈ t.alive,
      pid ∈ s.alive ∨ pid = s.next ∧ t.next ≠ s.next := by
    intro t ht
    refine ⟨⟨fun pid hpid => ?_, fun pid hpid => ?_⟩, fun pid hpid => ?_⟩
    all_goals
      rw [ht] at hpid
      cases hpid
  cases hrunning : s.isRunning with
  | true =>
    have hsame : (act start true .on s).2 = s := act_of_running (by decide) hrunning
    change Owned (act start true .on s).2 ∧ ∀ pid ∈ (act start true .on s).2.alive,
      pid ∈ s.alive ∨ pid = s.next ∧ (act start true .on s).2.next ≠ s.next
    rw [hsame]
    exact ⟨h, fun pid hpid => .inl hpid⟩
  | false =>
    have halive := h.alive_of_not_running hrunning
    have hdiscard : s.discardExited.alive = [] ∧ s.discardExited.next = s.next := by
      rw [Power.discardExited]
      split
      · exact ⟨halive, rfl⟩
      · exact ⟨halive, rfl⟩
    unfold powerOn
    dsimp only
    split
    · exact hnone hdiscard.1
    · cases start with
      | launchRaises => exact hnone hdiscard.1
      | connectRaises =>
        have hkilled : s.discardExited.launch.abandon.alive = [] := by
          simp [Power.abandon, Power.dies, Power.launch, hdiscard.1]
        exact hnone hkilled
      | connected =>
        have hlaunched : s.discardExited.launch.connected.alive = [s.discardExited.next] := by
          change s.discardExited.next :: s.discardExited.alive = _
          rw [hdiscard.1]
        refine ⟨⟨fun pid hpid => ?_, fun pid hpid => ?_⟩, fun pid hpid => ?_⟩
        all_goals
          rw [hlaunched, List.mem_singleton] at hpid
          subst hpid
        · exact ⟨rfl, rfl⟩
        · exact Nat.lt_succ_self _
        · refine .inr ⟨hdiscard.2, ?_⟩
          change s.discardExited.next + 1 ≠ s.next
          omega

/-- So it is after every call. -/
lemma owned_act (h : Owned s) (start : Start) (answers : Bool) (action : Action) :
    Owned (act start answers action s).2 ∧ ∀ pid ∈ (act start answers action s).2.alive,
      pid ∈ s.alive ∨ pid = s.next ∧ (act start answers action s).2.next ≠ s.next := by
  have hsame : Owned s ∧ ∀ pid ∈ s.alive, pid ∈ s.alive ∨ pid = s.next ∧ s.next ≠ s.next :=
    ⟨h, fun _ hpid => .inl hpid⟩
  cases action with
  | on => exact owned_powerOn h start
  | off =>
    have halive : (act start answers .off s).2.alive = [] := h.alive_powerOff
    refine ⟨⟨fun pid hpid => ?_, fun pid hpid => ?_⟩, fun pid hpid => ?_⟩
    all_goals
      rw [halive] at hpid
      cases hpid
  | reset =>
    rw [act, reset]
    split
    · exact owned_powerOn h start
    · exact hsame
  | pause =>
    rw [act, pause]
    split
    · exact hsame
    · exact hsame
  | resume =>
    rw [act, pause]
    split
    · exact hsame
    · exact hsame

end Owned

end Uvk5.Supervisor
