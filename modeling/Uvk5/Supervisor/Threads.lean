import Uvk5.Lib.Run
import Uvk5.Supervisor.Power

set_option relaxedAutoImplicit false
set_option autoImplicit false

/-!
# Power requests from several threads

The web server answers each request in a thread of its own. `power_on` runs under the supervisor's
lock from beginning to end; `power_off` forgets the process under the lock and stops it afterwards;
`reset` asks for the client and may then go on to `power_on`.

## Main definitions

* `Supervisor.Threads`, `Supervisor.step` — the threads, and what each may do next.
* `Supervisor.AtMostOne` — at most one process that was launched is alive.
* `Supervisor.StoppedFirst` — a launch does not overtake a `power_off`.

## Main results

* `Supervisor.atMostOne_iff` — at most one process is ever alive exactly when no launch overtakes a
  `power_off` that is not through.
-/

namespace Uvk5.Supervisor

/-- Where a thread is. -/
inductive Pc where
  /-- In none of the calls. -/
  | idle
  /-- In `reset`, which found no client. -/
  | poweringOn
  /-- In `power_on`, under the lock, waiting for the process it launched. -/
  | connecting
  /-- In `power_off`, with what it took under the lock. -/
  | stopping (client : Client) (proc : Option ℕ)
  deriving DecidableEq

/-- The supervisor and the threads. -/
structure Threads where
  /-- The supervisor. -/
  power : Power
  /-- The threads. -/
  pc : ℕ → Pc
  /-- Some thread holds the lock. -/
  locked : Bool

/-- What can happen. -/
inductive Event where
  /-- A thread enters the lock in `power_on`, and launches if it comes to that. -/
  | powerOn (thread : ℕ) (launches : Bool)
  /-- `_connect` returns, and the lock is released. -/
  | connected (thread : ℕ)
  /-- `_connect` raises; the process is stopped and the lock is released. -/
  | connectRaises (thread : ℕ)
  /-- A thread enters and leaves the lock in `power_off`. -/
  | powerOff (thread : ℕ)
  /-- `power_off` has stopped what it took. -/
  | stopped (thread : ℕ)
  /-- A thread asks for the client in `reset`. -/
  | reset (thread : ℕ)
  /-- A process ends, on its own or because of `quit`. -/
  | exits (pid : ℕ)
  deriving DecidableEq

/-- The thread goes on to `pc`. -/
def Threads.goto (s : Threads) (thread : ℕ) (pc : Pc) : Threads :=
  { s with pc := Function.update s.pc thread pc }

/-- The thread is about to enter `power_on`. -/
def Threads.mayPowerOn (s : Threads) (thread : ℕ) : Bool :=
  (s.pc thread = .idle ∨ s.pc thread = .poweringOn) ∧ s.locked = false

/-- One step. A step that the thread is not at does nothing. -/
def step (s : Threads) : Event → Threads
  | .powerOn thread launches =>
    if s.mayPowerOn thread then
      let power := s.power.discardExited
      if power.client.isSome ∨ launches = false then { s.goto thread .idle with power := power }
      else { s.goto thread .connecting with power := power.launch, locked := true }
    else s
  | .connected thread =>
    if s.pc thread = .connecting then
      { s.goto thread .idle with power := s.power.connected, locked := false }
    else s
  | .connectRaises thread =>
    if s.pc thread = .connecting then
      { s.goto thread .idle with power := s.power.abandon, locked := false }
    else s
  | .powerOff thread =>
    if s.pc thread = .idle ∧ s.locked = false then
      match s.power.client with
      | none => { s with power := s.power.release }
      | some client =>
        { s.goto thread (.stopping client s.power.proc) with power := s.power.release }
    else s
  | .stopped thread =>
    match s.pc thread with
    | .stopping client proc => { s.goto thread .idle with power := s.power.stop client proc }
    | _ => s
  | .reset thread =>
    if s.pc thread = .idle ∧ s.locked = false then
      if s.power.client.isSome then s else s.goto thread .poweringOn
    else s
  | .exits pid => { s with power := s.power.dies (some pid) }

/-- A new supervisor, or one that adopted a client, before any request. -/
def start (adopted : Option ℕ) : Threads where
  power := match adopted with
    | none => .initial
    | some id => Power.initial.adopt (.adopted id)
  pc := fun _ => .idle
  locked := false

/-- At most one process that was launched is alive. -/
def AtMostOne (s : Threads) : Prop := s.power.alive.length ≤ 1

instance (s : Threads) : Decidable (AtMostOne s) := inferInstanceAs (Decidable (_ ≤ _))

/-- The step launches a process. -/
def Launches (s : Threads) (e : Event) : Prop :=
  ∃ thread, e = .powerOn thread true ∧ s.mayPowerOn thread = true ∧
    s.power.discardExited.client = none

/-- If the step launches a process, every `power_off` that is not through has stopped its own. -/
def StoppedFirst (s : Threads) (e : Event) : Prop :=
  Launches s e → ∀ thread client pid, s.pc thread = .stopping client (some pid) → pid ∉ s.power.alive

/-! ## The invariant -/

/-- A process that is alive is the one the supervisor holds, or some `power_off` is about to stop
it; and outside the lock there is no process without a client. -/
structure Inv (s : Threads) : Prop where
  owned : ∀ pid ∈ s.power.alive,
    s.power.proc = some pid ∨ ∃ thread client, s.pc thread = .stopping client (some pid)
  unlocked : s.locked = false → s.power.client = none → s.power.proc = none

/-- A thread that moves while it is not stopping anything. -/
lemma stopping_goto {s : Threads} {thread : ℕ} {pc : Pc} {pid : ℕ}
    (hpc : ∀ client proc, s.pc thread ≠ .stopping client proc)
    (h : ∃ thread client, s.pc thread = .stopping client (some pid)) :
    ∃ thread' client, (s.goto thread pc).pc thread' = .stopping client (some pid) := by
  obtain ⟨thread', client, hstop⟩ := h
  have hne : thread' ≠ thread := by
    rintro rfl
    exact hpc _ _ hstop
  exact ⟨thread', client, (Function.update_of_ne hne ..).trans hstop⟩

/-- What `power_on` forgets is no longer alive. -/
lemma discardExited_cases (s : Power) :
    s.discardExited = s ∨
      (s.discardExited = { s with client := none, proc := none } ∧
        ∃ pid, s.proc = some pid ∧ pid ∉ s.alive) := by
  rw [Power.discardExited]
  split
  · next hexited =>
    refine .inr ⟨rfl, ?_⟩
    rw [Bool.and_eq_true, Power.exited] at hexited
    cases hproc : s.proc with
    | none =>
      rw [hproc] at hexited
      cases hexited.2
    | some pid =>
      rw [hproc] at hexited
      exact ⟨pid, rfl, of_decide_eq_true hexited.2⟩
  · exact .inl rfl

/-- Forgetting an exited process keeps the invariant. -/
lemma Inv.discardExited {s : Threads} (h : Inv s) :
    Inv { s with power := s.power.discardExited } := by
  rcases discardExited_cases s.power with heq | ⟨heq, pid, hproc, hdead⟩
  · rw [heq]
    exact h
  · rw [heq]
    refine ⟨fun pid' hpid' => .inr ?_, fun _ _ => rfl⟩
    rcases h.owned pid' hpid' with hown | hstop
    · rw [hproc] at hown
      obtain rfl := Option.some.inj hown
      exact absurd hpid' hdead
    · exact hstop

/-- A thread that moves while it is not stopping anything keeps the invariant. -/
lemma Inv.goto {s : Threads} (h : Inv s) {thread : ℕ} (pc : Pc)
    (hpc : ∀ client proc, s.pc thread ≠ .stopping client proc) : Inv (s.goto thread pc) := by
  refine ⟨fun pid hpid => ?_, h.unlocked⟩
  rcases h.owned pid hpid with hown | hstop
  · exact .inl hown
  · exact .inr (stopping_goto hpc hstop)

/-- A process that ends keeps the invariant. -/
lemma Inv.dies {s : Threads} (h : Inv s) (proc : Option ℕ) :
    Inv { s with power := s.power.dies proc } :=
  ⟨fun pid hpid => h.owned pid (List.mem_of_mem_filter hpid), h.unlocked⟩

/-- When a launch is due, every process that is alive is being stopped. -/
lemma Inv.stopping_of_launches {s : Threads} (h : Inv s) {e : Event} (hlaunch : Launches s e) {pid : ℕ}
    (hpid : pid ∈ s.power.alive) : ∃ thread client, s.pc thread = .stopping client (some pid) := by
  obtain ⟨thread, -, hmay, hclient⟩ := hlaunch
  have hunlocked : s.locked = false := (of_decide_eq_true hmay).2
  have hinv := h.discardExited
  have hpid' : pid ∈ s.power.discardExited.alive := by
    rcases discardExited_cases s.power with heq | ⟨heq, -⟩ <;> rw [heq] <;> exact hpid
  rcases hinv.owned pid hpid' with hown | hstop
  · rw [hinv.unlocked hunlocked hclient] at hown
    cases hown
  · exact hstop

/-- A thread that is about to enter `power_on` is stopping nothing. -/
lemma not_stopping_of_mayPowerOn {s : Threads} {thread : ℕ} (h : s.mayPowerOn thread = true) :
    ∀ client proc, s.pc thread ≠ .stopping client proc := by
  intro client proc hstop
  rcases (of_decide_eq_true h).1 with hpc | hpc <;> rw [hstop] at hpc <;> cases hpc

/-- A thread that is connecting is stopping nothing. -/
lemma not_stopping_of_connecting {s : Threads} {thread : ℕ} (h : s.pc thread = .connecting) :
    ∀ client proc, s.pc thread ≠ .stopping client proc := by
  intro client proc hstop
  rw [h] at hstop
  cases hstop

/-- The step that launches a process. -/
lemma Inv.launch {s : Threads} (h : Inv s) {thread : ℕ} (hlaunch : Launches s (.powerOn thread true))
    (hmay : s.mayPowerOn thread = true) :
    Inv { s.goto thread .connecting with
      power := s.power.discardExited.launch
      locked := true } := by
  have hpc := not_stopping_of_mayPowerOn hmay
  refine ⟨fun pid hpid => ?_, nofun⟩
  rcases List.mem_cons.mp hpid with rfl | hpid
  · exact .inl rfl
  · have hpid' : pid ∈ s.power.alive := by
      rcases discardExited_cases s.power with heq | ⟨heq, -⟩ <;> rw [heq] at hpid <;> exact hpid
    exact .inr (stopping_goto hpc (h.stopping_of_launches hlaunch hpid'))

/-- To forget a process that has exited stops none. -/
lemma alive_discardExited (s : Power) : s.discardExited.alive = s.alive := by
  rcases discardExited_cases s with heq | ⟨heq, -⟩ <;> rw [heq]

/-- When a process dies there are no more than before. -/
lemma length_alive_dies (s : Power) (proc : Option ℕ) :
    (s.dies proc).alive.length ≤ s.alive.length := List.length_filter_le ..

/-- **What a step can do**: it keeps the invariant, and launches a process or none.

**Proof sketch.** One case an event. A launch leaves the new process with the supervisor;
`power_off` hands its process from the supervisor to the thread; a process that is no longer
anybody's is dead. -/
theorem step_cases {s : Threads} (h : Inv s) (e : Event) :
    Inv (step s e) ∧
      ((Launches s e ∧ (step s e).power.alive.length = s.power.alive.length + 1) ∨
        (¬ Launches s e ∧ (step s e).power.alive.length ≤ s.power.alive.length)) := by
  cases e with
  | powerOn thread launches =>
    rw [step]
    split
    · next hmay =>
      have hpc := not_stopping_of_mayPowerOn hmay
      dsimp only
      split
      · next hno =>
        refine ⟨h.discardExited.goto .idle hpc, .inr ⟨?_, ?_⟩⟩
        · rintro ⟨thread', he, -, hclient⟩
          obtain ⟨-, rfl⟩ := Event.powerOn.inj he
          rw [hclient] at hno
          rcases hno with hno | hno <;> cases hno
        · exact Nat.le_of_eq (congrArg List.length (alive_discardExited s.power))
      · next hyes =>
        have hclient : s.power.discardExited.client = none := by
          cases hc : s.power.discardExited.client with
          | none => rfl
          | some client => exact absurd (.inl (by rw [hc]; rfl)) hyes
        have htrue : launches = true := by
          cases launches with
          | true => rfl
          | false => exact absurd (.inr rfl) hyes
        subst htrue
        have hlaunch : Launches s (.powerOn thread true) := ⟨thread, rfl, hmay, hclient⟩
        refine ⟨h.launch hlaunch hmay, .inl ⟨hlaunch, ?_⟩⟩
        change (s.power.discardExited.next :: s.power.discardExited.alive).length = _
        rw [List.length_cons, alive_discardExited]
    · next hmay =>
      refine ⟨h, .inr ⟨?_, Nat.le_refl _⟩⟩
      rintro ⟨thread', he, hmay', -⟩
      obtain ⟨rfl, -⟩ := Event.powerOn.inj he
      exact hmay hmay'
  | connected thread =>
    rw [step]
    split
    · next hpc =>
      have hpc' := not_stopping_of_connecting hpc
      refine ⟨⟨(h.goto .idle hpc').owned, fun _ hclient => ?_⟩, .inr ⟨nofun, Nat.le_refl _⟩⟩
      exact Option.map_eq_none_iff.mp hclient
    · exact ⟨h, .inr ⟨nofun, Nat.le_refl _⟩⟩
  | connectRaises thread =>
    rw [step]
    split
    · next hpc =>
      have hpc' := not_stopping_of_connecting hpc
      refine ⟨⟨fun pid hpid => .inr ?_, fun _ _ => rfl⟩, .inr ⟨nofun, length_alive_dies ..⟩⟩
      obtain ⟨hmem, hne⟩ := List.mem_filter.mp hpid
      rcases (h.goto .idle hpc').owned pid hmem with hown | hstop
      · exact absurd hown.symm (of_decide_eq_true hne)
      · exact hstop
    · exact ⟨h, .inr ⟨nofun, Nat.le_refl _⟩⟩
  | powerOff thread =>
    rw [step]
    split
    · next hok =>
      cases hclient : s.power.client with
      | none =>
        have hproc := h.unlocked hok.2 hclient
        refine ⟨⟨fun pid hpid => ?_, fun _ _ => rfl⟩, .inr ⟨nofun, Nat.le_refl _⟩⟩
        rcases h.owned pid hpid with hown | hstop
        · rw [hproc] at hown
          cases hown
        · exact .inr hstop
      | some client =>
        refine ⟨⟨fun pid hpid => .inr ?_, fun _ _ => rfl⟩, .inr ⟨nofun, Nat.le_refl _⟩⟩
        rcases h.owned pid hpid with hown | hstop
        · refine ⟨thread, client, (Function.update_self ..).trans ?_⟩
          rw [hown]
        · refine stopping_goto (fun client proc hstop => ?_) hstop
          rw [hok.1] at hstop
          cases hstop
    · exact ⟨h, .inr ⟨nofun, Nat.le_refl _⟩⟩
  | stopped thread =>
    rw [step]
    cases hpc : s.pc thread with
    | stopping client proc =>
      refine ⟨⟨fun pid hpid => ?_, h.unlocked⟩, .inr ⟨nofun, length_alive_dies ..⟩⟩
      obtain ⟨hmem, hne⟩ := List.mem_filter.mp hpid
      rcases h.owned pid hmem with hown | ⟨thread', client', hstop⟩
      · exact .inl hown
      · have hother : thread' ≠ thread := by
          rintro rfl
          rw [hpc] at hstop
          exact of_decide_eq_true hne (Pc.stopping.inj hstop).2.symm
        exact .inr ⟨thread', client', (Function.update_of_ne hother ..).trans hstop⟩
    | idle => exact ⟨h, .inr ⟨nofun, Nat.le_refl _⟩⟩
    | poweringOn => exact ⟨h, .inr ⟨nofun, Nat.le_refl _⟩⟩
    | connecting => exact ⟨h, .inr ⟨nofun, Nat.le_refl _⟩⟩
  | reset thread =>
    rw [step]
    split
    · next hok =>
      split
      · exact ⟨h, .inr ⟨nofun, Nat.le_refl _⟩⟩
      · refine ⟨h.goto .poweringOn fun client proc hstop => ?_, .inr ⟨nofun, Nat.le_refl _⟩⟩
        rw [hok.1] at hstop
        cases hstop
    · exact ⟨h, .inr ⟨nofun, Nat.le_refl _⟩⟩
  | exits pid => exact ⟨h.dies (some pid), .inr ⟨nofun, length_alive_dies ..⟩⟩

/-- **When at most one emulator is alive**: in every interleaving of the calls, from a new
supervisor or one that adopted a client, at most one process that was launched is alive at every
moment exactly when no launch happens while a process that an unfinished `power_off` took is still
alive.

**Proof sketch.** `step_cases` with the rule for exact conditions. When a launch is due, every
process that is alive is being stopped; so either none is left, or the launch makes a second one. -/
theorem atMostOne_iff (adopted : Option ℕ) (events : List Event) :
    Run.AllStates step AtMostOne (start adopted) events ↔
      Run.AllSteps step StoppedFirst (start adopted) events := by
  have hstart : Inv (start adopted) ∧ AtMostOne (start adopted) := by
    cases adopted with
    | none => exact ⟨⟨nofun, fun _ _ => rfl⟩, Nat.zero_le _⟩
    | some id => exact ⟨⟨nofun, fun _ _ => rfl⟩, Nat.zero_le _⟩
  refine Run.allStates_iff_allSteps (I := fun s => Inv s ∧ AtMostOne s) (fun s h => h.2)
    (fun s e h hfirst => ?_) (fun s e h hfirst hone => ?_) events _ hstart
  · obtain ⟨hinv, ⟨hlaunch, hcount⟩ | ⟨-, hcount⟩⟩ := step_cases h.1 e
    · refine ⟨hinv, ?_⟩
      have hnone : s.power.alive = [] := by
        refine List.eq_nil_iff_forall_not_mem.mpr fun pid hpid => ?_
        obtain ⟨thread, client, hstop⟩ := h.1.stopping_of_launches hlaunch hpid
        exact hfirst hlaunch thread client pid hstop hpid
      rw [AtMostOne, hcount, hnone]
      exact Nat.le_refl _
    · exact ⟨hinv, Nat.le_trans hcount h.2⟩
  · obtain ⟨-, ⟨-, hcount⟩ | ⟨hno, -⟩⟩ := step_cases h.1 e
    · refine hfirst fun _ thread client pid hstop hpid => ?_
      have hpos := List.length_pos_of_mem hpid
      rw [AtMostOne, hcount] at hone
      omega
    · exact hfirst fun hlaunch => absurd hlaunch hno

/-- **A power-on overtakes a power-off**: the second thread launches while the first is still
waiting for the process it took. -/
theorem atMostOne_overtaken :
    ¬ Run.AllStates step AtMostOne (start none)
      [.powerOn 0 true, .connected 0, .powerOff 0, .powerOn 1 true] := by
  intro h
  exact absurd h.last (by decide)

end Uvk5.Supervisor
