import Uvk5.Web.Clients

set_option relaxedAutoImplicit false
set_option autoImplicit false

/-!
# What the emulators keep their flash in

An emulator keeps its flash in the file it was started with, and the server may select another file
as its flash image. It does so only while no process of its own is alive, so what such a process
writes goes to the file that is selected.

## Main definitions

* `Web.Tidy` — a process that is alive keeps its flash in the flash image that is selected.

## Main results

* `Web.tidy_step` — so it is over every run.
* `Web.flushed_launched` — what a process writes is what the flash image holds then.
-/

namespace Uvk5.Web

open Supervisor (Client Power Start Action Owned)

/-- A process that is alive is the supervisor's own, and keeps its flash in the flash image that is
selected. -/
structure Tidy (s : Server) : Prop where
  /-- The processes are the supervisor's. -/
  owned : Owned s.power
  /-- Only a supervisor launches processes. -/
  supervised : s.power.alive ≠ [] → s.supervised = true
  /-- The file they keep their flash in. -/
  flash : ∀ pid ∈ s.power.alive, (s.runs (.launched pid)).flashImage = s.flash

section Tidy

variable {s s' : Server}

/-- While a process is alive the emulator runs. -/
lemma Tidy.isRunning (h : Tidy s) {pid : ℕ} (hpid : pid ∈ s.power.alive) : s.isRunning = true := by
  rw [Server.isRunning, h.supervised (List.ne_nil_of_mem hpid), h.owned.isRunning hpid]
  rfl

/-- A server on which no process is alive is tidy. -/
lemma tidy_of_nil (h : s.power.alive = []) : Tidy s := by
  refine ⟨⟨fun pid hpid => ?_, fun pid hpid => ?_⟩, fun hne => absurd h hne, fun pid hpid => ?_⟩
  all_goals
    rw [h] at hpid
    cases hpid

/-- What a step leaves tidy: the processes that are alive were alive before, and then the flash image
is the same, or are launched with the flash image there is then. -/
lemma Tidy.of_spawns (h : Tidy s) (howned : Owned s'.power) (hspawns : Spawns s s')
    (hsupervised : s'.power.alive ≠ [] → s'.supervised = true)
    (hflash : s.isRunning = true → s'.flash = s.flash)
    (halive : ∀ pid ∈ s'.power.alive,
      pid ∈ s.power.alive ∨ pid = s.power.next ∧ s'.power.next ≠ s.power.next) : Tidy s' := by
  refine ⟨howned, hsupervised, fun pid hpid => ?_⟩
  rcases halive pid hpid with hold | ⟨rfl, hlaunched⟩
  · have hne : Client.launched pid ≠ .launched s.power.next := by
      intro heq
      obtain rfl := Client.launched.inj heq
      exact Nat.lt_irrefl _ (h.owned.older _ hold)
    rw [hspawns.others _ hne, hflash (h.isRunning hold)]
    exact h.flash pid hold
  · exact hspawns.next hlaunched

/-- A power cycle leaves the server tidy.

**Proof sketch.** Without a cycle the supervisor is left alone. A cycle that only powers off
leaves no process; one that powers on again launches into a server that has none, with the files
of now. -/
lemma Tidy.cycled {b : Bool} (h : Tidy s) (hb : b = true → s.isRunning = true)
    (hcycled : Cycled b s s') : Tidy s' := by
  have hflash : b = false → s.isRunning = true → s'.flash = s.flash := by
    intro hfalse hrunning
    rcases hcycled.flash with hsame | htrue | hoff
    · exact hsame
    · rw [hfalse] at htrue
      cases htrue
    · rw [hrunning] at hoff
      cases hoff
  rcases hcycled.power with hpower | ⟨rfl, start, hpower⟩
  · cases b with
    | true => exact tidy_of_nil (by rw [hpower]; exact h.owned.alive_powerOff)
    | false =>
      have hsame : s'.power = s.power := hpower
      refine h.of_spawns (hsame ▸ h.owned) hcycled.spawns (fun hne => ?_) (hflash rfl)
        fun pid hpid => .inl (hsame ▸ hpid)
      rw [hcycled.supervised]
      exact h.supervised (hsame ▸ hne)
  · -- no process is alive when the next one is launched
    have hoff := h.owned.alive_powerOff
    have hnone : Owned (Supervisor.powerOff s.power).2 := by
      refine ⟨fun pid hpid => ?_, fun pid hpid => ?_⟩
      all_goals
        rw [hoff] at hpid
        cases hpid
    obtain ⟨howned, halive⟩ := Supervisor.owned_powerOn hnone start
    rw [← hpower, hoff, Supervisor.powerOff_next] at halive
    have hrunning := hb rfl
    rw [Server.isRunning, Bool.and_eq_true] at hrunning
    refine ⟨hpower ▸ howned, fun _ => hcycled.supervised.trans hrunning.1, fun pid hpid => ?_⟩
    rcases halive pid hpid with hold | ⟨rfl, hlaunched⟩
    · cases hold
    · exact hcycled.spawns.next hlaunched

/-- **A process that is alive keeps its flash in the flash image that is selected**, whatever is
requested, whatever the emulators write and however they end. -/
theorem tidy_step (h : Tidy s) (e : Event) : Tidy (step s e) := by
  cases e with
  | exits pid =>
    have hkept : ∀ pid' ∈ (s.power.dies (some pid)).alive, pid' ∈ s.power.alive :=
      fun pid' hpid' => List.mem_of_mem_filter hpid'
    refine ⟨⟨fun pid' hpid' => h.owned.own pid' (hkept pid' hpid'),
      fun pid' hpid' => h.owned.older pid' (hkept pid' hpid')⟩, fun hne => ?_,
      fun pid' hpid' => h.flash pid' (hkept pid' hpid')⟩
    obtain ⟨pid', hpid'⟩ := List.exists_mem_of_ne_nil _ hne
    exact h.supervised (List.ne_nil_of_mem (hkept pid' hpid'))
  | flushes client flush =>
    obtain ⟨disk, hflushed⟩ := s.flushed_eq client flush
    rw [step, hflushed]
    exact ⟨h.owned, h.supervised, h.flash⟩
  | request request start =>
    rcases step_request request start s with hcycled | ⟨-, a, answers, -, hcalled, -⟩
    · refine h.cycled (fun hb => ?_) hcycled
      rw [Bool.and_eq_true] at hb
      exact hb.2
    · obtain ⟨start', hpower⟩ := hcalled.power
      obtain ⟨howned, halive⟩ := Supervisor.owned_act h.owned start' answers a
      rw [← hpower] at howned halive
      refine h.of_spawns howned hcalled.spawns
        (fun _ => hcalled.supervised.trans hcalled.supervisor) (fun hrunning => ?_) halive
      rcases hcalled.flash with hsame | hoff
      · exact hsame
      · rw [hrunning] at hoff
        cases hoff

/-- **What a process writes is what the flash image holds then**, and nothing else changes but the
temporary file beside it. -/
theorem flushed_launched (h : Tidy s) {pid : ℕ} (hpid : pid ∈ s.power.alive) {flash : Path}
    (hflash : s.flash = some flash) (flush : Flush) :
    s.flushed (.launched pid) flush = { s with disk := flush.write flash s.disk } := by
  have hruns : (s.runs (.launched pid)).flashImage = some flash := (h.flash pid hpid).trans hflash
  rw [Server.flushed, emulates, if_pos (decide_eq_true hpid), hruns]

end Tidy

end Uvk5.Web
