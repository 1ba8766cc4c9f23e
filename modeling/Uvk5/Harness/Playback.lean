import Mathlib.Data.List.Basic
import Mathlib.Data.UInt

set_option relaxedAutoImplicit false
set_option autoImplicit false

/-!
# Playing a paddle script (`harness/sim_keyer.c`, `harness/sim_paddle.c`, `harness/sim_clock.c`)

A scenario resets the harness, queues what an operator's hand does, and runs the clock. Before the
script is queued the clock has already been run, but the steps of the script end at times that are
counted from zero.

## Main definitions

* `Harness.Paddle` — the queued steps, with `hold`, `tap` and `state`.
* `Harness.keyerBegin`, `Harness.keyerTicks` — a scenario begins, and how long it runs.
* `Harness.PlaysBack` — a run that plays the script.

## Main results

* `Harness.Paddle.state_queue` — what a script says about every time.
* `Harness.reports_keyerRun` — what is played: the script without its beginning.
* `Harness.keyerRun_not_playsBack` — no script is played as a whole.

## Design

The firmware and the recorder are not part of the harness's time: they are a parameter, which sees
the clock and the paddles and does not move the clock.
-/

namespace Uvk5.Harness

/-! ## The paddles -/

/-- `Step_t`. -/
structure Step where
  /-- `contacts`. -/
  contacts : UInt32
  /-- `until_ms`: the time the step ends. -/
  untilMs : UInt32
  deriving DecidableEq

/-- `s_steps` up to `s_count`, and `s_end_ms`. -/
structure Paddle where
  /-- `s_steps`. -/
  steps : List Step
  /-- `s_end_ms`. -/
  endMs : UInt32
  deriving DecidableEq

/-- `SIM_CONTACT_NONE`. -/
def contactNone : UInt32 := 0

/-- `SIM_PADDLE_MAX_STEPS`. -/
def paddleMaxSteps : ℕ := 512

namespace Paddle

/-- `SIM_PaddleReset`. -/
def reset : Paddle := ⟨[], 0⟩

/-- `SIM_PaddleHold`. -/
def hold (contacts durationMs : UInt32) (p : Paddle) : Paddle :=
  if p.steps.length ≥ paddleMaxSteps then p
  else
    let endMs := p.endMs + durationMs
    ⟨p.steps ++ [⟨contacts, endMs⟩], endMs⟩

/-- `SIM_PaddleTap`. -/
def tap (contacts holdMs gapMs : UInt32) (p : Paddle) : Paddle :=
  let p := p.hold contacts holdMs
  if gapMs > 0 then p.hold contactNone gapMs else p

/-- `SIM_PaddleState`, when the clock shows `now`. -/
def state (p : Paddle) (now : UInt32) : UInt32 :=
  match p.steps.find? (now < ·.untilMs) with
  | some step => step.contacts
  | none => contactNone

end Paddle

/-! ## The scenario -/

/-- The firmware and the recorder: what they make of a configuration, of a tick at some time, and of
`SIM_RecordReset`. -/
structure Firmware (σ : Type) where
  /-- The resets of `SIM_KeyerBegin`, with the key input, the mode and the speed. -/
  configure : UInt8 → UInt8 → UInt8 → σ → σ
  /-- `tick`. -/
  tick : UInt32 → Paddle → σ → σ
  /-- `SIM_RecordReset`. -/
  recordReset : σ → σ

/-- The variables of the harness. -/
structure Sim (σ : Type) where
  /-- `s_now_ms`. -/
  nowMs : UInt32
  /-- The script. -/
  paddle : Paddle
  /-- `s_wpm`. -/
  wpm : UInt8
  /-- What the firmware and the recorder keep. -/
  firmware : σ

section Scenario

variable {σ : Type} (fw : Firmware σ)

/-- One turn of the loop of `SIM_ClockRun`. -/
def clockTick (s : Sim σ) : Sim σ :=
  let now := s.nowMs + 1
  { s with nowMs := now, firmware := fw.tick now s.paddle s.firmware }

/-- `SIM_ClockRun`. -/
def clockRun (ms : UInt32) (s : Sim σ) : Sim σ := (clockTick fw)^[ms.toNat] s

/-- `SIM_KeyerDitMs`, with `none` for the division by zero. -/
def keyerDitMs (wpm : UInt8) : Option UInt32 :=
  if wpm = 0 then none else some (60000 / (wpm.toUInt32 * 50))

/-- `SIM_KeyerBegin`, in whatever state an earlier scenario has left. -/
def keyerBegin (keyInput keyerMode wpm : UInt8) (s : Sim σ) : Option (Sim σ) :=
  (keyerDitMs wpm).map fun dit =>
    let s := clockRun fw (8 * dit)
      ⟨0, Paddle.reset, wpm, fw.configure keyInput keyerMode wpm s.firmware⟩
    { s with firmware := fw.recordReset s.firmware }

/-- The number of ticks of `SIM_KeyerRun`. -/
def keyerTicks (tailMs : UInt32) (s : Sim σ) : UInt32 := s.paddle.endMs - s.nowMs + tailMs

/-- `SIM_KeyerRun`. -/
def keyerRun (tailMs : UInt32) (s : Sim σ) : Sim σ := clockRun fw (keyerTicks tailMs s) s

/-- What `SIM_PaddleState` reports during the ticks of a run. -/
def reports (ms : UInt32) (s : Sim σ) : List UInt32 :=
  (List.range ms.toNat).map fun k =>
    let s := (clockTick fw)^[k + 1] s
    s.paddle.state s.nowMs

end Scenario

/-! ## The script -/

/-- A call that queues steps. -/
inductive Call where
  /-- `SIM_PaddleHold`. -/
  | hold (contacts durationMs : UInt32)
  /-- `SIM_PaddleTap`. -/
  | tap (contacts holdMs gapMs : UInt32)

/-- The call is made. -/
def Call.run : Call → Paddle → Paddle
  | .hold contacts durationMs => Paddle.hold contacts durationMs
  | .tap contacts holdMs gapMs => Paddle.tap contacts holdMs gapMs

/-- The script is queued. -/
def queue {σ : Type} (script : List Call) (s : Sim σ) : Sim σ :=
  { s with paddle := script.foldl (fun p call => call.run p) s.paddle }

/-- The contacts and the duration of each step of a call. -/
def Call.steps : Call → List (UInt32 × UInt32)
  | .hold contacts durationMs => [(contacts, durationMs)]
  | .tap contacts holdMs gapMs =>
    (contacts, holdMs) :: if gapMs > 0 then [(contactNone, gapMs)] else []

/-- The steps of a script. -/
def scriptSteps (script : List Call) : List (UInt32 × UInt32) := script.flatMap Call.steps

/-- How long some steps take together. -/
def totalMs (steps : List (UInt32 × UInt32)) : ℕ := (steps.map fun step => step.2.toNat).sum

/-- The contacts of some steps, millisecond by millisecond. -/
def timeline (steps : List (UInt32 × UInt32)) : List UInt32 :=
  steps.flatMap fun step => List.replicate step.2.toNat step.1

/-- The run has as many ticks as the script and the tail have milliseconds, and during them the
contacts of each step are reported for its duration, in order, and none afterwards. -/
structure PlaysBack {σ : Type} (fw : Firmware σ) (script : List Call) (tailMs : UInt32)
    (s : Sim σ) : Prop where
  /-- The number of ticks. -/
  ticks : (keyerTicks tailMs (queue script s)).toNat = totalMs (scriptSteps script) + tailMs.toNat
  /-- The contacts. -/
  contacts : reports fw (keyerTicks tailMs (queue script s)) (queue script s) =
    timeline (scriptSteps script) ++ List.replicate tailMs.toNat contactNone

/-! ## What a script says -/

/-- The steps that are queued behind the time `endMs`. -/
def stepsFrom (endMs : UInt32) : List (UInt32 × UInt32) → List Step
  | [] => []
  | (contacts, durationMs) :: steps =>
    ⟨contacts, endMs + durationMs⟩ :: stepsFrom (endMs + durationMs) steps

/-- The first step and the rest take together what each takes. -/
@[simp] lemma totalMs_cons (step : UInt32 × UInt32) (steps : List (UInt32 × UInt32)) :
    totalMs (step :: steps) = step.2.toNat + totalMs steps := by
  simp [totalMs]

/-- First come the contacts of the first step, and then those of the rest. -/
@[simp] lemma timeline_cons (step : UInt32 × UInt32) (steps : List (UInt32 × UInt32)) :
    timeline (step :: steps) = List.replicate step.2.toNat step.1 ++ timeline steps := by
  simp [timeline]

/-- The contacts take as many milliseconds as the steps. -/
@[simp] lemma length_timeline (steps : List (UInt32 × UInt32)) :
    (timeline steps).length = totalMs steps := by
  induction steps with
  | nil => rfl
  | cons step steps ih => simp [ih]

/-- A sum of times that does not wrap. -/
lemma toNat_add {a b : UInt32} (h : a.toNat + b.toNat < 2 ^ 32) :
    (a + b).toNat = a.toNat + b.toNat := by
  rw [UInt32.toNat_add, Nat.mod_eq_of_lt h]

/-- Every call queues its steps by `hold`. -/
lemma Call.run_eq (call : Call) (p : Paddle) :
    call.run p = call.steps.foldl (fun p step => p.hold step.1 step.2) p := by
  cases call with
  | hold contacts durationMs => rfl
  | tap contacts holdMs gapMs =>
    rw [Call.run, Paddle.tap, Call.steps]
    by_cases hgap : gapMs > 0
    · simp [hgap]
    · simp [hgap]

/-- Queueing a script is holding its steps one after the other. -/
lemma foldl_run (script : List Call) (p : Paddle) :
    script.foldl (fun p call => call.run p) p =
      (scriptSteps script).foldl (fun p step => p.hold step.1 step.2) p := by
  induction script generalizing p with
  | nil => rfl
  | cons call script ih =>
    rw [List.foldl_cons, ih, Call.run_eq, scriptSteps, scriptSteps, List.flatMap_cons,
      List.foldl_append]

/-- Steps that there is room for are queued one behind the other. -/
lemma foldl_hold {steps : List (UInt32 × UInt32)} {p : Paddle}
    (hroom : p.steps.length + steps.length ≤ paddleMaxSteps)
    (htotal : p.endMs.toNat + totalMs steps < 2 ^ 32) :
    (steps.foldl (fun p step => p.hold step.1 step.2) p).steps =
        p.steps ++ stepsFrom p.endMs steps ∧
      (steps.foldl (fun p step => p.hold step.1 step.2) p).endMs.toNat =
        p.endMs.toNat + totalMs steps := by
  induction steps generalizing p with
  | nil => simp [stepsFrom, totalMs]
  | cons step steps ih =>
    rw [List.length_cons] at hroom
    rw [totalMs_cons] at htotal
    have hhold : p.hold step.1 step.2 =
        ⟨p.steps ++ [⟨step.1, p.endMs + step.2⟩], p.endMs + step.2⟩ := by
      rw [Paddle.hold, if_neg (by omega)]
    have hend : (p.endMs + step.2).toNat = p.endMs.toNat + step.2.toNat := toNat_add (by omega)
    rw [List.foldl_cons, hhold]
    obtain ⟨hsteps, hendMs⟩ := ih
      (p := ⟨p.steps ++ [⟨step.1, p.endMs + step.2⟩], p.endMs + step.2⟩)
      (by rw [List.length_append, List.length_singleton]; omega) (by dsimp only; omega)
    rw [hsteps, hendMs, totalMs_cons, stepsFrom]
    exact ⟨by simp, by dsimp only; omega⟩

/-- The steps behind a time say what their timeline says. -/
lemma state_stepsFrom {steps : List (UInt32 × UInt32)} {startMs now endMs : UInt32}
    (htotal : startMs.toNat + totalMs steps < 2 ^ 32) (hnow : startMs.toNat ≤ now.toNat) :
    Paddle.state ⟨stepsFrom startMs steps, endMs⟩ now =
      (timeline steps)[now.toNat - startMs.toNat]?.getD contactNone := by
  induction steps generalizing startMs with
  | nil => rfl
  | cons step steps ih =>
    rw [totalMs_cons] at htotal
    have hend : (startMs + step.2).toNat = startMs.toNat + step.2.toNat := toNat_add (by omega)
    rw [timeline_cons, stepsFrom, Paddle.state, List.find?_cons]
    by_cases hin : now < startMs + step.2
    · have hlt : now.toNat < (startMs + step.2).toNat := UInt32.lt_iff_toNat_lt.mp hin
      rw [decide_eq_true hin, List.getElem?_append_left (by rw [List.length_replicate]; omega),
        List.getElem?_replicate, if_pos (by omega)]
      rfl
    · have hle : (startMs + step.2).toNat ≤ now.toNat := by
        rw [UInt32.lt_iff_toNat_lt] at hin
        omega
      have hrest := @ih (startMs + step.2) (by omega) hle
      have hindex : now.toNat - startMs.toNat - step.2.toNat =
          now.toNat - (startMs + step.2).toNat := by omega
      rw [decide_eq_false hin, List.getElem?_append_right (by rw [List.length_replicate]; omega),
        List.length_replicate, hindex, ← hrest]
      rfl

/-- **What a script says about every time.** -/
theorem Paddle.state_queue {script : List Call}
    (hroom : (scriptSteps script).length ≤ paddleMaxSteps)
    (htotal : totalMs (scriptSteps script) < 2 ^ 32) (now : UInt32) :
    (script.foldl (fun p call => call.run p) Paddle.reset).state now =
      (timeline (scriptSteps script))[now.toNat]?.getD contactNone := by
  obtain ⟨hsteps, -⟩ := foldl_hold (p := Paddle.reset)
    (show Paddle.reset.steps.length + (scriptSteps script).length ≤ paddleMaxSteps by
      simpa [Paddle.reset] using hroom)
    (by simpa [Paddle.reset] using htotal)
  rw [foldl_run, Paddle.state, hsteps]
  exact @state_stepsFrom (scriptSteps script) 0 now 0 (by simpa using htotal) (Nat.zero_le _)

/-! ## What is played -/

section Run

variable {σ : Type} {fw : Firmware σ}

/-- The clock after some ticks. -/
lemma nowMs_iterate (n : ℕ) (s : Sim σ) :
    ((clockTick fw)^[n] s).nowMs = s.nowMs + UInt32.ofNat n := by
  induction n with
  | zero => simp
  | succ n ih =>
    rw [Function.iterate_succ_apply', clockTick]
    dsimp only
    rw [ih, UInt32.ofNat_add, UInt32.add_assoc]
    rfl

/-- The clock goes on by one millisecond a tick, until it is full. -/
lemma toNat_nowMs_iterate {n : ℕ} {s : Sim σ} (h : s.nowMs.toNat + n < 2 ^ 32) :
    ((clockTick fw)^[n] s).nowMs.toNat = s.nowMs.toNat + n := by
  have hn : (UInt32.ofNat n).toNat = n :=
    UInt32.toNat_ofNat_of_lt' (Nat.lt_of_le_of_lt (Nat.le_add_left ..) h)
  rw [nowMs_iterate, toNat_add (by rwa [hn]), hn]

/-- Ticks do not change the script. -/
lemma paddle_iterate (n : ℕ) (s : Sim σ) : ((clockTick fw)^[n] s).paddle = s.paddle := by
  induction n with
  | zero => rfl
  | succ n ih => rw [Function.iterate_succ_apply', clockTick, ih]

/-- A dit takes between 4 and 1200 milliseconds. -/
lemma keyerDitMs_bounds {wpm : UInt8} {dit : UInt32} (h : keyerDitMs wpm = some dit) :
    4 ≤ dit.toNat ∧ dit.toNat ≤ 1200 := by
  rw [keyerDitMs] at h
  split at h
  · cases h
  · next hwpm =>
    obtain rfl := Option.some.inj h
    have hpos : wpm.toNat ≠ 0 := fun hzero => hwpm (UInt8.toNat_inj.mp hzero)
    have hlt := wpm.toNat_lt
    have hdit : (60000 / (wpm.toUInt32 * 50)).toNat = 60000 / (wpm.toNat * 50) := by
      rw [UInt32.toNat_div, UInt32.toNat_mul, UInt8.toNat_toUInt32]
      exact congrArg _ (Nat.mod_eq_of_lt (by simp; omega))
    rw [hdit]
    constructor
    · rw [Nat.le_div_iff_mul_le (by omega)]
      omega
    · exact Nat.div_le_of_le_mul (by omega)

/-- **A scenario begins** with an empty script and the clock at eight dits. -/
lemma keyerBegin_spec {keyInput keyerMode wpm : UInt8} {s s' : Sim σ}
    (h : keyerBegin fw keyInput keyerMode wpm s = some s') :
    ∃ dit, keyerDitMs wpm = some dit ∧ s'.paddle = Paddle.reset ∧
      s'.nowMs.toNat = 8 * dit.toNat := by
  rw [keyerBegin] at h
  obtain ⟨dit, hdit, rfl⟩ := Option.map_eq_some_iff.mp h
  refine ⟨dit, hdit, ?_, ?_⟩
  · rw [clockRun, paddle_iterate]
  · obtain ⟨-, hle⟩ := keyerDitMs_bounds hdit
    dsimp only
    rw [clockRun, nowMs_iterate]
    dsimp only
    rw [UInt32.ofNat_toNat, UInt32.zero_add, UInt32.toNat_mul]
    exact Nat.mod_eq_of_lt (by simp; omega)

/-- A list with enough of some element behind it. -/
lemma getElem?_padded {α : Type} {l : List α} {a : α} {n i : ℕ} (h : i < l.length + n) :
    (l ++ List.replicate n a)[i]? = some (l[i]?.getD a) := by
  rcases Nat.lt_or_ge i l.length with hin | hout
  · rw [List.getElem?_append_left hin, List.getElem?_eq_getElem hin, Option.getD_some]
  · rw [List.getElem?_append_right hout, List.getElem?_replicate, if_pos (by omega),
      List.getElem?_eq_none hout, Option.getD_none]

/-- **Where a run ends**: at the end of the script and its tail, counted from zero. -/
theorem nowMs_keyerRun (tailMs : UInt32) (s : Sim σ) :
    (keyerRun fw tailMs s).nowMs = s.paddle.endMs + tailMs := by
  rw [keyerRun, clockRun, nowMs_iterate, UInt32.ofNat_toNat, keyerTicks, ← UInt32.toBitVec_inj]
  simp only [UInt32.toBitVec_add, UInt32.toBitVec_sub]
  bv_omega

/-- The number of ticks of a run is what is left of the script and its tail, modulo the word. -/
lemma toNat_keyerTicks {s : Sim σ} {tailMs : UInt32} {total : ℕ}
    (hend : s.paddle.endMs.toNat = total) :
    (keyerTicks tailMs s).toNat = (total + tailMs.toNat + (2 ^ 32 - s.nowMs.toNat)) % 2 ^ 32 := by
  rw [keyerTicks, UInt32.toNat_add, UInt32.toNat_sub, hend]
  omega

/-- The end of a script that is queued when there is none yet. -/
lemma endMs_queue {s : Sim σ} {script : List Call} (hreset : s.paddle = Paddle.reset)
    (hroom : (scriptSteps script).length ≤ paddleMaxSteps)
    (htotal : totalMs (scriptSteps script) < 2 ^ 32) :
    (queue script s).paddle.endMs.toNat = totalMs (scriptSteps script) := by
  have hhold := (foldl_hold (p := Paddle.reset)
    (show Paddle.reset.steps.length + (scriptSteps script).length ≤ paddleMaxSteps by
      simpa [Paddle.reset] using hroom)
    (by simpa [Paddle.reset] using htotal)).2
  rw [queue, hreset, foldl_run, hhold]
  simp [Paddle.reset]

/-- **What is played**: if the script and its tail take longer than the clock has already been run,
the timeline without its beginning, of eight dits and a millisecond.

**Proof sketch.** The steps of the script end at times that are counted from zero, and the first
tick of the run is the one behind the time the clock shows. -/
theorem reports_keyerRun {keyInput keyerMode wpm : UInt8} {s₀ s : Sim σ} {dit : UInt32}
    (hbegin : keyerBegin fw keyInput keyerMode wpm s₀ = some s) (hdit : keyerDitMs wpm = some dit)
    {script : List Call} {tailMs : UInt32}
    (hroom : (scriptSteps script).length ≤ paddleMaxSteps)
    (htotal : totalMs (scriptSteps script) + tailMs.toNat < 2 ^ 31)
    (hlong : 8 * dit.toNat ≤ totalMs (scriptSteps script) + tailMs.toNat) :
    reports fw (keyerTicks tailMs (queue script s)) (queue script s) =
      (timeline (scriptSteps script) ++ List.replicate (tailMs.toNat + 1) contactNone).drop
        (8 * dit.toNat + 1) := by
  obtain ⟨dit', hdit', hreset, hnow⟩ := keyerBegin_spec hbegin
  rw [hdit] at hdit'
  obtain rfl := Option.some.inj hdit'
  have hend := endMs_queue hreset hroom (by omega)
  have hticks : (keyerTicks tailMs (queue script s)).toNat =
      totalMs (scriptSteps script) + tailMs.toNat - 8 * dit.toNat := by
    rw [toNat_keyerTicks hend]
    have hnow' : (queue script s).nowMs.toNat = 8 * dit.toNat := hnow
    omega
  have hlength := length_timeline (scriptSteps script)
  refine List.ext_getElem? fun k => ?_
  rw [reports, hticks, List.getElem?_map, List.getElem?_drop]
  rcases Nat.lt_or_ge k (totalMs (scriptSteps script) + tailMs.toNat - 8 * dit.toNat) with hk | hk
  · have hnow' : (queue script s).nowMs.toNat = 8 * dit.toNat := hnow
    have hclock : ((clockTick fw)^[k + 1] (queue script s)).nowMs.toNat =
        8 * dit.toNat + 1 + k := by
      rw [toNat_nowMs_iterate (by omega), hnow']
      omega
    rw [List.getElem?_range hk, Option.map_some]
    dsimp only
    rw [paddle_iterate, getElem?_padded (by omega),
      ← hclock, queue, hreset, Paddle.state_queue hroom (by omega)]
  · rw [List.getElem?_eq_none (by rw [List.length_range]; exact hk), Option.map_none,
      List.getElem?_eq_none (by rw [List.length_append, List.length_replicate]; omega)]

/-- A script that takes no longer than the clock has already been run is not seen at all. -/
theorem reports_short {keyInput keyerMode wpm : UInt8} {s₀ s : Sim σ} {dit : UInt32}
    (hbegin : keyerBegin fw keyInput keyerMode wpm s₀ = some s) (hdit : keyerDitMs wpm = some dit)
    {script : List Call} {tailMs : UInt32}
    (hroom : (scriptSteps script).length ≤ paddleMaxSteps)
    (htotal : totalMs (scriptSteps script) + tailMs.toNat < 2 ^ 31)
    (hlong : 8 * dit.toNat ≤ totalMs (scriptSteps script) + tailMs.toNat)
    (hshort : totalMs (scriptSteps script) ≤ 8 * dit.toNat) :
    ∀ contacts ∈ reports fw (keyerTicks tailMs (queue script s)) (queue script s),
      contacts = contactNone := by
  have hlength := length_timeline (scriptSteps script)
  intro contacts hmem
  rw [reports_keyerRun hbegin hdit hroom htotal hlong, List.drop_append,
    List.drop_eq_nil_of_le (by omega), List.nil_append, List.drop_replicate] at hmem
  exact List.eq_of_mem_replicate hmem

/-- The number of ticks is never that of the script and the tail. -/
lemma toNat_keyerTicks_ne {keyInput keyerMode wpm : UInt8} {s₀ s : Sim σ}
    (hbegin : keyerBegin fw keyInput keyerMode wpm s₀ = some s) {script : List Call}
    {tailMs : UInt32} (hroom : (scriptSteps script).length ≤ paddleMaxSteps)
    (htotal : totalMs (scriptSteps script) + tailMs.toNat < 2 ^ 31) :
    (keyerTicks tailMs (queue script s)).toNat ≠
      totalMs (scriptSteps script) + tailMs.toNat := by
  obtain ⟨dit, hdit, hreset, hnow⟩ := keyerBegin_spec hbegin
  obtain ⟨hlow, hhigh⟩ := keyerDitMs_bounds hdit
  have hnow' : (queue script s).nowMs.toNat = 8 * dit.toNat := hnow
  rw [toNat_keyerTicks (endMs_queue hreset hroom (by omega))]
  omega

/-- **No script is played as a whole**: after `SIM_KeyerBegin` the clock shows eight dits, which the
number of ticks leaves out.

**Proof sketch.** The number of ticks is what is left of the timeline and the tail after the eight
dits that the clock shows already (`toNat_keyerTicks_ne`). -/
theorem keyerRun_not_playsBack {keyInput keyerMode wpm : UInt8} {s₀ s : Sim σ}
    (hbegin : keyerBegin fw keyInput keyerMode wpm s₀ = some s) {script : List Call}
    {tailMs : UInt32} (hroom : (scriptSteps script).length ≤ paddleMaxSteps)
    (htotal : totalMs (scriptSteps script) + tailMs.toNat < 2 ^ 31) :
    ¬ PlaysBack fw script tailMs s :=
  fun hplays => toNat_keyerTicks_ne hbegin hroom htotal hplays.ticks

end Run

/-- A firmware that does nothing. -/
def idleFirmware : Firmware Unit := ⟨fun _ _ _ s => s, fun _ _ s => s, fun s => s⟩

/-- The dit of 60 milliseconds at 20 words per minute, held for half of it. -/
def singleDit : List Call := [.tap 1 30 0]

/-- The harness begins with this configuration. -/
lemma exists_keyerBegin :
    ∃ s, keyerBegin idleFirmware 4 1 20 ⟨0, Paddle.reset, 18, ()⟩ = some s := ⟨_, rfl⟩

/-- The dit of the example, with 600 milliseconds behind it, is not played back. -/
theorem singleDit_not_playsBack :
    ∃ s, keyerBegin idleFirmware 4 1 20 ⟨0, Paddle.reset, 18, ()⟩ = some s ∧
      ¬ PlaysBack idleFirmware singleDit 600 s := by
  obtain ⟨s, hbegin⟩ := exists_keyerBegin
  exact ⟨s, hbegin, keyerRun_not_playsBack hbegin (by decide) (by decide)⟩

/-- The script of a single dit is not played. -/
theorem singleDit_lost :
    ¬ ∀ (σ : Type) (fw : Firmware σ) (keyInput keyerMode wpm : UInt8) (s₀ s : Sim σ),
      keyerBegin fw keyInput keyerMode wpm s₀ = some s →
      ∀ (script : List Call) (tailMs : UInt32), (scriptSteps script).length ≤ paddleMaxSteps →
        totalMs (scriptSteps script) + tailMs.toNat < 2 ^ 31 → PlaysBack fw script tailMs s := by
  intro h
  obtain ⟨s, hbegin⟩ := exists_keyerBegin
  have hplays := h Unit idleFirmware 4 1 20 _ s hbegin singleDit 600 (by decide) (by decide)
  exact toNat_keyerTicks_ne hbegin (by decide) (by decide) hplays.ticks

end Uvk5.Harness
