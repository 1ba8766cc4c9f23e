import Uvk5.Display.Grabber
import Uvk5.Supervisor.Power

set_option relaxedAutoImplicit false
set_option autoImplicit false

/-!
# The frame pump (`tools/uvk5_stream.py`)

One thread grabs the screen over and over, and stores a picture of it whenever the bytes it read
have changed. It takes the grabber under a lock and stores the picture under the lock, but in
between it reads the emulator without it, several times; the emulator goes on, and requests replace
the grabber.

## Main definitions

* `Pump.State` — the pump, what its thread holds, and what the clients answer.
* `Pump.advance` — the next step of the thread.
* `Pump.rebind`, `Pump.setBuffers` — what the requests do.
* `Pump.step` — a step of any of them, or of a guest.

## Main results

* `Pump.step_cases` — which steps change the picture.
* `Pump.rebind_safe` — a frame that was read through a grabber that has been replaced is never
  shown, the screen stays dark without a client, and the generation tells pictures apart.

## Design

A PNG is what its header and its data chunk say; the data chunk holds the scanlines compressed. The
thread keeps the bytes its pixels come from beside the bytes that it compares.
-/

namespace Uvk5.Pump

open Display
open Supervisor (Client)

/-- `FRAME_BYTES`. -/
def frameBytes : ℕ := 7 * lcdWidth

/-- A PNG of 8-bit greys. -/
structure Png where
  /-- The width. -/
  width : ℕ
  /-- The height. -/
  height : ℕ
  /-- The scanlines, each after its filter type. -/
  scanlines : List UInt8
  deriving DecidableEq

/-- One row of pixels: `scale` lines, with `scale` bytes a pixel. -/
def encodeRow (scale : ℕ) (row : List ℕ) : List UInt8 :=
  (List.replicate scale
    (0 :: row.flatMap fun value => List.replicate scale (if value ≠ 0 then 0x00 else 0xff))).flatten

/-- `encode_png`. -/
def encodePng (pixels : Pixels) (scale : ℕ) : Png where
  width := lcdWidth * scale
  height := lcdHeight * scale
  scanlines := pixels.flatMap (encodeRow scale)

/-- What a client answers: the panel and the guest's memory, or the text of the exception. -/
structure Guest where
  /-- `qom-get` of the panel. -/
  panel : Except String Panel.State
  /-- `memsave`. -/
  memory : Except String (ℕ → UInt8)

/-- `FrameGrabber`. -/
structure Grabber where
  /-- Which object it is. -/
  id : ℕ
  /-- `_client`. -/
  client : Client
  /-- `_frame_addr`. -/
  frameAddr : ℕ
  /-- `_status_addr`. -/
  statusAddr : ℕ
  deriving DecidableEq

/-- The status line and the frame. -/
abbrev Raw := List UInt8 × List UInt8

/-- The status line and the frame in the display RAM. -/
def split (gram : List UInt8) : Raw := (gram.take statusBytes, gram.drop statusBytes)

/-- Why a frame came from the guest's memory. -/
inductive Reason where
  /-- The panel did not answer. -/
  | unreachable (text : String)
  /-- It answered something else. -/
  | pixels (e : PixelError)
  deriving DecidableEq

/-- Which memory the pixels came from. -/
inductive Source where
  /-- `"panel"`. -/
  | panel
  /-- `"framebuffer"`. -/
  | framebuffer
  deriving DecidableEq

/-- Where the thread is in an iteration. -/
inductive Phase where
  /-- Between two iterations. -/
  | idle
  /-- The grabber has been taken. -/
  | fetched (g : Grabber)
  /-- `panel_pixels` has the display RAM. -/
  | gram (g : Grabber) (hexed : List Char)
  /-- `panel_state` has the inversion flag. -/
  | inverted (g : Grabber) (hexed : List Char) (invert : Bool)
  /-- `panel_pixels` has returned, with the bytes its pixels are of. -/
  | drawn (g : Grabber) (bytes : Raw) (pixels : Pixels)
  /-- The panel raised. -/
  | fallback (g : Grabber)
  /-- `raw` has the frame. -/
  | saved (g : Grabber) (frame : List UInt8)
  /-- `_grab` has returned: the bytes the pixels are of, the bytes to compare, and the pixels. -/
  | grabbed (g : Grabber) (bytes current : Raw) (pixels : Pixels)
  deriving DecidableEq

/-- The grabber the thread holds. -/
def Phase.grabber : Phase → Option Grabber
  | .idle => none
  | .fetched g => some g
  | .gram g _ => some g
  | .inverted g _ _ => some g
  | .drawn g _ _ => some g
  | .fallback g => some g
  | .saved g _ => some g
  | .grabbed g _ _ _ => some g

/-- `FramePump`, its thread and the guests. -/
structure State where
  /-- `_frame_addr`. -/
  frameAddr : ℕ
  /-- `_status_addr`. -/
  statusAddr : ℕ
  /-- `_scale`. -/
  scale : ℕ
  /-- `_grabber`. -/
  grabber : Option Grabber
  /-- `_png`. -/
  png : Option Png
  /-- `_raw`. -/
  raw : Option Raw
  /-- `_generation`. -/
  generation : ℕ
  /-- `_source`. -/
  source : Option Source
  /-- `_note`. -/
  note : Option Reason
  /-- The calls of `on_fallback`. -/
  told : List Reason
  /-- The next grabber that is made. -/
  nextId : ℕ
  /-- The thread. -/
  phase : Phase
  /-- What the clients answer. -/
  guest : Client → Guest

/-- `FramePump(client, frame_addr, status_addr, scale)`. -/
def State.new (client : Option Client) (frameAddr statusAddr scale : ℕ) (guest : Client → Guest) :
    State where
  frameAddr := frameAddr
  statusAddr := statusAddr
  scale := scale
  grabber := client.map fun client => ⟨0, client, frameAddr, statusAddr⟩
  png := none
  raw := none
  generation := 0
  source := none
  note := none
  told := []
  nextId := 1
  phase := .idle
  guest := guest

/-- `latest`. -/
def State.latest (s : State) : Option Png := s.png

/-! ## The requests -/

/-- `rebind`. -/
def rebind (s : State) (client : Option Client) : State :=
  { s with
    grabber := client.map fun client => ⟨s.nextId, client, s.frameAddr, s.statusAddr⟩
    nextId := s.nextId + 1
    png := if client.isNone then none else s.png
    raw := if client.isNone then none else s.raw
    generation := s.generation + 1 }

/-- `set_buffers`. -/
def setBuffers (s : State) (frameAddr statusAddr : ℕ) : State :=
  { s with
    frameAddr := frameAddr
    statusAddr := statusAddr
    grabber := s.grabber.map fun g => ⟨s.nextId, g.client, frameAddr, statusAddr⟩
    nextId := s.nextId + 1 }

/-! ## The thread -/

/-- The handler of `_grab`: the first reason is remembered, and the frame comes from memory. -/
def fallBack (s : State) (g : Grabber) (why : Reason) : State :=
  let s := if s.source ≠ some .framebuffer then
      { s with note := some why, told := why :: s.told }
    else s
  { s with source := some .framebuffer, phase := .fallback g }

/-- `panel_pixels` has the settings of the panel: it unpacks the display RAM it read, and inverts
it. -/
def draw (s : State) (g : Grabber) (hexed : List Char) (invert : Bool) : State :=
  match panelPixels hexed invert with
  | .error e => fallBack s g (.pixels e)
  | .ok pixels => { s with phase := .drawn g (split ((Hex.decode hexed).getD [])) pixels }

/-- Bytes of the guest's memory. -/
def memsave (memory : ℕ → UInt8) (addr size : ℕ) : List UInt8 :=
  (List.range size).map fun i => memory (addr + i)

/-- The end of an iteration, under the lock: the picture is stored if the grabber is still the same
object, and the bytes are not. -/
def publish (s : State) (g : Grabber) (current : Raw) (pixels : Pixels) : State :=
  if s.grabber.map Grabber.id = some g.id ∧ s.raw ≠ some current then
    { s with
      raw := some current
      png := some (encodePng pixels s.scale)
      generation := s.generation + 1
      phase := .idle }
  else { s with phase := .idle }

/-- The next step of the thread: it takes the grabber, reads once, or ends the iteration. -/
def advance (s : State) : State :=
  match s.phase with
  | .idle =>
    match s.grabber with
    | none => s
    | some g => { s with phase := .fetched g }
  | .fetched g =>
    match (s.guest g.client).panel with
    | .error text => fallBack s g (.unreachable text)
    | .ok panel => { s with phase := .gram g (Panel.getGram panel) }
  | .gram g hexed =>
    match (s.guest g.client).panel with
    | .error _ => draw s g hexed false
    | .ok panel => { s with phase := .inverted g hexed panel.invert }
  | .inverted g hexed invert =>
    -- `contrast` and `display-on` are read; only an exception matters.
    match (s.guest g.client).panel with
    | .error _ => draw s g hexed false
    | .ok _ => draw s g hexed invert
  | .drawn g bytes pixels =>
    match (s.guest g.client).panel with
    | .error text => fallBack s g (.unreachable text)
    | .ok panel =>
      match Hex.decode (Panel.getGram panel) with
      | none => fallBack s g (.pixels .notHex)
      | some gram =>
        { s with
          source := some .panel
          note := none
          phase := .grabbed g bytes (split gram) pixels }
  | .fallback g =>
    match (s.guest g.client).memory with
    | .error _ => { s with phase := .idle }
    | .ok memory => { s with phase := .saved g (memsave memory g.frameAddr frameBytes) }
  | .saved g frame =>
    match (s.guest g.client).memory with
    | .error _ => { s with phase := .idle }
    | .ok memory =>
      let status := memsave memory g.statusAddr statusBytes
      match unpack status frame with
      | .error _ => { s with phase := .idle }
      | .ok pixels => { s with phase := .grabbed g (status, frame) (status, frame) pixels }
  | .grabbed g _ current pixels => publish s g current pixels

/-- What can happen. -/
inductive Event where
  /-- The thread goes on. -/
  | advance
  /-- A request calls `rebind`. -/
  | rebind (client : Option Client)
  /-- A request calls `set_buffers`. -/
  | setBuffers (frameAddr statusAddr : ℕ)
  /-- What a client answers changes. -/
  | guest (client : Client) (guest : Guest)

/-- One step. -/
def step (s : State) : Event → State
  | .advance => advance s
  | .rebind client => rebind s client
  | .setBuffers frameAddr statusAddr => setBuffers s frameAddr statusAddr
  | .guest client guest => { s with guest := Function.update s.guest client guest }

/-! ## What a step changes -/

/-- The iteration ends with a picture that is stored. -/
def Publishes (s : State) (g : Grabber) (bytes current : Raw) (pixels : Pixels) : Prop :=
  s.phase = .grabbed g bytes current pixels ∧ s.grabber.map Grabber.id = some g.id ∧
    s.raw ≠ some current

/-- The pump shows the same as before. -/
structure Same (s s' : State) : Prop where
  /-- `_png`. -/
  png : s'.png = s.png
  /-- `_raw`. -/
  raw : s'.raw = s.raw
  /-- `_generation`. -/
  generation : s'.generation = s.generation

/-- The thread leaves the grabber, the size and the guests to others. -/
structure Frame (s s' : State) : Prop where
  /-- `_grabber`. -/
  grabber : s'.grabber = s.grabber
  /-- The objects made so far. -/
  nextId : s'.nextId = s.nextId
  /-- `_scale`. -/
  scale : s'.scale = s.scale
  /-- The guests. -/
  guest : s'.guest = s.guest

/-- What the thread holds after a step that does not store a picture: nothing, what it held, or the
grabber it took. -/
structure Moves (s s' : State) : Prop extends Same s s', Frame s s' where
  /-- The grabber of the thread. -/
  holds : s'.phase.grabber = none ∨ s'.phase.grabber = s.phase.grabber ∨
    s.phase = .idle ∧ s'.phase.grabber = s.grabber

section Thread

variable {s : State} {g : Grabber}

/-- Falling back to the guest's memory keeps the grabber the thread holds. -/
lemma moves_fallBack (hg : s.phase.grabber = some g) (why : Reason) :
    Moves s (fallBack s g why) := by
  have hholds : (fallBack s g why).phase.grabber = some g := rfl
  unfold fallBack at hholds ⊢
  split
  · exact ⟨⟨rfl, rfl, rfl⟩, ⟨rfl, rfl, rfl, rfl⟩, .inr (.inl hg.symm)⟩
  · exact ⟨⟨rfl, rfl, rfl⟩, ⟨rfl, rfl, rfl, rfl⟩, .inr (.inl hg.symm)⟩

/-- The thread goes on with the grabber it holds, or takes it, or ends the iteration. -/
lemma moves_phase {phase : Phase}
    (h : phase.grabber = none ∨ phase.grabber = s.phase.grabber ∨
      s.phase = .idle ∧ phase.grabber = s.grabber) : Moves s { s with phase := phase } :=
  ⟨⟨rfl, rfl, rfl⟩, ⟨rfl, rfl, rfl, rfl⟩, h⟩

/-- Drawing keeps the grabber the thread holds. -/
lemma moves_draw (hg : s.phase.grabber = some g) (hexed : List Char) (invert : Bool) :
    Moves s (draw s g hexed invert) := by
  rw [draw]
  split
  · exact moves_fallBack hg _
  · exact moves_phase (.inr (.inl hg.symm))

/-- **A step of the thread** stores a picture, or shows the same as before.

**Proof sketch.** By the phase of the thread. Only the last one stores a picture, if `publish`
finds the same grabber and other bytes; every other one hands its grabber on, falls back to the
memory of the guest or gives up. -/
theorem advance_cases (s : State) :
    Moves s (advance s) ∨ ∃ g bytes current pixels, Publishes s g bytes current pixels ∧
      advance s = { s with
        raw := some current
        png := some (encodePng pixels s.scale)
        generation := s.generation + 1
        phase := .idle } := by
  rw [advance]
  cases hphase : s.phase with
  | idle =>
    refine .inl ?_
    dsimp only
    split
    · exact moves_phase (.inr (.inl rfl))
    · next g hg => exact ⟨⟨rfl, rfl, rfl⟩, ⟨rfl, rfl, rfl, rfl⟩, .inr (.inr ⟨hphase, hg.symm⟩)⟩
  | fetched g =>
    have hg : s.phase.grabber = some g := by rw [hphase]; rfl
    refine .inl ?_
    dsimp only
    split
    · exact moves_fallBack hg _
    · exact moves_phase (.inr (.inl hg.symm))
  | gram g hexed =>
    have hg : s.phase.grabber = some g := by rw [hphase]; rfl
    refine .inl ?_
    dsimp only
    split
    · exact moves_draw hg _ _
    · exact moves_phase (.inr (.inl hg.symm))
  | inverted g hexed invert =>
    have hg : s.phase.grabber = some g := by rw [hphase]; rfl
    refine .inl ?_
    dsimp only
    split
    · exact moves_draw hg _ _
    · exact moves_draw hg _ _
  | drawn g bytes pixels =>
    have hg : s.phase.grabber = some g := by rw [hphase]; rfl
    refine .inl ?_
    dsimp only
    split
    · exact moves_fallBack hg _
    · split
      · exact moves_fallBack hg _
      · exact ⟨⟨rfl, rfl, rfl⟩, ⟨rfl, rfl, rfl, rfl⟩, .inr (.inl hg.symm)⟩
  | fallback g =>
    have hg : s.phase.grabber = some g := by rw [hphase]; rfl
    refine .inl ?_
    dsimp only
    split
    · exact moves_phase (.inl rfl)
    · exact moves_phase (.inr (.inl hg.symm))
  | saved g frame =>
    have hg : s.phase.grabber = some g := by rw [hphase]; rfl
    refine .inl ?_
    dsimp only
    split
    · exact moves_phase (.inl rfl)
    · split
      · exact moves_phase (.inl rfl)
      · exact moves_phase (.inr (.inl hg.symm))
  | grabbed g bytes current pixels =>
    dsimp only
    rw [publish]
    split
    · next hpublishes => exact .inr ⟨g, bytes, current, pixels, ⟨hphase, hpublishes⟩, rfl⟩
    · exact .inl (moves_phase (.inl rfl))

/-- The thread leaves the grabber, the size and the guests. -/
lemma frame_advance (s : State) : Frame s (advance s) := by
  rcases advance_cases s with hmoves | ⟨g, bytes, current, pixels, -, hstep⟩
  · exact hmoves.toFrame
  · rw [hstep]
    exact ⟨rfl, rfl, rfl, rfl⟩

end Thread

/-- **Which steps change the picture**: those that increase the generation. -/
theorem step_cases (s : State) (e : Event) :
    (step s e).png = s.png ∧ s.generation ≤ (step s e).generation ∨
      s.generation < (step s e).generation := by
  cases e with
  | advance =>
    rcases advance_cases s with hmoves | ⟨g, bytes, current, pixels, -, hstep⟩
    · exact .inl ⟨hmoves.png, Nat.le_of_eq hmoves.generation.symm⟩
    · refine .inr ?_
      rw [step, hstep]
      exact Nat.lt_succ_self _
  | rebind client => exact .inr (Nat.lt_succ_self _)
  | setBuffers frameAddr statusAddr => exact .inl ⟨rfl, Nat.le_refl _⟩
  | guest client guest => exact .inl ⟨rfl, Nat.le_refl _⟩

/-- Along a run the generation never decreases, and while it stays the picture does. -/
lemma generation_run (s : State) (events : List Event) :
    s.generation ≤ (events.foldl step s).generation ∧
      (s.generation = (events.foldl step s).generation →
        s.latest = (events.foldl step s).latest) := by
  induction events generalizing s with
  | nil => exact ⟨Nat.le_refl _, fun _ => rfl⟩
  | cons e events ih =>
    obtain ⟨hle, hsame⟩ := ih (step s e)
    rw [List.foldl_cons]
    rcases step_cases s e with ⟨hpng, hgeneration⟩ | hlt
    · refine ⟨Nat.le_trans hgeneration hle, fun heq => ?_⟩
      have hstays : s.generation = (step s e).generation :=
        Nat.le_antisymm hgeneration (heq ▸ hle)
      exact hpng.symm.trans (hsame (hstays ▸ heq))
    · exact ⟨Nat.le_trans (Nat.le_of_lt hlt) hle,
        fun heq => absurd (Nat.lt_of_lt_of_le hlt hle) (heq ▸ Nat.lt_irrefl _)⟩

/-! ## Grabbers that were replaced -/

/-- The pump, and whether the grabber was replaced since the thread took it. -/
structure Trace where
  /-- The pump. -/
  pump : State
  /-- `_grabber` was assigned since the thread took it. -/
  replaced : Bool

/-- One step. -/
def Trace.step (t : Trace) (e : Event) : Trace where
  pump := Pump.step t.pump e
  replaced :=
    match e with
    | .advance => if t.pump.phase = .idle then false else t.replaced
    | .rebind _ => true
    | .setBuffers _ _ => t.replaced || t.pump.grabber.isSome
    | .guest _ _ => t.replaced

/-- The objects are numbered, and one that was replaced is not the grabber any more. -/
structure Inv (t : Trace) : Prop where
  /-- The grabber has been made. -/
  grabber_lt : ∀ g ∈ t.pump.grabber, g.id < t.pump.nextId
  /-- So has that of the thread. -/
  holds_lt : ∀ g ∈ t.pump.phase.grabber, g.id < t.pump.nextId
  /-- It is another one if it was replaced. -/
  replaced_ne : t.replaced = true → ∀ g ∈ t.pump.phase.grabber, ∀ g' ∈ t.pump.grabber, g.id ≠ g'.id

/-- The grabber is replaced by a new object. -/
lemma Inv.replace {t : Trace} (h : Inv t) {pump : State} {replaced : Bool}
    (hgrabber : ∀ g ∈ pump.grabber, g.id = t.pump.nextId) (hphase : pump.phase = t.pump.phase)
    (hnext : pump.nextId = t.pump.nextId + 1) : Inv ⟨pump, replaced⟩ := by
  refine ⟨fun g hg => ?_, fun g hg => ?_, fun _ g hg g' hg' => ?_⟩
  · dsimp only at hg ⊢
    rw [hgrabber g hg, hnext]
    exact Nat.lt_succ_self _
  · dsimp only at hg ⊢
    rw [hphase] at hg
    rw [hnext]
    exact Nat.lt_succ_of_lt (h.holds_lt g hg)
  · dsimp only at hg hg' ⊢
    rw [hphase] at hg
    rw [hgrabber g' hg']
    exact Nat.ne_of_lt (h.holds_lt g hg)

/-- Every step keeps the numbers of the objects.

**Proof sketch.** A request replaces the grabber by a new object with the next number. A step of
the thread holds what it held, or takes the present grabber when it begins an iteration; so after
a replacement it holds an older one until the iteration ends. -/
lemma inv_step {t : Trace} (h : Inv t) (e : Event) : Inv (t.step e) := by
  cases e with
  | guest client guest => exact ⟨h.grabber_lt, h.holds_lt, h.replaced_ne⟩
  | rebind client =>
    refine h.replace (fun g hg => ?_) rfl rfl
    obtain ⟨c, -, rfl⟩ := Option.map_eq_some_iff.mp hg
    rfl
  | setBuffers frameAddr statusAddr =>
    refine h.replace (fun g hg => ?_) rfl rfl
    obtain ⟨c, -, rfl⟩ := Option.map_eq_some_iff.mp hg
    rfl
  | advance =>
    have hframe := frame_advance t.pump
    have hstep : (t.step .advance).pump = advance t.pump := rfl
    have hholds : ∀ g ∈ (advance t.pump).phase.grabber,
        g ∈ t.pump.phase.grabber ∨ t.pump.phase = .idle ∧ g ∈ t.pump.grabber := by
      intro g hg
      rcases advance_cases t.pump with hmoves | ⟨g', bytes, current, pixels, -, hpublished⟩
      · rcases hmoves.holds with hnone | hsame | ⟨hidle, htaken⟩
        · rw [hnone] at hg
          cases hg
        · exact .inl (hsame ▸ hg)
        · exact .inr ⟨hidle, htaken ▸ hg⟩
      · rw [hpublished] at hg
        cases hg
    refine ⟨fun g hg => ?_, fun g hg => ?_, fun hreplaced g hg g' hg' => ?_⟩
    · rw [hstep, hframe.grabber] at hg
      rw [hstep, hframe.nextId]
      exact h.grabber_lt g hg
    · rw [hstep] at hg
      rw [hstep, hframe.nextId]
      rcases hholds g hg with hheld | ⟨-, htaken⟩
      · exact h.holds_lt g hheld
      · exact h.grabber_lt g htaken
    · rw [hstep] at hg hg'
      rw [hframe.grabber] at hg'
      have hbusy : t.pump.phase ≠ .idle ∧ t.replaced = true := by
        change (if t.pump.phase = .idle then false else t.replaced) = true at hreplaced
        split at hreplaced
        · cases hreplaced
        · next hbusy => exact ⟨hbusy, hreplaced⟩
      rcases hholds g hg with hheld | ⟨hidle, -⟩
      · exact h.replaced_ne hbusy.2 g hheld g' hg'
      · exact absurd hidle hbusy.1

/-- A frame that was read through a grabber that was replaced is not stored. -/
lemma Inv.same {t : Trace} (h : Inv t) (hreplaced : t.replaced = true) :
    Same t.pump (advance t.pump) := by
  rcases advance_cases t.pump with hmoves | ⟨g, bytes, current, pixels, hpublishes, -⟩
  · exact hmoves.toSame
  · obtain ⟨hphase, hsame, -⟩ := hpublishes
    obtain ⟨g', hg', hid⟩ := Option.map_eq_some_iff.mp hsame
    exact absurd hid.symm (h.replaced_ne hreplaced g (by rw [hphase]; rfl) g' hg')

/-- Without a grabber the screen stays dark. -/
lemma dark_run (events : List Event) (hevents : ∀ e ∈ events, ∀ client, e ≠ .rebind (some client))
    {s : State} (hgrabber : s.grabber = none) (hpng : s.png = none) :
    (events.foldl step s).latest = none := by
  induction events generalizing s with
  | nil => exact hpng
  | cons e events ih =>
    have hrest := fun e' he' => hevents e' (List.mem_cons_of_mem e he')
    rw [List.foldl_cons]
    cases e with
    | advance =>
      refine ih hrest ((frame_advance s).grabber.trans hgrabber) ?_
      rcases advance_cases s with hmoves | ⟨g, bytes, current, pixels, ⟨-, hsame, -⟩, -⟩
      · exact hmoves.png.trans hpng
      · rw [hgrabber] at hsame
        cases hsame
    | rebind client =>
      cases client with
      | none => exact ih hrest rfl rfl
      | some client => exact absurd rfl (hevents _ (List.mem_cons_self ..) client)
    | setBuffers frameAddr statusAddr =>
      refine ih hrest ?_ hpng
      rw [step, setBuffers, hgrabber]
      rfl
    | guest client guest => exact ih hrest hgrabber hpng

/-- **Rebinding is safe**: for every interleaving of the thread with `rebind`, `set_buffers` and the
guests, a frame that was read through a grabber that has been replaced since is not stored; from a
`rebind(None)` to the next `rebind` to a client the screen is dark; and the picture changes only in
a step that increases the generation, so that the generation never decreases and equal generations
mean the same picture.

**Proof sketch.** A grabber that is made gets a number that no object had before, so one that was
replaced is never the grabber again (`inv_step`), and `advance_cases` says that only a frame of the
grabber is stored. -/
theorem rebind_safe (client : Option Client) (frameAddr statusAddr scale : ℕ)
    (guest : Client → Guest) (events : List Event) :
    let t := events.foldl Trace.step ⟨.new client frameAddr statusAddr scale guest, false⟩
    (t.replaced = true → Same t.pump (advance t.pump)) ∧
      (∀ later : List Event, (∀ e ∈ later, ∀ client, e ≠ .rebind (some client)) →
        (later.foldl step (rebind t.pump none)).latest = none) ∧
      (∀ e, (step t.pump e).latest ≠ t.pump.latest →
        t.pump.generation < (step t.pump e).generation) ∧
      ∀ later : List Event, t.pump.generation ≤ (later.foldl step t.pump).generation ∧
        (t.pump.generation = (later.foldl step t.pump).generation →
          t.pump.latest = (later.foldl step t.pump).latest) := by
  intro t
  have hstart : Inv ⟨.new client frameAddr statusAddr scale guest, false⟩ := by
    refine ⟨fun g hg => ?_, nofun, nofun⟩
    obtain ⟨c, -, rfl⟩ := Option.map_eq_some_iff.mp hg
    exact Nat.one_pos
  have ht : Inv t := Run.foldl_of_step (I := Inv) (fun _ e h => inv_step h e) events hstart
  refine ⟨ht.same, fun later hlater => dark_run later hlater rfl rfl,
    fun e hne => ?_, generation_run t.pump⟩
  exact (step_cases t.pump e).resolve_left fun hsame => hne hsame.1

end Uvk5.Pump
