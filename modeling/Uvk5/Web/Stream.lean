import Mathlib.Data.List.Induction
import Uvk5.Display.Pump
import Uvk5.Lib.Multipart
import Uvk5.Lib.Run

set_option relaxedAutoImplicit false
set_option autoImplicit false

/-!
# The stream of the screen (`tools/webui.py`)

A viewer of `/stream` asks the pump for the picture and then for its generation, and sends the
picture if the generation is new or if nothing was sent for a while. The pump takes its lock for
each of the two, but not for both: a picture that is stored in between is taken for one that was
sent.

## Main definitions

* `Stream.Viewer`, `Stream.Viewer.step` — the generator behind `/stream`.
* `Stream.frame` — a picture on the wire.
* `Stream.System`, `Stream.Event` — the pump, a viewer and the time, and what may happen.
* `Stream.Watch` — the system, with what the viewer's reads were.

## Main results

* `Stream.Inv.step` — what every step keeps.
* `Stream.viewer_sees` — what a client finds in the bytes it got, and when it misses a picture.

## Design

Viewers only read, so the others are left out. The time is counted in milliseconds.
-/

namespace Uvk5.Stream

open Multipart
open Pump (Png)

/-! ## The wire -/

/-- `BOUNDARY`. -/
def boundary : List UInt8 := ascii "uvk5frame"

/-- What `frames` yields for a picture. -/
def frame (png : List UInt8) : List UInt8 :=
  ascii "--" ++ boundary ++ crlf ++ ascii "Content-Type: image/png" ++ crlf ++
    ascii "Content-Length: " ++ digits png.length ++ crlf ++ crlf ++ png ++ crlf

/-- The part that it is. -/
def part (png : List UInt8) : Part :=
  ⟨[ascii "Content-Type: image/png", lengthHeader ++ digits png.length], png⟩

/-- What is yielded for a picture is a part. -/
lemma frame_eq (png : List UInt8) : frame png = (part png).bytes boundary := by
  simp [frame, part, Part.bytes, delimiter, lengthHeader]

/-- Such a part can be written. -/
lemma fits_part (png : List UInt8) : (part png).Fits boundary 3 := by
  have hother : ¬ lengthHeader <+: ascii "Content-Type: image/png" := by decide
  refine ⟨by decide, ?_, Nat.lt_succ_self 2, ?_⟩
  · refine List.forall_mem_cons.mpr ⟨by decide, List.forall_mem_singleton.mpr ⟨?_, ?_⟩⟩
    · exact List.append_ne_nil_of_left_ne_nil (by decide) _
    · rw [List.mem_append, not_or]
      exact ⟨by decide, cr_notMem_digits _⟩
  · rw [contentLength, part, List.findSome?_cons, if_neg hother, List.findSome?_cons,
      if_pos (List.prefix_append ..), List.drop_left, decimal_digits]

/-! ## A viewer -/

/-- `IDLE_FRAME_INTERVAL_S`. -/
def idleFrameInterval : ℕ := 2000

/-- Where a viewer is in its loop. -/
inductive Phase where
  /-- At the condition. -/
  | idle
  /-- `latest` has returned. -/
  | looked (png : Option Png)
  /-- `generation` has returned. -/
  | counted (png : Option Png) (generation : ℕ)

/-- The picture it holds. -/
def Phase.held : Phase → Option (Option Png)
  | .idle => none
  | .looked png => some png
  | .counted png _ => some png

/-- A run of `frames`. -/
structure Viewer where
  /-- `limit`. -/
  limit : Option ℤ
  /-- `sent`. -/
  sent : ℕ
  /-- `seen`, with `none` for -1. -/
  seen : Option ℕ
  /-- `last_sent_at`. -/
  lastSentAt : ℕ
  /-- Where it is. -/
  phase : Phase
  /-- What it has yielded. -/
  parts : List Png

/-- A viewer that has just come. -/
def Viewer.start (limit : Option ℤ) : Viewer := ⟨limit, 0, none, 0, .idle, []⟩

/-- The condition of the loop. -/
def Viewer.More (v : Viewer) : Prop := ∀ limit ∈ v.limit, (v.sent : ℤ) < limit

instance (v : Viewer) : Decidable v.More := inferInstanceAs (Decidable (∀ limit ∈ v.limit, _))

/-- The picture is sent on change, and otherwise at the idle rate. -/
def Viewer.Sends (v : Viewer) (generation now : ℕ) : Prop :=
  some generation ≠ v.seen ∨ v.lastSentAt + idleFrameInterval ≤ now ∨ v.limit.isSome = true

instance (v : Viewer) (generation now : ℕ) : Decidable (v.Sends generation now) :=
  inferInstanceAs (Decidable (_ ∨ _))

/-- The next step of a viewer. -/
def Viewer.step (v : Viewer) (s : Pump.State) (now : ℕ) : Viewer :=
  match v.phase with
  | .idle => if v.More then { v with phase := .looked s.latest } else v
  | .looked png => { v with phase := .counted png s.generation }
  | .counted none _ => { v with phase := .idle }
  | .counted (some png) generation =>
    if v.Sends generation now then
      { v with
        seen := some generation
        lastSentAt := now
        parts := v.parts ++ [png]
        sent := v.sent + 1
        phase := .idle }
    else { v with phase := .idle }

/-! ## Runs -/

/-- The pump, a viewer and the time. -/
structure System where
  /-- The pump. -/
  pump : Pump.State
  /-- The viewer. -/
  viewer : Viewer
  /-- `time.monotonic`. -/
  now : ℕ

/-- What may happen. -/
inductive Event where
  /-- Something happens at the pump. -/
  | pump (e : Pump.Event)
  /-- The viewer goes on. -/
  | viewer
  /-- Time passes. -/
  | wait (ms : ℕ)

/-- One step. -/
def System.step (s : System) : Event → System
  | .pump e => { s with pump := Pump.step s.pump e }
  | .viewer => { s with viewer := s.viewer.step s.pump s.now }
  | .wait ms => { s with now := s.now + ms }

/-- This step of the pump is one of its thread that stores a picture. -/
def stores (s : Pump.State) (e : Pump.Event) : Bool :=
  match e, s.phase with
  | .advance, .grabbed g _ current _ =>
    decide (s.grabber.map Pump.Grabber.id = some g.id ∧ s.raw ≠ some current)
  | _, _ => false

/-- The system, with what the viewer's reads were. -/
structure Watch where
  /-- The system. -/
  system : System
  /-- The generation when the viewer last asked for the picture. -/
  taken : ℕ
  /-- The pump's thread has stored a picture since then, before the viewer asked for the
  generation. -/
  stored : Bool
  /-- It had, when the viewer sent the last part. -/
  torn : Bool

/-- One step. -/
def Watch.step (w : Watch) (e : Event) : Watch where
  system := w.system.step e
  taken :=
    match e, w.system.viewer.phase with
    | .viewer, .idle => w.system.pump.generation
    | _, _ => w.taken
  stored :=
    match e, w.system.viewer.phase with
    | .viewer, .idle => false
    | .pump e, .looked _ => w.stored || stores w.system.pump e
    | _, _ => w.stored
  torn :=
    match e, w.system.viewer.phase with
    | .viewer, .counted (some _) generation =>
      if w.system.viewer.Sends generation w.system.now then w.stored else w.torn
    | _, _ => w.torn

/-! ## What a viewer missed -/

/-- A step that stores no picture leaves the one that is there, or none. -/
lemma latest_of_stores {s : Pump.State} {e : Pump.Event} (h : stores s e = false) :
    (Pump.step s e).latest = s.latest ∨ (Pump.step s e).latest = none := by
  cases e with
  | advance =>
    rcases Pump.advance_cases s with hmoves | ⟨g, bytes, current, pixels, hpublishes, -⟩
    · exact .inl hmoves.png
    · obtain ⟨hphase, hstores⟩ := hpublishes
      simp only [stores, hphase] at h
      exact absurd hstores (of_decide_eq_false h)
  | rebind client =>
    cases client with
    | none => exact .inr rfl
    | some client => exact .inl rfl
  | setBuffers frameAddr statusAddr => exact .inl rfl
  | guest client guest => exact .inl rfl

/-- The generation is not new; while it is that of the pump, the pump has this picture or none. -/
structure Past (generation : ℕ) (png : Option Png) (s : Pump.State) : Prop where
  /-- The generation. -/
  le : generation ≤ s.generation
  /-- The picture. -/
  png : generation = s.generation → s.latest = png ∨ s.latest = none

/-- A step of the pump that leaves the generation leaves the picture. -/
lemma Past.step {generation : ℕ} {png : Option Png} {s : Pump.State} (h : Past generation png s)
    (e : Pump.Event) : Past generation png (Pump.step s e) := by
  rcases Pump.step_cases s e with ⟨hpng, hle⟩ | hlt
  · refine ⟨Nat.le_trans h.le hle, fun heq => ?_⟩
    have hsame : generation = s.generation := Nat.le_antisymm h.le (heq ▸ hle)
    have hlatest : (Pump.step s e).latest = s.latest := hpng
    rw [hlatest]
    exact h.png hsame
  · have hle := h.le
    exact ⟨by omega, fun heq => by omega⟩

/-- The generation of the pump never decreases. -/
lemma generation_le (s : Pump.State) (e : Pump.Event) :
    s.generation ≤ (Pump.step s e).generation := by
  rcases Pump.step_cases s e with ⟨-, hle⟩ | hlt
  · exact hle
  · exact Nat.le_of_lt hlt

/-- The last part. -/
def Viewer.last (v : Viewer) : Option Png := v.parts.getLast?

/-- What the viewer knows of the pump. -/
structure Inv (w : Watch) : Prop where
  /-- The generation when it asked for the picture it holds is not new. -/
  held : w.system.viewer.phase.held.isSome → w.taken ≤ w.system.pump.generation
  /-- Before it asks for the generation, the pump has the picture it holds or none, unless one was
  stored. -/
  looked : ∀ png, w.system.viewer.phase = .looked png → w.stored = false →
    w.system.pump.latest = png ∨ w.system.pump.latest = none
  /-- The generation it holds is not older. -/
  counted : ∀ png generation, w.system.viewer.phase = .counted png generation →
    w.taken ≤ generation ∧ generation ≤ w.system.pump.generation
  /-- The picture it holds is of the generation it holds, unless one was stored. -/
  read : ∀ png generation, w.system.viewer.phase = .counted png generation → w.stored = false →
    Past generation png w.system.pump
  /-- The last part is of the generation it is taken for, unless that read was torn. -/
  last : ∀ generation ∈ w.system.viewer.seen, w.torn = false →
    Past generation w.system.viewer.last w.system.pump
  /-- What was sent is not newer than what it holds. -/
  seen : ∀ generation ∈ w.system.viewer.seen, generation ≤ w.system.pump.generation ∧
    (w.system.viewer.phase.held.isSome → generation ≤ w.taken)
  /-- What it holds is the last part or nothing, if that is of the same generation. -/
  same : w.torn = false → w.taken ∈ w.system.viewer.seen →
    ∀ png ∈ w.system.viewer.phase.held, png = w.system.viewer.last ∨ png = none

section Steps

variable {w : Watch}

/-- Something happens at the pump. -/
lemma Inv.pump (h : Inv w) (e : Pump.Event) : Inv (w.step (.pump e)) where
  held hheld := Nat.le_trans (h.held hheld) (generation_le _ e)
  looked png hphase hstored := by
    have hbefore : w.system.viewer.phase = .looked png := hphase
    have hnow : (w.stored || stores w.system.pump e) = false := by
      simpa only [Watch.step, hbefore] using hstored
    obtain ⟨hold, hnone⟩ := Bool.or_eq_false_iff.mp hnow
    rcases latest_of_stores hnone with hlatest | hlatest
    · exact (h.looked png hbefore hold).imp hlatest.trans hlatest.trans
    · exact .inr hlatest
  counted png generation hphase := by
    obtain ⟨hle, hlt⟩ := h.counted png generation hphase
    exact ⟨hle, Nat.le_trans hlt (generation_le _ e)⟩
  read png generation hphase hstored := by
    have hbefore : w.system.viewer.phase = .counted png generation := hphase
    have hold : w.stored = false := by
      simpa only [Watch.step, hbefore] using hstored
    exact (h.read png generation hbefore hold).step e
  last generation hseen htorn := (h.last generation hseen htorn).step e
  seen generation hseen :=
    ⟨Nat.le_trans (h.seen generation hseen).1 (generation_le _ e), (h.seen generation hseen).2⟩
  same := h.same

/-- The viewer asks for the picture. -/
lemma Inv.look (h : Inv w) (hphase : w.system.viewer.phase = .idle) : Inv (w.step .viewer) := by
  obtain ⟨⟨pump, ⟨limit, sent, seen, lastSentAt, phase, parts⟩, now⟩, taken, stored, torn⟩ := w
  dsimp only at hphase
  subst hphase
  by_cases hmore : Viewer.More ⟨limit, sent, seen, lastSentAt, .idle, parts⟩
  · have hstep : Watch.step ⟨⟨pump, ⟨limit, sent, seen, lastSentAt, .idle, parts⟩, now⟩, taken,
        stored, torn⟩ .viewer =
          ⟨⟨pump, ⟨limit, sent, seen, lastSentAt, .looked pump.latest, parts⟩, now⟩,
            pump.generation, false, torn⟩ := by
      simp only [Watch.step, System.step, Viewer.step, if_pos hmore]
    rw [hstep]
    refine ⟨fun _ => Nat.le_refl _, fun png hpng _ => ?_, fun _ _ hcounted => ?_,
      fun _ _ hcounted => ?_, h.last, fun g hg => ?_, ?_⟩
    · cases hpng
      exact .inl rfl
    · cases hcounted
    · cases hcounted
    · exact ⟨(h.seen g hg).1, fun _ => (h.seen g hg).1⟩
    · intro htorn hseen png hpng
      cases hpng
      exact (h.last _ hseen htorn).png rfl
  · have hstep : Watch.step ⟨⟨pump, ⟨limit, sent, seen, lastSentAt, .idle, parts⟩, now⟩, taken,
        stored, torn⟩ .viewer =
          ⟨⟨pump, ⟨limit, sent, seen, lastSentAt, .idle, parts⟩, now⟩, pump.generation, false,
            torn⟩ := by
      simp only [Watch.step, System.step, Viewer.step, if_neg hmore]
    rw [hstep]
    refine ⟨fun _ => Nat.le_refl _, fun _ hpng _ => ?_, fun _ _ hcounted => ?_,
      fun _ _ hcounted => ?_, h.last, fun g hg => ?_, ?_⟩
    · cases hpng
    · cases hcounted
    · cases hcounted
    · exact ⟨(h.seen g hg).1, fun hheld => by cases hheld⟩
    · intro htorn hseen png hpng
      cases hpng

/-- The viewer asks for the generation. -/
lemma Inv.count (h : Inv w) {png : Option Png} (hphase : w.system.viewer.phase = .looked png) :
    Inv (w.step .viewer) := by
  obtain ⟨⟨pump, ⟨limit, sent, seen, lastSentAt, phase, parts⟩, now⟩, taken, stored, torn⟩ := w
  dsimp only at hphase
  subst hphase
  refine ⟨h.held, fun _ hlooked _ => ?_, fun _ _ hcounted => ?_, fun _ _ hcounted hstored => ?_,
    h.last, h.seen, h.same⟩
  · cases hlooked
  · cases hcounted
    exact ⟨h.held rfl, Nat.le_refl _⟩
  · cases hcounted
    exact ⟨Nat.le_refl _, fun _ => h.looked png rfl hstored⟩

/-- The iteration ends and nothing is sent. -/
lemma Inv.pass (h : Inv w) {v : Viewer} (hv : v = { w.system.viewer with phase := .idle }) :
    Inv ⟨{ w.system with viewer := v }, w.taken, w.stored, w.torn⟩ := by
  subst hv
  refine ⟨fun hheld => ?_, fun _ hlooked _ => ?_, fun _ _ hcounted => ?_, fun _ _ hcounted => ?_,
    h.last, fun g hg => ?_, ?_⟩
  · cases hheld
  · cases hlooked
  · cases hcounted
  · cases hcounted
  · exact ⟨(h.seen g hg).1, fun hheld => by cases hheld⟩
  · intro htorn hseen png hpng
    cases hpng

/-- The iteration ends, perhaps with a part.

**Proof sketch.** Without a picture, or with one that is not to be sent, the viewer goes back to
waiting. A part that is sent becomes the last one, and what the two reads said of it is what the
invariant said of them. -/
lemma Inv.send (h : Inv w) {png : Option Png} {generation : ℕ}
    (hphase : w.system.viewer.phase = .counted png generation) : Inv (w.step .viewer) := by
  obtain ⟨⟨pump, ⟨limit, sent, seen, lastSentAt, phase, parts⟩, now⟩, taken, stored, torn⟩ := w
  dsimp only at hphase
  subst hphase
  cases png with
  | none => exact h.pass rfl
  | some png =>
    by_cases hsends : Viewer.Sends ⟨limit, sent, seen, lastSentAt, .counted (some png) generation,
        parts⟩ generation now
    · have hstep : Watch.step ⟨⟨pump, ⟨limit, sent, seen, lastSentAt,
          .counted (some png) generation, parts⟩, now⟩, taken, stored, torn⟩ .viewer =
            ⟨⟨pump, ⟨limit, sent + 1, some generation, now, .idle, parts ++ [png]⟩, now⟩, taken,
              stored, stored⟩ := by
        simp only [Watch.step, System.step, Viewer.step, if_pos hsends]
      obtain ⟨-, hlt⟩ := h.counted _ _ rfl
      rw [hstep]
      refine ⟨fun hheld => ?_, fun _ hlooked _ => ?_, fun _ _ hcounted => ?_,
        fun _ _ hcounted => ?_, fun g hg htorn => ?_, fun g hg => ?_, ?_⟩
      · cases hheld
      · cases hlooked
      · cases hcounted
      · cases hcounted
      · cases hg
        have hlast : (parts ++ [png]).getLast? = some png := by simp
        dsimp only [Viewer.last]
        rw [hlast]
        exact h.read _ _ rfl htorn
      · cases hg
        exact ⟨hlt, fun hheld => by cases hheld⟩
      · intro htorn hseen png hpng
        cases hpng
    · have hstep : Watch.step ⟨⟨pump, ⟨limit, sent, seen, lastSentAt,
          .counted (some png) generation, parts⟩, now⟩, taken, stored, torn⟩ .viewer =
            ⟨⟨pump, ⟨limit, sent, seen, lastSentAt, .idle, parts⟩, now⟩, taken, stored, torn⟩ := by
        simp only [Watch.step, System.step, Viewer.step, if_neg hsends]
      rw [hstep]
      exact h.pass rfl

/-- **One step** keeps what the viewer knows. -/
lemma Inv.step (h : Inv w) (e : Event) : Inv (w.step e) := by
  cases e with
  | pump e => exact h.pump e
  | viewer =>
    cases hphase : w.system.viewer.phase with
    | idle => exact h.look hphase
    | looked png => exact h.count hphase
    | counted png generation => exact h.send hphase
  | wait ms => exact ⟨h.held, h.looked, h.counted, h.read, h.last, h.seen, h.same⟩

end Steps

/-- A viewer that has just come, at a pump. -/
def Watch.start (pump : Pump.State) (limit : Option ℤ) (now : ℕ) : Watch :=
  ⟨⟨pump, .start limit, now⟩, 0, false, false⟩

/-- It knows nothing of the pump yet. -/
lemma inv_start (pump : Pump.State) (limit : Option ℤ) (now : ℕ) : Inv (.start pump limit now) := by
  refine ⟨fun hheld => ?_, fun _ hlooked _ => ?_, fun _ _ hcounted => ?_, fun _ _ hcounted => ?_,
    fun _ hseen => ?_, fun _ hseen => ?_, ?_⟩
  · cases hheld
  · cases hlooked
  · cases hcounted
  · cases hcounted
  · cases hseen
  · cases hseen
  · intro _ hseen
    cases hseen

/-! ## The order of the parts -/

section Order

variable (w₀ : Watch)

/-- The state after some events. -/
def reached (es : List Event) : Watch := es.foldl Watch.step w₀

/-- The picture of the pump after so many events. -/
def latestAt (es : List Event) (t : ℕ) : Option Png := (reached w₀ (es.take t)).system.pump.latest

/-- What happens later does not change the picture of an earlier time. -/
lemma latestAt_append {es : List Event} {t : ℕ} (ht : t ≤ es.length) (e : Event) :
    latestAt w₀ (es ++ [e]) t = latestAt w₀ es t := by
  rw [latestAt, List.take_append_of_le_length ht, latestAt]

/-- The picture now is that of the pump. -/
lemma latestAt_length (es : List Event) :
    latestAt w₀ es es.length = (reached w₀ es).system.pump.latest := by
  rw [latestAt, List.take_length]

/-- The parts were the picture of the pump at some times, and what the viewer holds at a later
one. -/
structure Shows (es : List Event) (times : List ℕ) (v : Viewer) : Prop where
  /-- In order. -/
  sorted : times.Pairwise (· ≤ ·)
  /-- In the past. -/
  past : ∀ t ∈ times, t ≤ es.length
  /-- The parts. -/
  parts : v.parts.map some = times.map (latestAt w₀ es)
  /-- What the viewer holds. -/
  held : ∀ png ∈ v.phase.held, ∃ t ≤ es.length, png = latestAt w₀ es t ∧ ∀ s ∈ times, s ≤ t

variable {w₀} {es : List Event} {times : List ℕ} {v : Viewer}

/-- Something else happens. -/
lemma Shows.append (h : Shows w₀ es times v) (e : Event) : Shows w₀ (es ++ [e]) times v := by
  have hlength : (es ++ [e]).length = es.length + 1 := by simp
  refine ⟨h.sorted, fun t ht => ?_, ?_, fun png hpng => ?_⟩
  · rw [hlength]
    exact Nat.le_succ_of_le (h.past t ht)
  · rw [h.parts]
    exact List.map_congr_left fun t ht => (latestAt_append w₀ (h.past t ht) e).symm
  · obtain ⟨t, ht, heq, hlast⟩ := h.held png hpng
    refine ⟨t, ?_, ?_, hlast⟩
    · rw [hlength]
      exact Nat.le_succ_of_le ht
    · rw [latestAt_append w₀ ht]
      exact heq

/-- The viewer goes on.

**Proof sketch.** By the phase of the viewer. It takes the picture the pump has now, which is not
older than any it sent; what it sends is the one it took. -/
lemma Shows.step (h : Shows w₀ es times v) {s : Pump.State}
    (hs : s.latest = latestAt w₀ es es.length) (now : ℕ) :
    ∃ times, Shows w₀ es times (v.step s now) := by
  rw [Viewer.step]
  cases hphase : v.phase with
  | idle =>
    refine ⟨times, ?_⟩
    dsimp only
    split
    · refine ⟨h.sorted, h.past, h.parts, fun png hpng => ?_⟩
      cases hpng
      exact ⟨es.length, Nat.le_refl _, hs, h.past⟩
    · exact h
  | looked png =>
    refine ⟨times, h.sorted, h.past, h.parts, fun png' hpng => ?_⟩
    cases hpng
    exact h.held png (by rw [hphase]; rfl)
  | counted png generation =>
    have hidle : ∀ v' : Viewer, v'.phase = .idle → v'.parts = v.parts → Shows w₀ es times v' := by
      intro v' hphase' hparts
      refine ⟨h.sorted, h.past, by rw [hparts]; exact h.parts, fun png hpng => ?_⟩
      rw [hphase'] at hpng
      cases hpng
    cases png with
    | none => exact ⟨times, hidle _ rfl rfl⟩
    | some png =>
      dsimp only
      split
      · obtain ⟨t, ht, heq, hlast⟩ := h.held (some png) (by rw [hphase]; rfl)
        refine ⟨times ++ [t], ?_, fun t' ht' => ?_, ?_, fun png hpng => ?_⟩
        · refine List.pairwise_append.mpr ⟨h.sorted, List.pairwise_singleton .., ?_⟩
          intro a ha b hb
          rw [List.mem_singleton.mp hb]
          exact hlast a ha
        · rcases List.mem_append.mp ht' with hold | hnew
          · exact h.past t' hold
          · rwa [List.mem_singleton.mp hnew]
        · rw [List.map_append, List.map_append, h.parts, List.map_singleton, List.map_singleton,
            heq]
        · cases hpng
      · exact ⟨times, hidle _ rfl rfl⟩

/-- **The parts are in order**: each was the picture of the pump at its time. -/
theorem shows_run (pump : Pump.State) (limit : Option ℤ) (now : ℕ) (es : List Event) :
    ∃ times, Shows (.start pump limit now) es times
      (reached (.start pump limit now) es).system.viewer := by
  induction es using List.reverseRecOn with
  | nil =>
    refine ⟨[], List.Pairwise.nil, fun t ht => ?_, rfl, fun png hpng => ?_⟩
    · cases ht
    · cases hpng
  | append_singleton es e ih =>
    obtain ⟨times, h⟩ := ih
    have hreached : reached (.start pump limit now) (es ++ [e]) =
        (reached (.start pump limit now) es).step e := by
      rw [reached, List.foldl_append, List.foldl_cons, List.foldl_nil, reached]
    rw [hreached]
    cases e with
    | pump e => exact ⟨times, h.append _⟩
    | wait ms => exact ⟨times, h.append _⟩
    | viewer =>
      obtain ⟨times', h'⟩ := h.step (latestAt_length _ es).symm _
      exact ⟨times', h'.append _⟩

end Order

/-! ## What a client sees -/

variable (file : Png → List UInt8)

/-- The bytes a viewer has sent. -/
def Viewer.wire (v : Viewer) : List UInt8 := v.parts.flatMap fun png => frame (file png)

/-- What a viewer has sent is one part after another. -/
lemma wire_eq (v : Viewer) :
    v.wire file = (v.parts.map fun png => part (file png)).flatMap (Part.bytes boundary) := by
  rw [Viewer.wire, List.flatMap_map]
  exact congrArg (fun g => v.parts.flatMap g) (funext fun png => frame_eq (file png))

/-- **What a client of the stream sees.** A viewer comes at any time; then the pump's thread, the
requests and the emulators go on, the viewer goes on and time passes, in any order. A client that
has got some of the bytes, and goes by the lengths, finds the parts that are whole in them and no
others. The parts were the picture of the pump at some times, in order. A viewer that holds a
picture and does not send it sent less than two seconds ago, and either the last part is that
picture, or the pump's thread stored a picture between the two reads of the last part.

**Proof sketch.** While the generation stays the picture does, and only the thread puts another one
in its place. If it stored none between the two reads of the last part, the pump had that part or
nothing at the second; and if the generation was the same at the next read, it still had. -/
theorem viewer_sees (pump : Pump.State) (limit : Option ℤ) (now : ℕ) (es : List Event) :
    let w := es.foldl Watch.step (.start pump limit now)
    let v := w.system.viewer
    (∀ m, ∃ k, read boundary 3 ((v.wire file).take m) =
        (v.parts.take k).map (fun png => part (file png)) ∧
      ∀ j ≤ v.parts.length, ((v.parts.take j).flatMap fun png => frame (file png)).length ≤ m →
        j ≤ k) ∧
    (∃ times : List ℕ, times.Pairwise (· ≤ ·) ∧ (∀ t ∈ times, t ≤ es.length) ∧
      v.parts.map some = times.map fun t =>
        ((es.take t).foldl Watch.step (.start pump limit now)).system.pump.latest) ∧
    ∀ png generation, v.phase = .counted (some png) generation →
      ¬ v.Sends generation w.system.now →
        w.system.now < v.lastSentAt + idleFrameInterval ∧
          (v.parts.getLast? = some png ∨ w.torn = true) := by
  intro w v
  have hinv : Inv w := Run.foldl_of_step (fun _ e h => h.step e) es (inv_start pump limit now)
  refine ⟨fun m => ?_, ?_, fun png generation hphase hsends => ?_⟩
  · have hfits : ∀ p ∈ v.parts.map fun png => part (file png), p.Fits boundary 3 := by
      intro p hp
      obtain ⟨png, -, rfl⟩ := List.mem_map.mp hp
      exact fits_part _
    obtain ⟨k, hread, hk⟩ := read_take hfits m
    refine ⟨k, ?_, fun j hj hwhole => hk j (by rwa [List.length_map]) ?_⟩
    · rw [wire_eq, hread, List.map_take]
    · rw [← List.map_take, List.flatMap_map]
      simpa only [frame_eq] using hwhole
  · obtain ⟨times, h⟩ := shows_run pump limit now es
    exact ⟨times, h.sorted, h.past, h.parts⟩
  · obtain ⟨hsame, hrest⟩ := not_or.mp hsends
    refine ⟨Nat.lt_of_not_le (not_or.mp hrest).1, ?_⟩
    cases htorn : w.torn with
    | true => exact .inr rfl
    | false =>
      have hseen : generation ∈ v.seen := (not_not.mp hsame).symm
      have hle : generation ≤ w.taken := (hinv.seen generation hseen).2 (by
        change v.phase.held.isSome = true
        rw [hphase]
        rfl)
      have htaken : w.taken = generation :=
        Nat.le_antisymm (hinv.counted _ _ hphase).1 hle
      have hheld : some png ∈ v.phase.held := by
        rw [hphase]
        rfl
      rcases hinv.same htorn (htaken ▸ hseen) (some png) hheld with hlast | hnone
      · exact .inl hlast.symm
      · cases hnone

/-- A pump whose thread is about to store a picture. -/
def storing : Pump.State where
  frameAddr := 0
  statusAddr := 0
  scale := 1
  grabber := some ⟨0, .adopted 0, 0, 0⟩
  png := some ⟨0, 0, [1]⟩
  raw := none
  generation := 1
  source := none
  note := none
  told := []
  nextId := 1
  phase := .grabbed ⟨0, .adopted 0, 0, 0⟩ ([], []) ([], []) []
  guest := fun _ => ⟨.error "", .error ""⟩

/-- The picture is stored between the two reads of the first part. The viewer then holds it and does
not send it. -/
example :
    let w := [Event.viewer, .pump .advance, .viewer, .viewer, .viewer, .viewer, .viewer].foldl
      Watch.step (.start storing none 5000)
    w.system.viewer.parts = [⟨0, 0, [1]⟩] ∧
      w.system.pump.latest = some (Pump.encodePng [] 1) ∧ w.torn = true := by
  decide

end Uvk5.Stream
