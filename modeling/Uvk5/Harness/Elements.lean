import Mathlib.Data.List.Basic
import Uvk5.Harness.Capture

set_option relaxedAutoImplicit false
set_option autoImplicit false

/-!
# Reading the elements back (`harness/sim_record.c`)

The recorder keeps the changes of the carrier and the decoded characters in one list. A test asks
for the elements and the gaps of the keying one by one; each answer walks the list from its
beginning.

## Main definitions

* `Harness.elementSpan`, `Harness.Recorder.elementCount`, `Harness.Recorder.elementMs`,
  `Harness.Recorder.gapMs` — the questions of a test.
* `Harness.changes`, `Harness.spans`, `Harness.marks` — what was keyed, and its elements.

## Main results

* `Harness.elementSpan_eq` — the elements that the walk finds.
* `Harness.elements_recorded` — the elements that are read back are those that were keyed.
-/

namespace Uvk5.Harness

/-! ## The walk -/

/-- The inner loop of `element_span`: when the carrier goes off, if it does so next. -/
def offAfter : List SimEvent → Option UInt32
  | [] => none
  | e :: events =>
    if e.kind = .carrierOn then none
    else if e.kind = .carrierOff then some e.atMs
    else offAfter events

/-- The outer loop of `element_span`, when so many elements are behind. -/
def spanFrom (index : ℕ) : ℕ → List SimEvent → Option (UInt32 × UInt32)
  | _, [] => none
  | seen, e :: events =>
    if e.kind ≠ .carrierOn then spanFrom index seen events
    else match offAfter events with
      | none => spanFrom index seen events
      | some off =>
        if seen = index then some (e.atMs, off) else spanFrom index (seen + 1) events

/-- `element_span`. -/
def elementSpan (events : List SimEvent) (index : ℕ) : Option (UInt32 × UInt32) :=
  spanFrom index 0 events

/-- The loop of `SIM_RecordedElementCount`. -/
def countFrom (events : List SimEvent) : ℕ → ℕ → Option ℕ
  | 0, _ => none
  | fuel + 1, n => if (elementSpan events n).isSome then countFrom events fuel (n + 1) else some n

namespace Recorder

/-- `SIM_RecordedElementCount`; no element takes fewer than two events. -/
def elementCount (r : Recorder) : Option ℕ := countFrom r.events (r.events.length + 1) 0

/-- `SIM_RecordedElementMs`. -/
def elementMs (r : Recorder) (index : ℕ) : UInt32 :=
  match elementSpan r.events index with
  | some (start, stop) => stop - start
  | none => 0

/-- `SIM_RecordedGapMs`. -/
def gapMs (r : Recorder) (index : ℕ) : UInt32 :=
  match elementSpan r.events index, elementSpan r.events (index + 1) with
  | some (_, stop), some (start, _) => start - stop
  | _, _ => 0

end Recorder

/-! ## What was keyed -/

/-- The changes of the carrier, with their times. -/
def changes (events : List SimEvent) : List (UInt32 × Bool) :=
  events.filterMap fun e =>
    match e.kind with
    | .carrierOn => some (e.atMs, true)
    | .carrierOff => some (e.atMs, false)
    | .char => none

/-- The elements of a keying: the carrier goes on, and off next. -/
def spans (keying : List (UInt32 × Bool)) : List (UInt32 × UInt32) :=
  (keying.zip keying.tail).filterMap fun (a, b) => if a.2 ∧ ¬ b.2 then some (a.1, b.1) else none

/-- The carrier goes on and off in turn. -/
def marks (elements : List (UInt32 × UInt32)) : List (UInt32 × Bool) :=
  elements.flatMap fun e => [(e.1, true), (e.2, false)]

/-- The elements of a keying made of elements are these. -/
lemma spans_marks (elements : List (UInt32 × UInt32)) : spans (marks elements) = elements := by
  induction elements with
  | nil => rfl
  | cons e elements ih =>
    have hcons : marks (e :: elements) = (e.1, true) :: (e.2, false) :: marks elements := rfl
    rw [hcons]
    cases elements with
    | nil => rfl
    | cons e' elements =>
      rw [marks, List.flatMap_cons, List.cons_append] at ih ⊢
      simpa [spans] using ih

/-- The carrier goes off next if its next change is to off. -/
lemma offAfter_eq (events : List SimEvent) :
    offAfter events = (changes events).head?.bind fun b => if b.2 then none else some b.1 := by
  induction events with
  | nil => rfl
  | cons e events ih =>
    obtain ⟨kind, atMs, ch⟩ := e
    cases kind with
    | carrierOn => rfl
    | carrierOff => rfl
    | char => exact ih

/-- The walk, from any place on.

**Proof sketch.** Induction on the record. A character and a carrier that goes off begin no span.
One that comes on begins one if the next change is off; then the walk ends there or goes on with
one more seen. -/
lemma spanFrom_eq {index seen : ℕ} (h : seen ≤ index) (events : List SimEvent) :
    spanFrom index seen events = (spans (changes events))[index - seen]? := by
  induction events generalizing seen with
  | nil => rfl
  | cons e events ih =>
    obtain ⟨kind, atMs, ch⟩ := e
    cases kind with
    | char => exact ih h
    | carrierOff =>
      have hskip : spans (changes (⟨.carrierOff, atMs, ch⟩ :: events)) =
          spans (changes events) := by
        change spans ((atMs, false) :: changes events) = _
        cases hrest : changes events with
        | nil => rfl
        | cons b rest => simp [spans]
      rw [hskip]
      exact ih h
    | carrierOn =>
      have hcons : changes (⟨.carrierOn, atMs, ch⟩ :: events) =
          (atMs, true) :: changes events := rfl
      rw [hcons, spanFrom, if_neg (not_not.mpr rfl), offAfter_eq]
      cases hrest : changes events with
      | nil =>
        have hnone := ih h
        rw [hrest] at hnone
        exact hnone
      | cons b rest =>
        obtain ⟨time, on⟩ := b
        rw [hrest] at ih
        cases on with
        | true =>
          have hskip : spans ((atMs, true) :: (time, true) :: rest) =
              spans ((time, true) :: rest) := by
            simp [spans]
          rw [hskip]
          exact ih h
        | false =>
          have hfound : spans ((atMs, true) :: (time, false) :: rest) =
              (atMs, time) :: spans ((time, false) :: rest) := by
            simp [spans]
          rw [hfound]
          dsimp only [List.head?_cons, Option.bind_some]
          rw [if_neg Bool.false_ne_true]
          dsimp only
          split
          · next heq => rw [heq, Nat.sub_self, List.getElem?_cons_zero]
          · next hne =>
            have hnext : index - seen = index - (seen + 1) + 1 := by omega
            rw [hnext, List.getElem?_cons_succ]
            exact ih (by omega)

/-- **The elements that the walk finds** are those that were keyed, in order. -/
theorem elementSpan_eq (events : List SimEvent) (index : ℕ) :
    elementSpan events index = (spans (changes events))[index]? :=
  spanFrom_eq (Nat.zero_le index) events

/-- There are no more elements than events. -/
lemma length_spans_le (events : List SimEvent) :
    (spans (changes events)).length ≤ events.length := by
  refine (List.length_filterMap_le _ _).trans ?_
  rw [List.length_zip]
  exact (Nat.min_le_left _ _).trans (List.length_filterMap_le _ _)

/-- The loop counts up to the number of elements, if it is given enough turns. -/
lemma countFrom_eq (events : List SimEvent) (fuel : ℕ) {n : ℕ}
    (hn : n ≤ (spans (changes events)).length)
    (hfuel : (spans (changes events)).length < n + fuel) :
    countFrom events fuel n = some (spans (changes events)).length := by
  induction fuel generalizing n with
  | zero => omega
  | succ fuel ih =>
    rw [countFrom, elementSpan_eq]
    rcases Nat.lt_or_ge n (spans (changes events)).length with hlt | hge
    · rw [List.getElem?_eq_getElem hlt, Option.isSome_some, if_pos rfl]
      exact ih hlt (by omega)
    · rw [List.getElem?_eq_none hge, Option.isSome_none, if_neg Bool.false_ne_true,
        Nat.le_antisymm hn hge]

/-! ## The run -/

/-- What the firmware keys. -/
def keyed (ticks : List Tick) : List (UInt32 × Bool) :=
  ticks.filterMap fun tick => tick.carrier.map (tick.now, ·)

/-- The recorder is full, or has the changes of the carrier. -/
def Recorder.Keeps (r : Recorder) (keying : List (UInt32 × Bool)) : Prop :=
  simMaxEvents ≤ r.events.length ∨ changes r.events = keying

/-- The changes of the carrier in some events and in those after them. -/
lemma changes_append (events more : List SimEvent) :
    changes (events ++ more) = changes events ++ changes more := List.filterMap_append ..

section Keeps

variable {r : Recorder} {keying : List (UInt32 × Bool)}

/-- An event that is pushed adds its change of the carrier, if there is room. -/
lemma Recorder.Keeps.push (h : r.Keeps keying) (now : UInt32) (kind : EventKind) (ch : UInt8) :
    (r.push now kind ch).Keeps (keying ++ changes [⟨kind, now, ch⟩]) := by
  rw [Recorder.push]
  split
  · next hfull => exact .inl hfull
  · next hroom =>
    rcases h with hfull | hkeying
    · exact absurd hfull hroom
    · exact .inr (by rw [changes_append, hkeying])

/-- A character that is recorded is no change of the carrier. -/
lemma Recorder.Keeps.recordChar (h : r.Keeps keying) (now : UInt32) (ch : UInt8) :
    (r.recordChar now ch).Keeps keying := by
  have hpush := h.push now .char ch
  rw [show changes [⟨.char, now, ch⟩] = [] from rfl, List.append_nil] at hpush
  rw [Recorder.recordChar]
  split
  · exact hpush
  · exact hpush

/-- A tick records the change of the carrier, if the firmware makes one. -/
lemma Recorder.Keeps.tickCarrier (h : r.Keeps keying) (tick : Tick) :
    (tickCarrier tick.now r tick.carrier).Keeps (keying ++ keyed [tick]) := by
  obtain ⟨now, carrier, decoded⟩ := tick
  cases carrier with
  | none => exact (List.append_nil keying).symm ▸ h
  | some on =>
    cases on with
    | true => exact h.push now .carrierOn 0
    | false => exact h.push now .carrierOff 0

/-- Sampling the display changes nothing of what is recorded of the carrier. -/
lemma Recorder.Keeps.capturePoll (h : r.Keeps keying) (now : UInt32)
    (display : Vector UInt8 txDisplaySize) (c : Capture) :
    (capturePoll now display c r).2.Keeps keying := by
  rw [Harness.capturePoll]
  split
  · exact h
  · exact List.foldlRecOn (motive := fun r : Recorder => r.Keeps keying) _ _ h
      fun r hr ch _ => hr.recordChar now ch

end Keeps

/-- Over a run the recorder is full, or has all changes of the carrier. -/
lemma keeps_run (add : UInt8 → Vector UInt8 txDisplaySize → Vector UInt8 txDisplaySize)
    (ticks : List Tick) {s : Desk} {keying : List (UInt32 × Bool)} (h : s.recorder.Keeps keying) :
    (ticks.foldl (decodeTick add) s).recorder.Keeps (keying ++ keyed ticks) := by
  induction ticks generalizing s keying with
  | nil => exact (List.append_nil keying).symm ▸ h
  | cons tick ticks ih =>
    have hstep : (decodeTick add s tick).recorder.Keeps (keying ++ keyed [tick]) :=
      (h.tickCarrier tick).capturePoll _ _ _
    have hsplit : keyed (tick :: ticks) = keyed [tick] ++ keyed ticks :=
      List.filterMap_append (l := [tick]) ..
    rw [List.foldl_cons, hsplit, ← List.append_assoc]
    exact ih hstep

/-- **The elements that are read back are those that were keyed.** Whatever the firmware keys and
decodes, as long as the recorder does not get full: the elements are those times the carrier goes on
and off next, the length of each and of the gap after it are the differences of these times, modulo
2 ^ 32, and there are no others. If the carrier goes on and off in turn these are all its marks.

**Proof sketch.** The characters between the changes of the carrier are skipped by the walk, and it
finds the elements in order; until the recorder is full it keeps every change. -/
theorem elements_recorded (add : UInt8 → Vector UInt8 txDisplaySize → Vector UInt8 txDisplaySize)
    (s : Desk) (ticks : List Tick)
    (hroom : (ticks.foldl (decodeTick add) (resetDesk s)).recorder.events.length < simMaxEvents) :
    let r := (ticks.foldl (decodeTick add) (resetDesk s)).recorder
    r.elementCount = some (spans (keyed ticks)).length ∧
      (∀ i, r.elementMs i = ((spans (keyed ticks))[i]?.elim 0 fun e => e.2 - e.1)) ∧
      (∀ i a b, (spans (keyed ticks))[i]? = some a → (spans (keyed ticks))[i + 1]? = some b →
        r.gapMs i = b.1 - a.2) ∧
      (∀ i, (spans (keyed ticks)).length ≤ i + 1 → r.gapMs i = 0) ∧
      ∀ elements, keyed ticks = marks elements → spans (keyed ticks) = elements := by
  intro r
  have hkeying : changes r.events = keyed ticks := by
    have hstart : (resetDesk s).recorder.Keeps [] := .inr rfl
    rcases keeps_run add ticks hstart with hfull | hkeying
    · exact absurd hfull (Nat.not_le.mpr hroom)
    · exact hkeying
  have hspan : ∀ i, elementSpan r.events i = (spans (keyed ticks))[i]? := by
    intro i
    rw [elementSpan_eq, hkeying]
  have hlength := length_spans_le r.events
  have hcount := countFrom_eq r.events (r.events.length + 1) (Nat.zero_le _) (by omega)
  rw [hkeying] at hcount
  refine ⟨hcount, fun i => ?_, fun i a b ha hb => ?_, fun i hi => ?_, fun elements h => ?_⟩
  · rw [Recorder.elementMs, hspan]
    cases (spans (keyed ticks))[i]? <;> rfl
  · simp only [Recorder.gapMs, hspan, ha, hb]
  · simp only [Recorder.gapMs, hspan, List.getElem?_eq_none hi]
    cases (spans (keyed ticks))[i]? <;> rfl
  · rw [h, spans_marks]

/-- A dit and a dah at 20 words a minute, and a character in between. -/
def ditDah : List Tick :=
  [⟨100, some true, none⟩, ⟨160, some false, none⟩, ⟨200, none, some 69⟩, ⟨220, some true, none⟩,
    ⟨400, some false, none⟩]

/-- A dit and a dah, with a character in between, are two elements with a gap of one dit. -/
theorem elements_recorded_ditDah :
    (ditDah.foldl (decodeTick addScrolling) (resetDesk blankDesk)).recorder.elementCount = some 2 ∧
      (ditDah.foldl (decodeTick addScrolling) (resetDesk blankDesk)).recorder.gapMs 0 = 60 := by
  obtain ⟨hcount, -, hgap, -, -⟩ :=
    elements_recorded addScrolling blankDesk ditDah (by decide +kernel)
  exact ⟨hcount, hgap 0 (100, 160) (220, 400) rfl rfl⟩

end Uvk5.Harness
