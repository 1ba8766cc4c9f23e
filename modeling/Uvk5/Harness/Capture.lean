import Mathlib.Data.List.TakeWhile
import Uvk5.Lib.Scroll

set_option relaxedAutoImplicit false
set_option autoImplicit false

/-!
# Capturing the decoded text (`harness/sim_capture.c`, `harness/sim_record.c`)

The firmware appends the characters it decodes to a display of 23 characters, which scrolls. The
harness looks at the display after every tick and records what is behind the longest common prefix
of what it saw before.

## Main definitions

* `Harness.Recorder` — the recorder, with `recordChar` and `recordedText`.
* `Harness.capturePoll`, `Harness.captureReset` — the capture.
* `Harness.AddsToDisplay` — what is known of the firmware.
* `Harness.decodeTick` — a tick in which a character is decoded, and the display is sampled.

## Main results

* `Harness.recordedText_run` — what is recorded of a text.
* `Harness.recordedText_exact_iff` — the texts that are recorded as they are.

## Design

The firmware is a parameter. A character is a byte, and the texts in buffers end before the first
zero byte. The capture writes a zero byte behind what it has seen; behind the end of its buffer,
which a display with a zero byte does not reach, that write is left out.
-/

namespace Uvk5.Harness

/-! ## The recorder -/

/-- `SIM_EventKind_t`. -/
inductive EventKind where
  /-- `SIM_EV_CARRIER_ON`. -/
  | carrierOn
  /-- `SIM_EV_CARRIER_OFF`. -/
  | carrierOff
  /-- `SIM_EV_CHAR`. -/
  | char
  deriving DecidableEq

/-- `SIM_Event_t`. -/
structure SimEvent where
  /-- `kind`. -/
  kind : EventKind
  /-- `at_ms`. -/
  atMs : UInt32
  /-- `ch`. -/
  ch : UInt8
  deriving DecidableEq

/-- `SIM_MAX_EVENTS`. -/
def simMaxEvents : ℕ := 4096
/-- `SIM_MAX_TEXT`. -/
def simMaxText : ℕ := 1024

/-- The variables of `sim_record.c`. -/
structure Recorder where
  /-- `s_events` up to `s_event_count`. -/
  events : List SimEvent
  /-- `s_text`. -/
  text : Vector UInt8 simMaxText
  /-- `s_text_len`. -/
  textLen : ℕ

namespace Recorder

/-- `SIM_RecordReset`. -/
def reset (r : Recorder) : Recorder := ⟨[], r.text.set 0 0 (by decide), 0⟩

/-- `push`, when the clock shows `now`. -/
def push (now : UInt32) (kind : EventKind) (ch : UInt8) (r : Recorder) : Recorder :=
  if r.events.length ≥ simMaxEvents then r else { r with events := r.events ++ [⟨kind, now, ch⟩] }

/-- `SIM_RecordCarrier`. -/
def recordCarrier (now : UInt32) (keyed : Bool) (r : Recorder) : Recorder :=
  r.push now (if keyed then .carrierOn else .carrierOff) 0

/-- `SIM_RecordChar`. -/
def recordChar (now : UInt32) (ch : UInt8) (r : Recorder) : Recorder :=
  let r := r.push now .char ch
  if h : r.textLen + 1 < simMaxText then
    { r with
      text := (r.text.set r.textLen ch).set (r.textLen + 1) 0
      textLen := r.textLen + 1 }
  else r

end Recorder

/-- The text in a buffer. -/
def cString {n : ℕ} (buffer : Vector UInt8 n) : List UInt8 := buffer.toList.takeWhile (· ≠ 0)

/-- `SIM_RecordedText`. -/
def Recorder.recordedText (r : Recorder) : List UInt8 := cString r.text

/-! ## The capture -/

/-- The size of `gCW_TX_Display`. -/
def txDisplaySize : ℕ := 24

/-- The variables of `sim_capture.c`. -/
structure Capture where
  /-- `s_seen`. -/
  seen : Vector UInt8 txDisplaySize
  /-- `s_seen_len`. -/
  seenLen : ℕ

/-- `SIM_CaptureReset`. -/
def captureReset : Capture := ⟨Vector.replicate txDisplaySize 0, 0⟩

/-- The loop of `SIM_CapturePoll` that counts in `common`. -/
def commonLoop (seen display : List UInt8) (seenLen len : ℕ) : ℕ → ℕ → ℕ
  | 0, common => common
  | fuel + 1, common =>
    if common < len ∧ common < seenLen ∧ seen[common]? = display[common]? then
      commonLoop seen display seenLen len fuel (common + 1)
    else common

/-- `memcpy`. -/
def memcpy {n : ℕ} (dst src : Vector UInt8 n) (len : ℕ) : Vector UInt8 n :=
  Vector.ofFn fun i => if i < len then src[i] else dst[i]

/-- `SIM_CapturePoll`, when the clock shows `now`. -/
def capturePoll (now : UInt32) (display : Vector UInt8 txDisplaySize) (c : Capture) (r : Recorder) :
    Capture × Recorder :=
  let len := (cString display).length
  if len = c.seenLen ∧ c.seen.toList.take len = display.toList.take len then (c, r)
  else
    let common := commonLoop c.seen.toList display.toList c.seenLen len len 0
    let r := ((display.toList.take len).drop common).foldl (fun r ch => r.recordChar now ch) r
    (⟨(memcpy c.seen display len).setIfInBounds len 0, len⟩, r)

/-! ## The run -/

/-- What is known of the firmware's `CW_AddToTxDisplay`: it appends a character to the text of the
display, which it shifts left by one when there are 23 already. -/
structure AddsToDisplay (add : UInt8 → Vector UInt8 txDisplaySize → Vector UInt8 txDisplaySize) :
    Prop where
  /-- The character is appended. -/
  append : ∀ c display, c ≠ 0 → (cString display).length < 23 →
    cString (add c display) = cString display ++ [c]
  /-- The text is shifted first. -/
  scroll : ∀ c display, c ≠ 0 → (cString display).length = 23 →
    cString (add c display) = (cString display).drop 1 ++ [c]

/-- The display, and what the harness keeps. -/
structure Desk where
  /-- `gCW_TX_Display`. -/
  display : Vector UInt8 txDisplaySize
  /-- The variables of the capture. -/
  capture : Capture
  /-- The variables of the recorder. -/
  recorder : Recorder

/-- A tick. -/
structure Tick where
  /-- What the clock shows. -/
  now : UInt32
  /-- Whether the firmware keys the carrier or unkeys it, if it does. -/
  carrier : Option Bool
  /-- The character that the firmware decodes, if it does. -/
  decoded : Option UInt8

/-- The display after a tick. -/
def nextDisplay (add : UInt8 → Vector UInt8 txDisplaySize → Vector UInt8 txDisplaySize)
    (display : Vector UInt8 txDisplaySize) : Option UInt8 → Vector UInt8 txDisplaySize
  | none => display
  | some c => add c display

/-- What `tick` records of the carrier. -/
def tickCarrier (now : UInt32) (r : Recorder) : Option Bool → Recorder
  | none => r
  | some keyed => r.recordCarrier now keyed

/-- A tick: the firmware may key the carrier and decode a character, and then the display is
sampled. -/
def decodeTick (add : UInt8 → Vector UInt8 txDisplaySize → Vector UInt8 txDisplaySize) (s : Desk)
    (tick : Tick) : Desk :=
  let display := nextDisplay add s.display tick.decoded
  let recorder := tickCarrier tick.now s.recorder tick.carrier
  let (capture, recorder) := capturePoll tick.now display s.capture recorder
  ⟨display, capture, recorder⟩

/-- The characters that are decoded. -/
def decodedText (ticks : List Tick) : List UInt8 := ticks.filterMap Tick.decoded

/-- `SIM_CaptureReset` and `SIM_RecordReset`. -/
def resetDesk (s : Desk) : Desk := ⟨s.display, captureReset, s.recorder.reset⟩

/-! ## What the recorder holds -/

/-- The recorder holds the beginning of a text, as long as there is room. -/
def Recorder.Holds (r : Recorder) (text : List UInt8) : Prop :=
  r.textLen = (text.take 1023).length ∧ ∃ rest, r.text.toList = text.take 1023 ++ 0 :: rest

/-- After a reset the recorder holds nothing. -/
lemma Recorder.holds_reset (r : Recorder) : r.reset.Holds [] := by
  refine ⟨rfl, ?_⟩
  rw [Recorder.reset, Vector.toList_set]
  have hlength : r.text.toList.length = simMaxText := Vector.length_toList
  cases htext : r.text.toList with
  | nil =>
    rw [htext] at hlength
    cases hlength
  | cons x rest => exact ⟨rest, rfl⟩

/-- An event that is pushed leaves the text. -/
@[simp] lemma Recorder.push_text (now : UInt32) (kind : EventKind) (ch : UInt8) (r : Recorder) :
    (r.push now kind ch).text = r.text := by
  unfold push
  split <;> rfl

/-- An event that is pushed leaves the length of the text. -/
@[simp] lemma Recorder.push_textLen (now : UInt32) (kind : EventKind) (ch : UInt8) (r : Recorder) :
    (r.push now kind ch).textLen = r.textLen := by
  unfold push
  split <;> rfl

/-- **A character is recorded.** -/
lemma Recorder.Holds.recordChar {r : Recorder} {text : List UInt8} (h : r.Holds text)
    (now : UInt32) (c : UInt8) : (r.recordChar now c).Holds (text ++ [c]) := by
  obtain ⟨hlen, rest, htext⟩ := h
  have hlength : r.text.toList.length = simMaxText := Vector.length_toList
  unfold Recorder.recordChar
  by_cases hroom : text.length < 1023
  · rw [List.take_of_length_le hroom.le] at hlen htext
    have hfits : (text ++ [c]).take 1023 = text ++ [c] := List.take_of_length_le (by simp; omega)
    cases rest with
    | nil =>
      rw [htext] at hlength
      simp [simMaxText] at hlength
      omega
    | cons x rest =>
      have hguard : (r.push now .char c).textLen + 1 < simMaxText := by
        rw [push_textLen, hlen, simMaxText]
        omega
      dsimp only
      rw [dif_pos hguard]
      refine ⟨by simp [hlen, hfits], rest, ?_⟩
      simp [Vector.toList_set, htext, hlen, hfits]
  · have hfull : (text ++ [c]).take 1023 = text.take 1023 :=
      List.take_append_of_le_length (by omega)
    have hguard : ¬ (r.push now .char c).textLen + 1 < simMaxText := by
      rw [push_textLen, hlen, List.length_take, simMaxText]
      omega
    dsimp only
    rw [dif_neg hguard]
    exact ⟨by rw [push_textLen, hlen, hfull], rest, by rw [push_text, htext, hfull]⟩

/-- The carrier is not part of the text. -/
lemma Recorder.Holds.tickCarrier {r : Recorder} {text : List UInt8} (h : r.Holds text)
    (now : UInt32) (carrier : Option Bool) : (tickCarrier now r carrier).Holds text := by
  cases carrier with
  | none => exact h
  | some keyed =>
    unfold Harness.tickCarrier recordCarrier Recorder.Holds
    rw [push_text, push_textLen]
    exact h

/-- Characters that are recorded come behind the text, as long as there is room. -/
lemma Recorder.Holds.foldl {r : Recorder} {text : List UInt8} (h : r.Holds text) (now : UInt32)
    (chars : List UInt8) :
    (chars.foldl (fun r ch => r.recordChar now ch) r).Holds (text ++ chars) := by
  induction chars generalizing r text with
  | nil => simpa using h
  | cons c chars ih => simpa using ih (h.recordChar now c)

/-- A text in front of a zero byte. -/
lemma takeWhile_append_zero {text : List UInt8} (h : 0 ∉ text) (rest : List UInt8) :
    (text ++ 0 :: rest).takeWhile (· ≠ 0) = text := by
  have hall : ∀ c ∈ text, decide (c ≠ 0) = true := by
    intro c hc
    exact decide_eq_true fun heq => h (heq ▸ hc)
  rw [List.takeWhile_append_of_pos hall]
  simp

/-- A string ends before the first NUL. -/
lemma zero_notMem_cString {n : ℕ} (buffer : Vector UInt8 n) : 0 ∉ cString buffer := by
  intro hmem
  have hall := List.mem_takeWhile_imp hmem
  simp at hall

/-- What is held is reported. -/
lemma Recorder.Holds.recordedText {r : Recorder} {text : List UInt8} (h : r.Holds text)
    (hnul : 0 ∉ text) : r.recordedText = text.take 1023 := by
  obtain ⟨-, rest, htext⟩ := h
  rw [Recorder.recordedText, cString, htext]
  exact takeWhile_append_zero (fun hmem => hnul (List.mem_of_mem_take hmem)) rest

/-! ## What a poll records -/

open Scroll

/-- The capture has seen a text. -/
def Capture.Saw (c : Capture) (text : List UInt8) : Prop :=
  c.seenLen = text.length ∧ c.seen.toList.take text.length = text

/-- After a reset the capture has seen an empty display. -/
lemma saw_captureReset : captureReset.Saw [] := ⟨rfl, rfl⟩

/-- The text of a buffer is at its start. -/
lemma take_length_cString {n : ℕ} (buffer : Vector UInt8 n) :
    buffer.toList.take (cString buffer).length = cString buffer :=
  (List.prefix_iff_eq_take.mp (List.takeWhile_prefix _)).symm

/-- The rest of a beginning, with its first character apart. -/
lemma drop_take_of_lt {l : List UInt8} {n i : ℕ} (hn : n ≤ l.length) (hi : i < n) :
    (l.take n).drop i = l[i] :: (l.take n).drop (i + 1) := by
  rw [List.drop_eq_getElem_cons (by rw [List.length_take]; omega), List.getElem_take]

/-- The loop finds the longest common prefix. -/
lemma commonLoop_eq {seen display : List UInt8} {seenLen len : ℕ} (hseen : seenLen ≤ seen.length)
    (hlen : len ≤ display.length) {fuel common : ℕ} (hfuel : len ≤ common + fuel) :
    commonLoop seen display seenLen len fuel common =
      common + commonPrefix ((seen.take seenLen).drop common) ((display.take len).drop common) := by
  induction fuel generalizing common with
  | zero =>
    have hnil : (display.take len).drop common = [] :=
      List.drop_eq_nil_of_le (by rw [List.length_take]; omega)
    rw [commonLoop, hnil, commonPrefix_nil_right, Nat.add_zero]
  | succ fuel ih =>
    rw [commonLoop]
    rcases Nat.lt_or_ge common len with hin | hout
    · rcases Nat.lt_or_ge common seenLen with hin' | hout'
      · rw [drop_take_of_lt hlen hin, drop_take_of_lt hseen hin',
          List.getElem?_eq_getElem (by omega), List.getElem?_eq_getElem (by omega), commonPrefix]
        by_cases heq : seen[common] = display[common]
        · rw [if_pos ⟨hin, hin', congrArg some heq⟩, if_pos heq, ih (by omega)]
          omega
        · rw [if_neg fun hguard => heq (Option.some.inj hguard.2.2), if_neg heq, Nat.add_zero]
      · have hnil : (seen.take seenLen).drop common = [] :=
          List.drop_eq_nil_of_le (by rw [List.length_take]; omega)
        rw [if_neg (by omega), hnil, commonPrefix_nil_left, Nat.add_zero]
    · have hnil : (display.take len).drop common = [] :=
        List.drop_eq_nil_of_le (by rw [List.length_take]; omega)
      rw [if_neg (by omega), hnil, commonPrefix_nil_right, Nat.add_zero]

/-- The bytes that are copied. -/
lemma take_memcpy {n : ℕ} (dst src : Vector UInt8 n) {len : ℕ} (hlen : len ≤ n) :
    (memcpy dst src len).toList.take len = src.toList.take len := by
  refine List.ext_getElem? fun i => ?_
  rcases Nat.lt_or_ge i len with hin | hout
  · have hi : i < n := by omega
    rw [List.getElem?_take_of_lt hin, List.getElem?_take_of_lt hin, memcpy]
    simp [hin, hi]
  · rw [List.getElem?_eq_none (by simp; omega), List.getElem?_eq_none (by simp; omega)]

/-- A string is no longer than its buffer. -/
lemma length_cString_le {n : ℕ} (buffer : Vector UInt8 n) : (cString buffer).length ≤ n := by
  have hprefix : cString buffer <+: buffer.toList := List.takeWhile_prefix _
  simpa using hprefix.length_le

/-- **What a poll records**: what is new behind the longest common prefix. -/
lemma capturePoll_spec {c : Capture} {before : List UInt8} (h : c.Saw before) (now : UInt32)
    (display : Vector UInt8 txDisplaySize) (r : Recorder) :
    (capturePoll now display c r).1.Saw (cString display) ∧
      (capturePoll now display c r).2 =
        (news before (cString display)).foldl (fun r ch => r.recordChar now ch) r := by
  obtain ⟨hseenLen, hseen⟩ := h
  have hbefore : before.length ≤ txDisplaySize := by
    have hle := congrArg List.length hseen
    rw [List.length_take, Vector.length_toList] at hle
    omega
  have hafter := length_cString_le display
  unfold capturePoll
  dsimp only
  rw [take_length_cString, hseenLen]
  by_cases hsame : (cString display).length = before.length ∧
      c.seen.toList.take (cString display).length = cString display
  · rw [if_pos hsame]
    have heq : before = cString display := by rw [← hseen, ← hsame.1, hsame.2]
    subst heq
    have hnone : news (cString display) (cString display) = [] := by
      simpa using news_append (cString display) []
    rw [hnone]
    exact ⟨⟨hseenLen, hseen⟩, rfl⟩
  · rw [if_neg hsame]
    refine ⟨⟨rfl, ?_⟩, ?_⟩
    · dsimp only
      rw [Vector.toList_setIfInBounds, List.take_set_of_le (le_refl _), take_memcpy _ _ hafter,
        take_length_cString]
    · rw [commonLoop_eq (by simpa using hbefore) (by simpa using hafter) (by omega), hseen,
        take_length_cString, List.drop_zero, List.drop_zero, Nat.zero_add, news]

/-! ## What is recorded of a text -/

section Text

variable {add : UInt8 → Vector UInt8 txDisplaySize → Vector UInt8 txDisplaySize}

/-- The state of a run in which a text has been decoded. -/
structure Desk.Follows (s : Desk) (text : List UInt8) : Prop where
  display : cString s.display = shown 23 text
  capture : s.capture.Saw (shown 23 text)
  recorder : s.recorder.Holds (observed 23 text)

/-- With an empty display and after a reset the harness has followed an empty text. -/
lemma follows_resetDesk {s : Desk} (hempty : cString s.display = []) :
    (resetDesk s).Follows [] :=
  ⟨hempty, saw_captureReset, s.recorder.holds_reset⟩

/-- The display shows the end of the text. -/
lemma cString_nextDisplay (hadd : AddsToDisplay add) {display : Vector UInt8 txDisplaySize}
    {text : List UInt8} (h : cString display = shown 23 text) {c : UInt8} (hc : c ≠ 0) :
    cString (add c display) = shown 23 (text ++ [c]) := by
  rcases Nat.lt_or_ge text.length 23 with hlt | hge
  · rw [shown_of_length_le hlt.le] at h
    rw [hadd.append c display hc (by rwa [h]), h, shown_of_length_le (by simp; omega)]
  · have hlength : (shown 23 text).length = 23 := by rw [shown, List.length_drop]; omega
    rw [hadd.scroll c display hc (by rw [h, hlength]), h, shown_append_singleton hge,
      List.drop_append_of_le_length (by omega)]

/-- **One tick.** -/
lemma Desk.Follows.decodeTick (hadd : AddsToDisplay add) {s : Desk} {text : List UInt8}
    (h : s.Follows text) (tick : Tick) (hnul : tick.decoded ≠ some 0) :
    (decodeTick add s tick).Follows (text ++ tick.decoded.toList) := by
  obtain ⟨hdisplay, hcapture, hrecorder⟩ := h
  have hrecorder' := hrecorder.tickCarrier tick.now tick.carrier
  unfold Harness.decodeTick
  cases hdecoded : tick.decoded with
  | none =>
    obtain ⟨hsaw, hrecord⟩ := capturePoll_spec hcapture tick.now s.display
      (tickCarrier tick.now s.recorder tick.carrier)
    have hnone : news (shown 23 text) (shown 23 text) = [] := by
      simpa using news_append (shown 23 text) []
    rw [hdisplay] at hsaw hrecord
    rw [hnone] at hrecord
    simp only [nextDisplay, Option.toList_none, List.append_nil]
    exact ⟨hdisplay, hsaw, by rw [hrecord]; exact hrecorder'⟩
  | some c =>
    have hc : c ≠ 0 := by
      rintro rfl
      exact hnul hdecoded
    have hnext := cString_nextDisplay hadd hdisplay hc
    obtain ⟨hsaw, hrecord⟩ := capturePoll_spec hcapture tick.now (add c s.display)
      (tickCarrier tick.now s.recorder tick.carrier)
    rw [hnext] at hsaw hrecord
    simp only [nextDisplay, Option.toList_some]
    refine ⟨hnext, hsaw, ?_⟩
    rw [hrecord, observed_append_singleton (by omega)]
    exact hrecorder'.foldl tick.now _

/-- A run. -/
lemma Desk.Follows.foldl (hadd : AddsToDisplay add) {s : Desk} {text : List UInt8}
    (h : s.Follows text) {ticks : List Tick} (hnul : 0 ∉ decodedText ticks) :
    (ticks.foldl (Harness.decodeTick add) s).Follows (text ++ decodedText ticks) := by
  induction ticks generalizing s text with
  | nil => simpa [decodedText] using h
  | cons tick ticks ih =>
    have hsplit : decodedText (tick :: ticks) = tick.decoded.toList ++ decodedText ticks := by
      cases hdecoded : tick.decoded <;> simp [decodedText, hdecoded]
    rw [hsplit, List.mem_append, not_or] at hnul
    have hfirst : tick.decoded ≠ some 0 := by
      intro hzero
      simp [hzero] at hnul
    rw [hsplit, ← List.append_assoc]
    exact ih (h.decodeTick hadd tick hfirst) hnul.2

/-- **What is recorded of a text**: what an observer of the display writes down, as long as there is
room. -/
theorem recordedText_run (hadd : AddsToDisplay add) {s : Desk} (hempty : cString s.display = [])
    {ticks : List Tick} (hnul : 0 ∉ decodedText ticks) :
    (ticks.foldl (decodeTick add) (resetDesk s)).recorder.recordedText =
      (observed 23 (decodedText ticks)).take 1023 := by
  have hfollows := (follows_resetDesk hempty).foldl hadd hnul
  rw [List.nil_append] at hfollows
  exact hfollows.recorder.recordedText fun hmem => hnul (mem_of_mem_observed hmem)

/-- **The texts that are recorded as they are**: those that fit the display, those of runs so long
that what is lost of each makes up for what is recorded twice, and those that fill the recorder with
what is recorded twice.

**Proof sketch.** The recorder holds what is observed of the display, up to its last place but one
(`recordedText_run`). Which texts are observed as they are is a fact about windows that scroll
(`take_observed_eq_iff`). -/
theorem recordedText_exact_iff (hadd : AddsToDisplay add) {s : Desk}
    (hempty : cString s.display = []) {ticks : List Tick}
    (hfew : (decodedText ticks).length < 1024) :
    (ticks.foldl (decodeTick add) (resetDesk s)).recorder.recordedText = decodedText ticks ↔
      0 ∉ decodedText ticks ∧ ((decodedText ticks).length ≤ 23 ∨ Regular 23 (decodedText ticks) ∨
        (decodedText ticks).length = 1023 ∧ SelfReading 23 (decodedText ticks)) := by
  constructor
  · intro h
    have hnul : 0 ∉ decodedText ticks := by
      rw [← h]
      exact zero_notMem_cString _
    rw [recordedText_run hadd hempty hnul, take_observed_eq_iff (by omega) (by omega)] at h
    exact ⟨hnul, h⟩
  · rintro ⟨hnul, h⟩
    rw [recordedText_run hadd hempty hnul, take_observed_eq_iff (by omega) (by omega)]
    exact h

end Text

/-! ## A firmware -/

/-- A display that shows a text. -/
def displayOf (text : List UInt8) : Vector UInt8 txDisplaySize :=
  Vector.ofFn fun i => text.getD i 0

/-- `CW_AddToTxDisplay`, as it is assumed to be. -/
def addScrolling (c : UInt8) (display : Vector UInt8 txDisplaySize) : Vector UInt8 txDisplaySize :=
  let text := cString display
  displayOf ((if text.length < 23 then text else text.drop 1) ++ [c])

/-- A display that shows a text shows that text. -/
lemma cString_displayOf {text : List UInt8} (hnul : 0 ∉ text) (hlength : text.length ≤ 23) :
    cString (displayOf text) = text := by
  obtain ⟨rest, hrest⟩ : ∃ rest, (displayOf text).toList = text ++ 0 :: rest := by
    refine ⟨List.replicate (23 - text.length) 0, List.ext_getElem? fun i => ?_⟩
    rw [← List.replicate_succ]
    rcases Nat.lt_or_ge i text.length with hin | hout
    · have hi : i < txDisplaySize := by rw [txDisplaySize]; omega
      rw [List.getElem?_append_left hin, displayOf]
      simp [hi, hin]
    · rw [List.getElem?_append_right hout, List.getElem?_replicate, displayOf]
      rcases Nat.lt_or_ge i txDisplaySize with hi | hi
      · rw [if_pos (by rw [txDisplaySize] at hi; omega)]
        simp [hi, List.getElem?_eq_none hout]
      · rw [if_neg (by rw [txDisplaySize] at hi; omega)]
        simpa using hi
  rw [cString, hrest]
  exact takeWhile_append_zero hnul rest

/-- It does what is assumed. -/
theorem addsToDisplay_addScrolling : AddsToDisplay addScrolling := by
  have hadd : ∀ (c : UInt8) (text : List UInt8), c ≠ 0 → 0 ∉ text → text.length < 23 →
      cString (displayOf (text ++ [c])) = text ++ [c] := by
    intro c text hc hnul hlength
    refine cString_displayOf ?_ (by simp; omega)
    simp [hnul, Ne.symm hc]
  constructor
  · intro c display hc hlength
    rw [addScrolling]
    rw [if_pos hlength]
    exact hadd c _ hc (zero_notMem_cString display) hlength
  · intro c display hc hlength
    rw [addScrolling]
    rw [if_neg (by omega)]
    refine hadd c _ hc (fun hmem => zero_notMem_cString display (List.mem_of_mem_drop hmem)) ?_
    rw [List.length_drop]
    omega

/-- The harness before anything is decoded. -/
def blankDesk : Desk :=
  ⟨displayOf [], captureReset, ⟨[], Vector.replicate simMaxText 0, 0⟩⟩

/-- Before anything is decoded the display is empty. -/
lemma cString_blankDesk : cString blankDesk.display = [] := cString_displayOf (by simp) (by simp)

/-- A tick for each character of a text. -/
def typed (text : List UInt8) : List Tick := text.map fun c => ⟨1000, none, some c⟩

/-- What is decoded of a text that is typed. -/
@[simp] theorem decodedText_typed (text : List UInt8) : decodedText (typed text) = text := by
  rw [decodedText, typed, List.filterMap_map]
  exact List.filterMap_some

/-- Which of the first 23 characters the character at place `i` of the text below repeats. -/
def echoed : ℕ → ℕ → ℕ
  | 0, i => i
  | depth + 1, i => if i < 23 then i else echoed depth ((i - 23) / 23 + 1 + (i - 23) % 23)

/-- A text of 1023 characters, the most that the recorder takes: the letters from `A` to `W`, and
then its own stretches of 24 characters, each without its first one. -/
def echoText : List UInt8 := (List.range 1023).map fun i => UInt8.ofNat (65 + echoed 4 i)

/-- It spells out itself. -/
theorem selfReading_echoText : SelfReading 23 echoText := by
  rw [SelfReading, ← List.isPrefixOf_iff_prefix]
  decide +kernel

/-- A text that scrolls the display a thousand times and fills the recorder is recorded. -/
theorem recordedText_exact_iff_echo :
    ((typed echoText).foldl (decodeTick addScrolling) (resetDesk blankDesk)).recorder.recordedText =
      echoText := by
  have hlength : (decodedText (typed echoText)).length = 1023 := by
    rw [decodedText_typed, echoText, List.length_map, List.length_range]
  have hnul : 0 ∉ decodedText (typed echoText) := by
    rw [decodedText_typed]
    decide +kernel
  have hself : SelfReading 23 (decodedText (typed echoText)) := by
    rw [decodedText_typed]
    exact selfReading_echoText
  rw [(recordedText_exact_iff addsToDisplay_addScrolling cString_blankDesk (by omega)).mpr
    ⟨hnul, .inr (.inr ⟨hlength, hself⟩)⟩, decodedText_typed]

/-- The letters from `A` to `X`. -/
def alphabetTicks : List Tick := (List.range 24).map fun i => ⟨0, none, some (UInt8.ofNat (65 + i))⟩

/-- Of 24 letters, all but the first are recorded once more when the display scrolls. -/
theorem alphabet_recorded_twice :
    ¬ ∀ (add : UInt8 → Vector UInt8 txDisplaySize → Vector UInt8 txDisplaySize), AddsToDisplay add →
      ∀ (s : Desk), cString s.display = [] → ∀ (ticks : List Tick), 0 ∉ decodedText ticks →
        (decodedText ticks).length < 1024 →
          (ticks.foldl (decodeTick add) (resetDesk s)).recorder.recordedText =
            decodedText ticks := by
  intro h
  have hrecorded := h addScrolling addsToDisplay_addScrolling blankDesk cString_blankDesk
    alphabetTicks (by decide) (by decide)
  rw [recordedText_run addsToDisplay_addScrolling cString_blankDesk (by decide)] at hrecorded
  have hlength := congrArg List.length hrecorded
  revert hlength
  decide

end Uvk5.Harness
