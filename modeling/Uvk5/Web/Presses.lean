import Mathlib.Data.List.Destutter
import Mathlib.Data.Rat.Floor
import Mathlib.Tactic.Linarith
import Uvk5.Lib.Run
import Uvk5.Web.Keys

set_option relaxedAutoImplicit false
set_option autoImplicit false

/-!
# The keys of the page (the script of `render_index` in `tools/webui.py`)

The page measures how long a key is held, with a pointer on its button or on the keyboard, and sends
one request when it is let go. The transmit key is sent when it goes down and when it comes up.

## Main definitions

* `Presses.Page`, `Presses.Page.step` — the page, and what it does with an event.
* `Presses.Touch`, `Presses.presses` — what an event means for one key, and the presses of the key.
* `Presses.Request.event` — a request as the server gets it.

## Main results

* `Presses.page_sends` — what the page has sent and what it holds.

## Design

One event happens at one time, and the difference of two times is exact. That a request is sent does
not mean that it arrives.
-/

namespace Uvk5.Presses

/-! ## The keys -/

/-- `KEY_GRID`. -/
def keyGrid : List (List String) :=
  [["MENU", "UP", "DOWN", "EXIT"], ["1", "2", "3", "STAR"], ["4", "5", "6", "0"],
    ["7", "8", "9", "F"]]

/-- `SIDE_KEYS`. -/
def sideKeys : List String := ["SIDE1", "SIDE2"]

/-- The keys that have a button. -/
def buttons : List String := sideKeys ++ keyGrid.flatten

/-- `KEY_BINDINGS`. -/
def keyBindings : List (String × String) :=
  [("ArrowUp", "UP"), ("ArrowDown", "DOWN"), ("Enter", "MENU"), ("Escape", "EXIT"), ("KeyF", "F"),
    ("KeyM", "MENU"), ("BracketLeft", "SIDE1"), ("BracketRight", "SIDE2"), ("Digit0", "0"),
    ("Digit1", "1"), ("Digit2", "2"), ("Digit3", "3"), ("Digit4", "4"), ("Digit5", "5"),
    ("Digit6", "6"), ("Digit7", "7"), ("Digit8", "8"), ("Digit9", "9")]

/-- `MIN_HOLD_MS`. -/
def minHoldMs : ℚ := 60

/-! ## The page -/

/-- A request that is sent. -/
inductive Request where
  /-- `/api/key`, with the key and the milliseconds. -/
  | key (key : String) (holdMs : ℤ)
  /-- `/api/ptt`. -/
  | ptt (held : Bool)
  /-- `/api/release-all`. -/
  | releaseAll
  deriving DecidableEq

/-- The page. -/
structure Page where
  /-- `pressedAt`, in the order of insertion. -/
  pressedAt : List (String × ℚ)
  /-- `pttHeld`. -/
  pttHeld : Bool
  /-- What was sent. -/
  sent : List Request

/-- A page that was just opened. -/
def Page.start : Page := ⟨[], false, []⟩

/-- `Math.round`. -/
def mathRound (x : ℚ) : ℤ := ⌊x + 1 / 2⌋

/-- The milliseconds that are sent for a press. -/
def measured (started now : ℚ) : ℤ := mathRound (max (now - started) minHoldMs)

/-- `down`. -/
def Page.down (p : Page) (key : String) (now : ℚ) : Page :=
  if (p.pressedAt.lookup key).isSome then p
  else { p with pressedAt := p.pressedAt ++ [(key, now)] }

/-- `up`. -/
def Page.up (p : Page) (now : ℚ) (key : String) : Page :=
  match p.pressedAt.lookup key with
  | none => p
  | some started =>
    { p with
      pressedAt := p.pressedAt.filter fun held => held.1 ≠ key
      sent := p.sent ++ [.key key (measured started now)] }

/-- `setPtt`. -/
def Page.setPtt (p : Page) (held : Bool) : Page :=
  if held = p.pttHeld then p else { p with pttHeld := held, sent := p.sent ++ [.ptt held] }

/-- What a pointer does. -/
inductive Pointer where
  | down
  | up
  | leave
  | cancel
  deriving DecidableEq

/-- What happens to the page. -/
inductive Event where
  /-- A pointer on the button of a key. -/
  | pointer (key : String) (kind : Pointer) (now : ℚ)
  /-- A pointer on the button of the transmit key. -/
  | pointerPtt (kind : Pointer)
  /-- A key of the keyboard goes down, or repeats. -/
  | keydown (code : String) (repeated : Bool) (now : ℚ)
  /-- It comes up. -/
  | keyup (code : String) (now : ℚ)
  /-- The page loses the focus. -/
  | blur (now : ℚ)
  /-- The page goes away. -/
  | pagehide

/-- One event. -/
def Page.step (p : Page) : Event → Page
  | .pointer key .down now => p.down key now
  | .pointer key _ now => p.up now key
  | .pointerPtt .down => p.setPtt true
  | .pointerPtt _ => p.setPtt false
  | .keydown code repeated now =>
    match keyBindings.lookup code with
    | none => p
    | some key => if repeated then p else p.down key now
  | .keyup code now =>
    match keyBindings.lookup code with
    | none => p
    | some key => p.up now key
  | .blur now =>
    let p := (p.pressedAt.map Prod.fst).foldl (Page.up · now ·) p
    { p with sent := p.sent ++ [.releaseAll] }
  | .pagehide => if p.pttHeld then p.setPtt false else p

/-! ## One key -/

/-- What an event means for a key. -/
inductive Touch where
  /-- It goes down. -/
  | press (now : ℚ)
  /-- It comes up, or no longer counts. -/
  | release (now : ℚ)

/-- What an event means for a key. -/
def touch (key : String) : Event → Option Touch
  | .pointer k .down now => if k = key then some (.press now) else none
  | .pointer k _ now => if k = key then some (.release now) else none
  | .pointerPtt _ => none
  | .keydown code repeated now =>
    if keyBindings.lookup code = some key ∧ repeated = false then some (.press now) else none
  | .keyup code now => if keyBindings.lookup code = some key then some (.release now) else none
  | .blur now => some (.release now)
  | .pagehide => none

/-- Since when the key is down after something. -/
def Touch.next : Option ℚ → Option Touch → Option ℚ
  | since, none => since
  | none, some (.press now) => some now
  | some since, some (.press _) => some since
  | _, some (.release _) => none

/-- The press that something ends. -/
def Touch.ended : Option ℚ → Option Touch → Option (ℚ × ℚ)
  | some since, some (.release now) => some (since, now)
  | _, _ => none

/-- The presses of a key: from where it went down to where it first came up again. -/
def presses : Option ℚ → List (Option Touch) → List (ℚ × ℚ)
  | _, [] => []
  | since, t :: ts => (Touch.ended since t).toList ++ presses (Touch.next since t) ts

/-- Since when a key is down in the end. -/
def heldSince (since : Option ℚ) (ts : List (Option Touch)) : Option ℚ := ts.foldl Touch.next since

/-- The milliseconds of the requests for a key. -/
def Request.holdOf (key : String) : Request → Option ℤ
  | .key k holdMs => if k = key then some holdMs else none
  | _ => none

/-- What the requests for the transmit key ask for. -/
def Request.pttOf : Request → Option Bool
  | .ptt held => some held
  | _ => none

/-- What an event means for the transmit key. -/
def pttTouch : Event → Option Bool
  | .pointer .. => none
  | .pointerPtt kind => some (kind = .down)
  | .keydown .. => none
  | .keyup .. => none
  | .blur _ => none
  | .pagehide => some false

/-! ## One event and one key -/

section Step

variable (p : Page) (key : String) (now : ℚ)

/-- A key that is dropped from the list is not held, and the others are as before. -/
lemma lookup_filter_ne (held : List (String × ℚ)) (k : String) :
    (held.filter fun h => h.1 ≠ k).lookup key = if key = k then none else held.lookup key := by
  induction held with
  | nil => simp
  | cons h held ih =>
    obtain ⟨k', since⟩ := h
    by_cases hk : k' = k
    · subst hk
      rw [List.filter_cons_of_neg (by simp), ih]
      split
      · rfl
      · next hne => rw [List.lookup_cons, beq_eq_false_iff_ne.mpr hne]
    · rw [List.filter_cons_of_pos (by simpa using hk), List.lookup_cons, List.lookup_cons, ih]
      by_cases heq : key = k'
      · subst heq
        simp [hk]
      · simp [beq_eq_false_iff_ne.mpr heq]

/-- A key that goes down is held from now on, unless it is held; the others are as before. -/
lemma lookup_down (k : String) :
    (p.down k now).pressedAt.lookup key =
      Touch.next (p.pressedAt.lookup key) (if k = key then some (.press now) else none) := by
  rw [Page.down]
  by_cases hk : k = key
  · subst hk
    cases hheld : p.pressedAt.lookup k with
    | some since => simp [hheld, Touch.next]
    | none => simp [hheld, Touch.next, List.lookup_append]
  · have hne : (key == k) = false := beq_eq_false_iff_ne.mpr (Ne.symm hk)
    rw [if_neg hk]
    split
    · rfl
    · simp [hne, Touch.next, List.lookup_append, List.lookup_cons]

/-- A key that goes down asks nothing of the server. -/
@[simp] lemma sent_down (k : String) : (p.down k now).sent = p.sent := by
  rw [Page.down]
  split <;> rfl

/-- The PTT button leaves the keys that are held. -/
@[simp] lemma pressedAt_setPtt (held : Bool) : (p.setPtt held).pressedAt = p.pressedAt := by
  rw [Page.setPtt]
  split <;> rfl

/-- The PTT button asks for no press of a key. -/
@[simp] lemma holds_setPtt (held : Bool) :
    (p.setPtt held).sent.filterMap (Request.holdOf key) =
      p.sent.filterMap (Request.holdOf key) := by
  rw [Page.setPtt]
  split
  · rfl
  · simp [Request.holdOf]

/-- A key that goes up is not held; the others are as before. -/
lemma lookup_up (k : String) :
    (p.up now k).pressedAt.lookup key =
      Touch.next (p.pressedAt.lookup key) (if k = key then some (.release now) else none) := by
  rw [Page.up]
  split
  · next hnone =>
    split
    · next hk => rw [← hk, hnone]; rfl
    · rfl
  · next since hsome =>
    dsimp only
    rw [lookup_filter_ne]
    by_cases hk : k = key
    · rw [if_pos hk.symm, if_pos hk]
      cases p.pressedAt.lookup key <;> rfl
    · rw [if_neg (Ne.symm hk), if_neg hk]
      rfl

/-- The milliseconds of a press. -/
def ms (press : ℚ × ℚ) : ℤ := measured press.1 press.2

/-- A key that goes up after it was down asks for one press, of as long as it was held. -/
lemma holds_up (k : String) :
    (p.up now k).sent.filterMap (Request.holdOf key) =
      p.sent.filterMap (Request.holdOf key) ++
        (Touch.ended (p.pressedAt.lookup key)
          (if k = key then some (.release now) else none)).toList.map ms := by
  rw [Page.up]
  by_cases hk : k = key
  · subst hk
    cases p.pressedAt.lookup k with
    | none => simp [Touch.ended]
    | some since => simp [Touch.ended, Request.holdOf, ms]
  · have hnone : Touch.ended (p.pressedAt.lookup key) none = none := by
      cases p.pressedAt.lookup key <;> rfl
    rw [if_neg hk, hnone]
    split
    · simp
    · simp [Request.holdOf, hk]

/-- Several keys that go up are not held; the others are as before. -/
lemma lookup_foldl_up (ks : List String) :
    (ks.foldl (Page.up · now ·) p).pressedAt.lookup key =
      if key ∈ ks then none else p.pressedAt.lookup key := by
  induction ks generalizing p with
  | nil => simp
  | cons k ks ih =>
    rw [List.foldl_cons, ih, lookup_up]
    by_cases hk : k = key
    · subst hk
      cases p.pressedAt.lookup k <;> simp [Touch.next]
    · simp [hk, Ne.symm hk, Touch.next]

/-- Of several keys that go up each asks for its own press only, once. -/
lemma holds_foldl_up (ks : List String) :
    (ks.foldl (Page.up · now ·) p).sent.filterMap (Request.holdOf key) =
      p.sent.filterMap (Request.holdOf key) ++
        if key ∈ ks then (p.pressedAt.lookup key).toList.map fun since => measured since now
        else [] := by
  induction ks generalizing p with
  | nil => simp
  | cons k ks ih =>
    rw [List.foldl_cons, ih, holds_up, lookup_up]
    by_cases hk : k = key
    · subst hk
      cases p.pressedAt.lookup k <;> simp [Touch.next, Touch.ended, ms]
    · cases p.pressedAt.lookup key <;> simp [hk, Ne.symm hk, Touch.next, Touch.ended]

/-- The keys in the list are those that are held. -/
lemma mem_held : key ∈ p.pressedAt.map Prod.fst ↔ (p.pressedAt.lookup key).isSome := by
  rw [List.lookup_isSome_iff, List.mem_map]
  simp

/-- **What an event does to one key.** -/
lemma lookup_step (e : Event) :
    (p.step e).pressedAt.lookup key = Touch.next (p.pressedAt.lookup key) (touch key e) := by
  cases e with
  | pointer k kind now =>
    cases kind with
    | down => exact lookup_down p key now k
    | up => exact lookup_up p key now k
    | leave => exact lookup_up p key now k
    | cancel => exact lookup_up p key now k
  | pointerPtt kind => cases kind <;> simp [Page.step, touch, Touch.next]
  | keydown code repeated now =>
    rw [Page.step, touch]
    cases hcode : keyBindings.lookup code with
    | none => simp [Touch.next]
    | some k =>
      dsimp only
      cases repeated with
      | true => simp [Touch.next]
      | false => simp [lookup_down]
  | keyup code now =>
    rw [Page.step, touch]
    cases hcode : keyBindings.lookup code with
    | none => simp [Touch.next]
    | some k => simp [lookup_up]
  | blur now =>
    rw [Page.step, touch]
    dsimp only
    rw [lookup_foldl_up]
    cases hheld : p.pressedAt.lookup key <;> simp [mem_held, hheld, Touch.next]
  | pagehide =>
    rw [Page.step, touch]
    split <;> simp [Touch.next]

/-- An event asks for a press of a key exactly if it ends one.

**Proof sketch.** By the kind of event. A key that goes down asks for nothing, one that comes up
for the press it ends; losing the focus ends all presses, and only one of them is of this key. -/
lemma holds_step (e : Event) :
    (p.step e).sent.filterMap (Request.holdOf key) =
      p.sent.filterMap (Request.holdOf key) ++
        (Touch.ended (p.pressedAt.lookup key) (touch key e)).toList.map ms := by
  have hnone : ∀ since, Touch.ended since none = none := by
    intro since
    cases since <;> rfl
  have hpress : ∀ since now, Touch.ended since (some (.press now)) = none := by
    intro since now
    cases since <;> rfl
  cases e with
  | pointer k kind now =>
    cases kind with
    | down =>
      rw [Page.step, touch, sent_down]
      split <;> simp [hnone, hpress]
    | up => exact holds_up p key now k
    | leave => exact holds_up p key now k
    | cancel => exact holds_up p key now k
  | pointerPtt kind => cases kind <;> simp [Page.step, touch, hnone]
  | keydown code repeated now =>
    rw [Page.step, touch]
    cases hcode : keyBindings.lookup code with
    | none => simp [hnone]
    | some k =>
      cases repeated with
      | true => simp [hnone]
      | false =>
        by_cases hk : k = key <;> simp [hk, hnone, hpress]
  | keyup code now =>
    rw [Page.step, touch]
    cases hcode : keyBindings.lookup code with
    | none => simp [hnone]
    | some k => simp [holds_up]
  | blur now =>
    rw [Page.step, touch]
    dsimp only
    rw [List.filterMap_append, holds_foldl_up]
    cases hheld : p.pressedAt.lookup key <;>
      simp [mem_held, hheld, Touch.ended, Request.holdOf, ms]
  | pagehide =>
    rw [Page.step, touch]
    split <;> simp [hnone]

/-! ## The transmit key -/

/-- A key that goes down leaves the PTT button. -/
@[simp] lemma pttHeld_down (k : String) : (p.down k now).pttHeld = p.pttHeld := by
  rw [Page.down]
  split <;> rfl

/-- A key that goes up leaves the PTT button. -/
@[simp] lemma pttHeld_up (k : String) : (p.up now k).pttHeld = p.pttHeld := by
  rw [Page.up]
  split <;> rfl

/-- A key that goes up asks nothing of the PTT button. -/
@[simp] lemma ptts_up (k : String) :
    (p.up now k).sent.filterMap Request.pttOf = p.sent.filterMap Request.pttOf := by
  rw [Page.up]
  split
  · rfl
  · simp [Request.pttOf]

/-- Keys that go up leave the PTT button, and ask nothing of it. -/
lemma ptt_foldl_up (ks : List String) :
    (ks.foldl (Page.up · now ·) p).pttHeld = p.pttHeld ∧
      (ks.foldl (Page.up · now ·) p).sent.filterMap Request.pttOf =
        p.sent.filterMap Request.pttOf := by
  induction ks generalizing p with
  | nil => exact ⟨rfl, rfl⟩
  | cons k ks ih =>
    obtain ⟨hheld, hsent⟩ := ih (p.up now k)
    exact ⟨hheld.trans (pttHeld_up p now k), hsent.trans (ptts_up p now k)⟩

/-- What is asked for the transmit key, for what an event means for it. -/
def pttAsked (held : Bool) : Option Bool → List Bool
  | none => []
  | some now => if now = held then [] else [now]

/-- The PTT button asks the server if it changes, and for nothing otherwise. -/
lemma ptt_setPtt (held : Bool) :
    (p.setPtt held).pttHeld = held ∧
      (p.setPtt held).sent.filterMap Request.pttOf =
        p.sent.filterMap Request.pttOf ++ pttAsked p.pttHeld (some held) := by
  rw [Page.setPtt, pttAsked]
  split
  · next hsame => exact ⟨hsame.symm, (List.append_nil _).symm⟩
  · exact ⟨rfl, by simp [Request.pttOf]⟩

/-- **What an event does to the transmit key.** -/
lemma ptt_step (e : Event) :
    (p.step e).pttHeld = (pttTouch e).getD p.pttHeld ∧
      (p.step e).sent.filterMap Request.pttOf =
        p.sent.filterMap Request.pttOf ++ pttAsked p.pttHeld (pttTouch e) := by
  cases e with
  | pointer k kind now => cases kind <;> simp [Page.step, pttTouch, pttAsked]
  | pointerPtt kind => cases kind <;> exact ptt_setPtt p _
  | keydown code repeated now =>
    rw [Page.step, pttTouch]
    split
    · simp [pttAsked]
    · split <;> simp [pttAsked]
  | keyup code now =>
    rw [Page.step, pttTouch]
    split <;> simp [pttAsked]
  | blur now =>
    obtain ⟨hheld, hsent⟩ := ptt_foldl_up p now (p.pressedAt.map Prod.fst)
    rw [Page.step, pttTouch]
    refine ⟨hheld, ?_⟩
    dsimp only
    rw [List.filterMap_append, hsent]
    simp [pttAsked, Request.pttOf]
  | pagehide =>
    rw [Page.step]
    split
    · exact ptt_setPtt p false
    · next hnot =>
      have hfalse : p.pttHeld = false := Bool.eq_false_iff.mpr hnot
      simp [pttTouch, pttAsked, hfalse]

end Step

/-! ## What the server makes of it -/

/-- Characters of ASCII have the usual upper and lower case. -/
structure AsciiCase (u : Keys.Unicode) : Prop where
  upper : ∀ s : List Char, (∀ c ∈ s, c.val < 128) → u.upper s = s.map Char.toUpper
  lower : ∀ s : List Char, (∀ c ∈ s, c.val < 128) → u.lower s = s.map Char.toLower

/-- Printed characters of ASCII are not stripped. -/
lemma strip_printed (t : Text.CharTable) {s : List Char}
    (h : ∀ c ∈ s, c.val < 128 ∧ 32 < c.toNat) : t.strip s = s := by
  have hspace : ∀ c ∈ s, t.isSpace c = false := by
    intro c hc
    obtain ⟨hascii, hprinted⟩ := h c hc
    rw [t.isSpace_ascii c hascii]
    simp only [Bool.or_eq_false_iff, Bool.and_eq_false_iff, decide_eq_false_iff_not]
    omega
  refine Text.stripped_eq_self_iff.mpr ⟨fun c hc => ?_, fun c hc => ?_⟩
  · exact hspace c (List.mem_of_mem_head? hc)
  · exact hspace c (List.mem_of_mem_getLast? hc)

/-- **The server accepts what the page sends.** -/
lemma apiKey_button {u : Keys.Unicode} (hu : AsciiCase u) {key : String} (hkey : key ∈ buttons)
    {holdMs : ℤ} (hms : 0 ≤ holdMs) :
    Keys.apiKey u (.str key.toList) .null (.int holdMs) =
      .tap key (min holdMs.toNat Keys.maxHoldMs) := by
  have hnames : ∀ key ∈ buttons, key.toList.isEmpty = false ∧
      (∀ c ∈ key.toList, c.val < 128 ∧ 32 < c.toNat) ∧
      key.toList.map Char.toUpper = key.toList ∧ key ∈ Keys.keys := by
    simp [buttons, sideKeys, keyGrid, Keys.keys]
  obtain ⟨hne, hprinted, hupper, hvalid⟩ := hnames key hkey
  have htap : ∀ c ∈ "tap".toList, c.val < 128 ∧ 32 < c.toNat := by simp
  have hname : Keys.normalise u (.str key.toList) = some key.toList := by
    rw [Keys.normalise, Keys.stripped, Keys.Json.falsy, hne, if_neg Bool.false_ne_true]
    rw [strip_printed _ hprinted, Option.map_some, hu.upper _ fun c hc => (hprinted c hc).1, hupper]
  have haction : (Keys.stripped u "tap".toList .null).map u.lower = some "tap".toList := by
    unfold Keys.stripped
    rw [Keys.Json.falsy, if_pos rfl, strip_printed _ htap, Option.map_some,
      hu.lower _ fun c hc => (htap c hc).1]
    rfl
  have hisValid : Keys.isValid key.toList = true := by
    rw [Keys.isValid, String.ofList_toList]
    exact decide_eq_true hvalid
  have hhold : Keys.holdMs u (.int holdMs) = .ok (min holdMs.toNat Keys.maxHoldMs) := by
    rw [Keys.holdMs, if_neg (by simp), Keys.holdValue]
    exact if_neg (Int.not_lt.mpr hms)
  rw [Keys.apiKey, hname, haction]
  simp [hisValid, hhold]

/-- No press is shorter than the shortest. -/
lemma le_measured (started now : ℚ) : 60 ≤ measured started now := by
  rw [measured, mathRound, Int.le_floor]
  have hle := le_max_right (now - started) minHoldMs
  rw [minHoldMs] at hle ⊢
  push_cast
  linarith

/-! ## Runs -/

/-- The pointer is on a button that is there. -/
def Event.OnPage : Event → Prop
  | .pointer key _ _ => key ∈ buttons
  | _ => True

/-- Only keys with a button are down or were sent, and for long enough. -/
structure Known (p : Page) : Prop where
  pressed : ∀ held ∈ p.pressedAt, held.1 ∈ buttons
  sent : ∀ key holdMs, .key key holdMs ∈ p.sent → key ∈ buttons ∧ 60 ≤ holdMs

section Known

variable {p : Page} {key : String} {now : ℚ}

/-- A button of the page that goes down keeps the list to buttons of the page. -/
lemma Known.down (h : Known p) (hkey : key ∈ buttons) : Known (p.down key now) := by
  rw [Page.down]
  split
  · exact h
  · refine ⟨fun held hheld => ?_, h.sent⟩
    rcases List.mem_append.mp hheld with hold | hnew
    · exact h.pressed held hold
    · rw [List.mem_singleton.mp hnew]
      exact hkey

/-- A key that goes up keeps the list, and what has been asked, to buttons of the page. -/
lemma Known.up (h : Known p) : Known (p.up now key) := by
  rw [Page.up]
  split
  · exact h
  · next started hstarted =>
    have hkey : key ∈ buttons := by
      have hsome := Option.isSome_iff_exists.mpr ⟨started, hstarted⟩
      rw [← mem_held, List.mem_map] at hsome
      obtain ⟨held, hheld, rfl⟩ := hsome
      exact h.pressed held hheld
    refine ⟨fun held hheld => h.pressed held (List.mem_of_mem_filter hheld), fun k holdMs hk => ?_⟩
    rcases List.mem_append.mp hk with hold | hnew
    · exact h.sent k holdMs hold
    · obtain ⟨rfl, rfl⟩ := Request.key.inj (List.mem_singleton.mp hnew)
      exact ⟨hkey, le_measured started now⟩

/-- Keys that go up keep the list, and what has been asked, to buttons of the page. -/
lemma Known.foldl_up (h : Known p) (ks : List String) :
    Known (ks.foldl (Page.up · now ·) p) := by
  induction ks generalizing p with
  | nil => exact h
  | cons k ks ih => exact ih h.up

/-- A request that is no press keeps what has been asked for to buttons of the page. -/
lemma Known.send (h : Known p) {r : Request} (hr : ∀ key holdMs, r ≠ .key key holdMs)
    (held : Bool) : Known { p with pttHeld := held, sent := p.sent ++ [r] } := by
  refine ⟨h.pressed, fun k holdMs hk => ?_⟩
  rcases List.mem_append.mp hk with hold | hnew
  · exact h.sent k holdMs hold
  · exact absurd (List.mem_singleton.mp hnew).symm (hr k holdMs)

/-- The PTT button keeps the list, and what has been asked, to buttons of the page. -/
lemma Known.setPtt (h : Known p) (held : Bool) : Known (p.setPtt held) := by
  rw [Page.setPtt]
  split
  · exact h
  · exact h.send (fun _ _ hr => by cases hr) held

/-- The keyboard is bound to buttons of the page only. -/
lemma bound_mem {code : String} (h : keyBindings.lookup code = some key) : key ∈ buttons := by
  have hall : ∀ b ∈ keyBindings, b.2 ∈ buttons := by decide
  obtain ⟨before, after, heq, -⟩ := List.lookup_eq_some_iff.mp h
  refine hall (code, key) ?_
  rw [heq]
  exact List.mem_append_right _ (List.mem_cons_self ..)

/-- An event on the page keeps the list, and what has been asked, to buttons of the page. -/
lemma Known.step (h : Known p) {e : Event} (he : e.OnPage) : Known (p.step e) := by
  cases e with
  | pointer k kind now =>
    cases kind with
    | down => exact h.down he
    | up => exact h.up
    | leave => exact h.up
    | cancel => exact h.up
  | pointerPtt kind => cases kind <;> exact h.setPtt _
  | keydown code repeated now =>
    rw [Page.step]
    split
    · exact h
    · next k hk =>
      split
      · exact h
      · exact h.down (bound_mem hk)
  | keyup code now =>
    rw [Page.step]
    split
    · exact h
    · exact h.up
  | blur now =>
    exact (h.foldl_up _).send (fun _ _ hr => by cases hr) _
  | pagehide =>
    rw [Page.step]
    split
    · exact h.setPtt false
    · exact h

end Known

/-- What the page has sent, and what it holds. -/
structure Sends (u : Keys.Unicode) (es : List Event) (p : Page) : Prop where
  /-- One request for every press of a key, with its length. -/
  presses : ∀ key, p.sent.filterMap (Request.holdOf key) =
    (presses none (es.map (touch key))).map ms
  /-- The keys that are down. -/
  held : ∀ key, p.pressedAt.lookup key = heldSince none (es.map (touch key))
  /-- The transmit key, whenever it changes. -/
  ptt : p.sent.filterMap Request.pttOf =
    ((es.filterMap pttTouch).destutter' (· ≠ ·) false).tail
  /-- The transmit key is down if the last that happened to it was that it went down. -/
  pttHeld : p.pttHeld = ((es.filterMap pttTouch).getLast?).getD false
  /-- The server holds the key for as long, or for as long as it ever does. -/
  accepted : ∀ key holdMs, .key key holdMs ∈ p.sent → 60 ≤ holdMs ∧
    Keys.apiKey u (.str key.toList) .null (.int holdMs) =
      .tap key (min holdMs.toNat Keys.maxHoldMs)

/-- Over a run the presses of a key that are asked for are the presses of that key, in order. -/
lemma holds_run (p : Page) (key : String) (es : List Event) :
    (es.foldl Page.step p).sent.filterMap (Request.holdOf key) =
        p.sent.filterMap (Request.holdOf key) ++
          (presses (p.pressedAt.lookup key) (es.map (touch key))).map ms ∧
      (es.foldl Page.step p).pressedAt.lookup key =
        heldSince (p.pressedAt.lookup key) (es.map (touch key)) := by
  induction es generalizing p with
  | nil => exact ⟨(List.append_nil _).symm, rfl⟩
  | cons e es ih =>
    obtain ⟨hsent, hheld⟩ := ih (p.step e)
    rw [List.foldl_cons, hsent, hheld, holds_step, lookup_step, List.map_cons, presses,
      List.map_append, List.append_assoc]
    exact ⟨rfl, rfl⟩

/-- What has no repetitions left begins with what it began with. -/
lemma destutter_eq_cons (held : Bool) (ts : List Bool) :
    ts.destutter' (· ≠ ·) held = held :: (ts.destutter' (· ≠ ·) held).tail := by
  induction ts with
  | nil => rfl
  | cons t ts ih =>
    by_cases hne : held ≠ t
    · rw [List.destutter'_cons_pos _ hne, List.tail_cons]
    · rw [List.destutter'_cons_neg _ hne]
      exact ih

/-- The PTT button stands where it was put last. -/
lemma ptt_held (p : Page) (es : List Event) :
    (es.foldl Page.step p).pttHeld = ((es.filterMap pttTouch).getLast?).getD p.pttHeld :=
  Run.foldl_eq_lastOr Page.pttHeld (fun p e => (ptt_step p e).1) es p

/-- Over a run the server is asked for every change of the PTT button, in order. -/
lemma ptt_run (p : Page) (es : List Event) :
    (es.foldl Page.step p).sent.filterMap Request.pttOf = p.sent.filterMap Request.pttOf ++
      ((es.filterMap pttTouch).destutter' (· ≠ ·) p.pttHeld).tail := by
  induction es generalizing p with
  | nil => simp
  | cons e es ih =>
    obtain ⟨hnow, hasked⟩ := ptt_step p e
    rw [List.foldl_cons, ih, hasked, hnow, List.append_assoc]
    cases htouch : pttTouch e with
    | none => simp [htouch, pttAsked]
    | some now =>
      rw [List.filterMap_cons_some htouch, pttAsked, Option.getD_some]
      split
      · next hsame =>
        subst hsame
        rw [List.destutter'_cons_neg _ (by simp), List.nil_append]
      · next hne =>
        rw [List.destutter'_cons_pos _ (Ne.symm hne), List.tail_cons]
        exact congrArg (_ ++ ·) (destutter_eq_cons now _).symm

/-- **What the page sends**, for any order of what pointers, the keyboard and the window do. For
every key it sends one request for each press: the press begins where the key first goes down, by
whatever means, and ends where it first comes up or the page loses the focus; the request has its
length, at least sixty milliseconds, and the server holds the key for as long, up to its own limit.
What is done to other keys does not matter. For the transmit key it sends what changes, and the last
request says whether the key is down.

**Proof sketch.** The requests for one key are those of its own presses (`holds_run`), those of
the transmit key its changes (`ptt_run`). The page only knows keys of its own grid, which the
server accepts. -/
theorem page_sends {u : Keys.Unicode} (hu : AsciiCase u) (es : List Event)
    (hes : ∀ e ∈ es, e.OnPage) : Sends u es (es.foldl Page.step .start) := by
  have hknown : ∀ {p : Page}, Known p → Known (es.foldl Page.step p) := by
    induction es with
    | nil => exact fun h => h
    | cons e es ih =>
      obtain ⟨he, hes⟩ := List.forall_mem_cons.mp hes
      exact fun h => ih hes (h.step he)
  have hstart : Known .start :=
    ⟨fun _ h => absurd h List.not_mem_nil, fun _ _ h => absurd h List.not_mem_nil⟩
  refine ⟨fun key => (holds_run .start key es).1, fun key => (holds_run .start key es).2,
    ptt_run .start es, ptt_held .start es, fun key holdMs hsent => ?_⟩
  obtain ⟨hkey, hlong⟩ := (hknown hstart).sent key holdMs hsent
  exact ⟨hlong, apiKey_button hu hkey (Int.le_trans (by decide) hlong)⟩

/-- A button is held, a key of the keyboard goes down, and the page loses the focus. -/
def someTouches : List Event :=
  [.pointer "5" .down 0, .pointer "5" .up 100, .pointerPtt .down, .keydown "Enter" false 120,
    .pointerPtt .leave, .blur 130]

/-- Touches of two keys and the PTT button, one of them ended by the window losing the focus. -/
theorem page_sends_someTouches :
    Sends .ascii someTouches (someTouches.foldl Page.step .start) := by
  refine page_sends ⟨fun _ _ => rfl, fun _ _ => rfl⟩ someTouches fun e he => ?_
  simp only [someTouches, List.mem_cons, List.not_mem_nil, or_false] at he
  obtain rfl | rfl | rfl | rfl | rfl | rfl := he
  · exact show "5" ∈ buttons by decide
  · exact show "5" ∈ buttons by decide
  all_goals trivial

/-- They are sent when they end, the short one made longer. -/
example : (someTouches.foldl Page.step .start).sent =
    [.key "5" 100, .ptt true, .ptt false, .key "MENU" 60, .releaseAll] := by decide +kernel

end Uvk5.Presses
