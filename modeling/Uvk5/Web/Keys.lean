import Mathlib.Algebra.GroupWithZero.Nat
import Uvk5.Board.BootKey

set_option relaxedAutoImplicit false
set_option autoImplicit false

/-!
# From the keys of the page to the keypad (`tools/uvk5_keys.py`, `tools/webui.py`)

The page asks for keys over HTTP. A request holds a key, lets it go, or holds it for a while; the
transmit key is held and let go by requests of its own. Each request is answered by a thread, so
others come between the commands of one.

## Main definitions

* `Keys.apiKey` — what a request for a key asks for.
* `Keys.Radio`, `Keys.State.step` — what the requests need of a radio, and the handlers for any.
* `Keys.emulator`, `Keys.page` — port B with the keypad, and what the user of the page knows of it.

## Main results

* `Keys.Matches.step` — two radios that go side by side.
* `Keys.scan_finds_key` — what the firmware sees is what the requests hold.
* `Keys.keys_let_go` — no key stays held.

## Design

A command that is sent to the emulator is executed. A request that would end in an error of the
interpreter is answered 500 and does nothing.
-/

namespace Uvk5.Keys

open Gpio Keypad WordBits

/-! ## Names -/

/-- A value in the body of a request, as far as the handlers look at it. -/
inductive Json where
  /-- `null`, or no value at all. -/
  | null
  /-- A truth value. -/
  | bool (b : Bool)
  /-- An integer. -/
  | int (z : ℤ)
  /-- A finite number with a fraction: whether it is 0, and what `int` makes of it. -/
  | float (zero : Bool) (truncated : ℤ)
  /-- An infinite number. -/
  | infinity
  /-- Not a number. -/
  | nan
  /-- A string. -/
  | str (s : List Char)
  /-- A list or an object. -/
  | collection (empty : Bool)
  deriving DecidableEq

/-- What Python takes for false. -/
def Json.falsy : Json → Bool
  | .null => true
  | .bool b => !b
  | .int z => z = 0
  | .float zero _ => zero
  | .infinity => false
  | .nan => false
  | .str s => s.isEmpty
  | .collection empty => empty

/-- What Python knows of characters. -/
structure Unicode where
  /-- Digits and white space. -/
  table : Text.CharTable
  /-- `str.upper`. -/
  upper : List Char → List Char
  /-- `str.lower`. -/
  lower : List Char → List Char

variable (u : Unicode)

/-- `(value or default).strip()`, with `none` for the `AttributeError` of a value that is no text.
-/
def stripped (default : List Char) (value : Json) : Option (List Char) :=
  if value.falsy then some (u.table.strip default)
  else match value with
    | .str s => some (u.table.strip s)
    | _ => none

/-- `normalise`. -/
def normalise (name : Json) : Option (List Char) := (stripped u [] name).map u.upper

/-- `KEYS`. -/
def keys : List String :=
  ["MENU", "UP", "DOWN", "EXIT", "F", "STAR", "0", "1", "2", "3", "4", "5", "6", "7", "8", "9",
    "SIDE1", "SIDE2"]

/-- `is_valid` of a name that is normalised. -/
def isValid (key : List Char) : Bool := String.ofList key ∈ keys

/-! ## Requests -/

/-- `TAP_MS`. -/
def tapMs : ℕ := 60
/-- `MAX_HOLD_MS`. -/
def maxHoldMs : ℕ := 5000

/-- What a request asks for. -/
inductive Plan where
  /-- It is answered with an error. -/
  | refuse (status : ℕ)
  /-- The key is held. -/
  | down (key : String)
  /-- It is let go. -/
  | up
  /-- It is held for some milliseconds. -/
  | tap (key : String) (holdMs : ℕ)
  deriving DecidableEq

/-- `int(hold_raw)`, with the status of the answer if it raises. -/
def holdValue : Json → Except ℕ ℤ
  | .null => .error 400
  | .bool b => .ok (if b then 1 else 0)
  | .int z => .ok z
  | .float _ truncated => .ok truncated
  | .infinity => .error 500
  | .nan => .error 400
  | .str s => match u.table.toInt s with
    | some z => .ok z
    | none => .error 400
  | .collection _ => .error 400

/-- The milliseconds of a request. -/
def holdMs (raw : Json) : Except ℕ ℕ :=
  if raw = .null then .ok tapMs
  else match holdValue u raw with
    | .error status => .error status
    | .ok z => if z < 0 then .error 400 else .ok (min z.toNat maxHoldMs)

/-- `api_key`, up to its commands. -/
def apiKey (key action hold : Json) : Plan :=
  match normalise u key, (stripped u "tap".toList action).map u.lower with
  | some key, some action =>
    if !isValid key then .refuse 400
    else if String.ofList action ∉ ["down", "up", "tap"] then .refuse 400
    else match holdMs u hold with
      | .error status => .refuse status
      | .ok ms =>
        if String.ofList action = "down" then .down (String.ofList key)
        else if String.ofList action = "up" then .up
        else .tap (String.ofList key) ms
  | _, _ => .refuse 500

/-! ## The radio and its requests -/

/-- What the requests need of a radio. -/
structure Radio (ρ : Type) where
  /-- A radio is built, and a boot key is held. -/
  launch : Board → Bool → String → ρ
  /-- The property `press` is written. -/
  press : ρ → String → ρ
  /-- The property `ptt` is written. -/
  setPtt : ρ → Bool → ρ
  /-- The guest writes a register of port B. -/
  write : ρ → ℕ → UInt32 → ρ
  /-- The transceiver drives its data line. -/
  sda : ρ → Bool → ρ
  /-- The port and the keypad are reset. -/
  reset : ρ → Bool → ρ

/-- The radio, and the requests in progress. -/
structure State (ρ : Type) where
  /-- The radio that runs, if one does. -/
  radio : Option ρ
  /-- The requests that hold a key for some time. -/
  taps : ℕ
  /-- The requests to let everything go that have let the keys go. -/
  releases : ℕ
  /-- The timer of the boot key is armed. -/
  bootTimer : Bool
  /-- The answers given so far. -/
  answers : List ℕ

/-- Nothing is on yet. -/
def State.start {ρ : Type} : State ρ := ⟨none, 0, 0, false, []⟩

/-- What may happen. -/
inductive Event where
  /-- A request for a key arrives: the fields `key`, `action` and `hold_ms` of its body. -/
  | key (key action hold : Json)
  /-- The time of a request that holds a key is over. -/
  | tapEnd
  /-- A request for the transmit key arrives: the field `held` of its body. -/
  | ptt (held : Json)
  /-- A request to let everything go arrives. -/
  | releaseAll
  /-- It comes to the transmit key. -/
  | releasePtt
  /-- An emulator is started. -/
  | launch (b : Board) (gpioFirst : Bool) (bootKey : String)
  /-- The timer of the boot key runs out. -/
  | bootKeyRelease
  /-- The emulator ends. -/
  | exit
  /-- The guest writes a register of port B. -/
  | write (addr : ℕ) (value : UInt32)
  /-- The transceiver drives its data line. -/
  | sda (level : Bool)
  /-- The emulator is reset. -/
  | reset (gpioFirst : Bool)

section Step

variable {ρ : Type} (M : Radio ρ)

/-- A request is answered. -/
def State.answer (s : State ρ) (status : ℕ) : State ρ := { s with answers := s.answers ++ [status] }

/-- The radio does something by itself. -/
def State.run (s : State ρ) (f : ρ → ρ) : State ρ := { s with radio := s.radio.map f }

/-- A command is sent, and something follows; the request is refused while the radio is off. -/
def State.command (s : State ρ) (f : ρ → ρ) (next : State ρ → State ρ) : State ρ :=
  match s.radio with
  | none => s.answer 409
  | some r => next { s with radio := some (f r) }

/-- `api_key`, up to the end of its first command. -/
def State.request (s : State ρ) : Plan → State ρ
  | .refuse status => s.answer status
  | .down key => s.command (M.press · key) (·.answer 200)
  | .up => s.command (M.press · "") (·.answer 200)
  | .tap key _ => s.command (M.press · key) fun s => { s with taps := s.taps + 1 }

/-- `api_ptt`. -/
def State.requestPtt (s : State ρ) : Json → State ρ
  | .bool held => s.command (M.setPtt · held) (·.answer 200)
  | _ => s.answer 400

/-- One event. -/
def State.step (s : State ρ) : Event → State ρ
  | .key key action hold => s.request M (apiKey u key action hold)
  | .tapEnd =>
    if s.taps = 0 then s
    else { s with taps := s.taps - 1 }.command (M.press · "") (·.answer 200)
  | .ptt held => s.requestPtt M held
  | .releaseAll => s.command (M.press · "") fun s => { s with releases := s.releases + 1 }
  | .releasePtt =>
    if s.releases = 0 then s
    else { s with releases := s.releases - 1 }.command (M.setPtt · false) (·.answer 200)
  | .launch b gpioFirst bootKey =>
    { s with radio := some (M.launch b gpioFirst bootKey), bootTimer := bootKey ≠ "" }
  | .bootKeyRelease =>
    if s.bootTimer then { s.run fun r => M.setPtt (M.press r "") false with bootTimer := false }
    else s
  | .exit => { s with radio := none, bootTimer := false }
  | .write addr value => s.run (M.write · addr value)
  | .sda level => s.run (M.sda · level)
  | .reset gpioFirst => s.run (M.reset · gpioFirst)

end Step

/-- The radio of the emulator: port B and the keypad. -/
def emulator : Radio Watch where
  launch b gpioFirst bootKey :=
    ⟨(b.reset gpioFirst).armBootKey bootKey, (Watch.start b gpioFirst).driven⟩
  press w name := w.step (.press name)
  setPtt w held := w.step (.ptt held)
  write w addr value := w.step (.write addr value)
  sda w level := w.step (.sda level)
  reset w gpioFirst := w.step (.reset gpioFirst)

/-- What the user of the page knows of the radio: what is held. -/
def page : Radio Held where
  launch _ _ bootKey := bootHeld bootKey
  press h name := h.press name
  setPtt h held := { h with ptt := held }
  write h _ _ := h
  sda h _ := h
  reset _ _ := .none

/-! ## Two radios side by side -/

section Simulation

variable {ρ τ : Type} {M : Radio ρ} {N : Radio τ} {R : ρ → τ → Prop}

/-- Whatever happens to two radios leaves them related. -/
structure Simulates (M : Radio ρ) (N : Radio τ) (R : ρ → τ → Prop) : Prop where
  launch : ∀ b gpioFirst bootKey, R (M.launch b gpioFirst bootKey) (N.launch b gpioFirst bootKey)
  press : ∀ {r t}, R r t → ∀ name, R (M.press r name) (N.press t name)
  setPtt : ∀ {r t}, R r t → ∀ held, R (M.setPtt r held) (N.setPtt t held)
  write : ∀ {r t}, R r t → ∀ addr value, R (M.write r addr value) (N.write t addr value)
  sda : ∀ {r t}, R r t → ∀ level, R (M.sda r level) (N.sda t level)
  reset : ∀ {r t}, R r t → ∀ gpioFirst, R (M.reset r gpioFirst) (N.reset t gpioFirst)

/-- The radios are related, and all else is the same. -/
structure Matches (R : ρ → τ → Prop) (s : State ρ) (t : State τ) : Prop where
  radio : Option.Rel R s.radio t.radio
  taps : s.taps = t.taps
  releases : s.releases = t.releases
  bootTimer : s.bootTimer = t.bootTimer
  answers : s.answers = t.answers

variable {s : State ρ} {t : State τ}

/-- Answers keep the radios related. -/
lemma Matches.answer (h : Matches R s t) (status : ℕ) :
    Matches R (s.answer status) (t.answer status) := by
  refine ⟨h.radio, h.taps, h.releases, h.bootTimer, ?_⟩
  rw [State.answer, State.answer, h.answers]

/-- The radios stay related if what they do by themselves keeps them so. -/
lemma Matches.run (h : Matches R s t) {f : ρ → ρ} {g : τ → τ}
    (hfg : ∀ {r t}, R r t → R (f r) (g t)) : Matches R (s.run f) (t.run g) := by
  refine ⟨?_, h.taps, h.releases, h.bootTimer, h.answers⟩
  have hradio := h.radio
  dsimp only [State.run]
  generalize s.radio = r, t.radio = r' at hradio ⊢
  cases hradio with
  | none => exact .none
  | some hr => exact .some (hfg hr)

/-- A command, if what follows it keeps the match. -/
lemma Matches.command (h : Matches R s t) {f : ρ → ρ} {g : τ → τ}
    {next : State ρ → State ρ} {next' : State τ → State τ}
    (hfg : ∀ {r t}, R r t → R (f r) (g t))
    (hnext : ∀ {s t}, Matches R s t → Matches R (next s) (next' t)) :
    Matches R (s.command f next) (t.command g next') := by
  rw [State.command, State.command]
  have hradio := h.radio
  split
  · next hs =>
    split
    · exact h.answer 409
    · next ht =>
      rw [hs, ht] at hradio
      cases hradio
  · next hs =>
    split
    · next ht =>
      rw [hs, ht] at hradio
      cases hradio
    · next ht =>
      rw [hs, ht] at hradio
      cases hradio with
      | some hr => exact hnext ⟨.some (hfg hr), h.taps, h.releases, h.bootTimer, h.answers⟩

/-- **One event** leaves two radios related whose parts are.

**Proof sketch.** By the kind of event. The handler makes the same decisions on both sides, since
they rest on the request and on the counts, which agree; the command it sends is one of the
simulation. -/
lemma Matches.step (hsim : Simulates M N R) (h : Matches R s t) (e : Event) :
    Matches R (s.step u M e) (t.step u N e) := by
  have hanswer : ∀ {s : State ρ} {t : State τ}, Matches R s t →
      Matches R (s.answer 200) (t.answer 200) := fun h => h.answer 200
  cases e with
  | key key action hold =>
    rw [State.step, State.step]
    cases apiKey u key action hold with
    | refuse status => exact h.answer status
    | down key => exact h.command (fun hr => hsim.press hr key) hanswer
    | up => exact h.command (fun hr => hsim.press hr "") hanswer
    | tap key ms =>
      have htap : ∀ {s : State ρ} {t : State τ}, Matches R s t →
          Matches R { s with taps := s.taps + 1 } { t with taps := t.taps + 1 } := fun h =>
        ⟨h.radio, congrArg (· + 1) h.taps, h.releases, h.bootTimer, h.answers⟩
      exact h.command (fun hr => hsim.press hr key) htap
  | tapEnd =>
    rw [State.step, State.step, h.taps]
    split
    · exact h
    · have hrest : Matches R { s with taps := t.taps - 1 } { t with taps := t.taps - 1 } :=
        ⟨h.radio, rfl, h.releases, h.bootTimer, h.answers⟩
      exact hrest.command (fun hr => hsim.press hr "") hanswer
  | ptt held =>
    rw [State.step, State.step]
    cases held with
    | bool held => exact h.command (fun hr => hsim.setPtt hr held) hanswer
    | null | int | float | infinity | nan | str | collection => exact h.answer 400
  | releaseAll =>
    have hrelease : ∀ {s : State ρ} {t : State τ}, Matches R s t →
        Matches R { s with releases := s.releases + 1 } { t with releases := t.releases + 1 } :=
      fun h => ⟨h.radio, h.taps, congrArg (· + 1) h.releases, h.bootTimer, h.answers⟩
    exact h.command (fun hr => hsim.press hr "") hrelease
  | releasePtt =>
    rw [State.step, State.step, h.releases]
    split
    · exact h
    · have hrest : Matches R { s with releases := t.releases - 1 }
          { t with releases := t.releases - 1 } :=
        ⟨h.radio, h.taps, rfl, h.bootTimer, h.answers⟩
      exact hrest.command (fun hr => hsim.setPtt hr false) hanswer
  | launch b gpioFirst bootKey =>
    exact ⟨.some (hsim.launch b gpioFirst bootKey), h.taps, h.releases, rfl, h.answers⟩
  | bootKeyRelease =>
    rw [State.step, State.step, h.bootTimer]
    split
    · have hrun := h.run fun hr => hsim.setPtt (hsim.press hr "") false
      exact ⟨hrun.radio, hrun.taps, hrun.releases, rfl, hrun.answers⟩
    · exact h
  | exit => exact ⟨.none, h.taps, h.releases, rfl, h.answers⟩
  | write addr value => exact h.run fun hr => hsim.write hr addr value
  | sda level => exact h.run fun hr => hsim.sda hr level
  | reset gpioFirst => exact h.run fun hr => hsim.reset hr gpioFirst

end Simulation

/-! ## The emulator and the page -/

/-- Holding one key leaves what the keypad knows of the columns. -/
lemma tracks_holdPart {w : Watch} (h : Tracks w) (one : String) :
    Tracks ⟨w.board.holdPart one, w.driven⟩ := by
  rw [Board.holdPart]
  split
  · exact h
  · split
    · exact h.step (.ptt true)
    · exact h.press one

/-- Arming a boot key leaves what the keypad knows of the columns. -/
lemma tracks_armBootKey {w : Watch} (h : Tracks w) (bootKey : String) :
    Tracks ⟨w.board.armBootKey bootKey, w.driven⟩ := by
  have hfold : ∀ (parts : List String) (b : Board), Tracks ⟨b, w.driven⟩ →
      Tracks ⟨parts.foldl Board.holdPart b, w.driven⟩ := fun parts b hb =>
    Run.foldl_of_step (I := fun b => Tracks ⟨b, w.driven⟩)
      (fun _ one h => tracks_holdPart h one) parts hb
  rw [Board.armBootKey]
  split
  · exact h
  · exact hfold _ _ h

/-- **The page knows what the emulator holds.** -/
lemma emulator_simulates : Simulates emulator page fun w h => Tracks w ∧ Holds w.board h where
  launch b gpioFirst bootKey :=
    ⟨tracks_armBootKey (tracks_reset b gpioFirst) bootKey,
      holds_armBootKey (holds_reset b gpioFirst) bootKey⟩
  press := fun ⟨htracks, hholds⟩ name => ⟨htracks.press name, hholds.press name⟩
  setPtt := fun ⟨htracks, hholds⟩ held => ⟨htracks.step (.ptt held), hholds.setPtt held⟩
  write := fun ⟨htracks, hholds⟩ addr value =>
    ⟨htracks.write addr value, hholds.write addr value⟩
  sda := fun ⟨htracks, hholds⟩ level => ⟨htracks.step (.sda level), hholds.pressed, hholds.ptt⟩
  reset := fun ⟨htracks, _⟩ gpioFirst => ⟨htracks.step (.reset gpioFirst), holds_reset _ gpioFirst⟩

/-- Before the first event. -/
lemma matches_start : Matches (fun w h => Tracks w ∧ Holds w.board h) .start .start :=
  ⟨.none, rfl, rfl, rfl, rfl⟩

/-- **After every run** the page knows what the emulator holds. -/
lemma matches_run (es : List Event) :
    Matches (fun w h => Tracks w ∧ Holds w.board h) (es.foldl (State.step u emulator) .start)
      (es.foldl (State.step u page) .start) :=
  Run.related_foldl (fun _ _ e h => h.step u emulator_simulates e) es matches_start

/-- The emulator that runs, and what it holds. -/
lemma Matches.exists_held {s : State Watch} {t : State Held}
    (h : Matches (fun w h => Tracks w ∧ Holds w.board h) s t) {w : Watch} (hw : s.radio = some w) :
    ∃ held, t.radio = some held ∧ Tracks w ∧ Holds w.board held := by
  have hradio := h.radio
  rw [hw] at hradio
  generalize ht : t.radio = r at hradio
  cases hradio with
  | some hr => exact ⟨_, rfl, hr⟩

/-! ## What the firmware sees -/

/-- Every column but the first is driven; the first is that of the side keys. -/
lemma mem_columns {c : Fin 5} : c ∈ columns ↔ c ≠ 0 := by
  revert c
  decide

/-- There are columns. -/
scoped instance neZeroColumns : NeZero (5 : ℕ) := ⟨by decide⟩

/-- The guest selects this column: its pin is low, or for the side keys all of them are high. -/
def Selected (b : Board) (c : Fin 5) : Prop :=
  if c = 0 then ∀ c ∈ columns, bit b.port.odr (colPin c) = true
  else bit b.port.odr (colPin c) = false

/-- **What the firmware sees is what the requests hold.** Requests for keys and for the transmit
key, of any content, arrive, pause and go on in any order, while emulators are started with any boot
key, are reset and end, and the guest writes to the port. The answers and the keys held are those
the page works out from the requests alone. Whenever every column pin was driven high since the last
reset, a row is low exactly if the key that is held is of this row and of a selected column, and the
pin of the transmit key is low exactly while that is held.

**Proof sketch.** The handlers are run for the board and for the page side by side. Every command
keeps the board wired and the keys of both equal; the law of the rows then reads the input bits off
the keys. -/
theorem scan_finds_key (es : List Event) :
    (es.foldl (State.step u emulator) .start).answers =
        (es.foldl (State.step u page) .start).answers ∧
      ∀ w, (es.foldl (State.step u emulator) .start).radio = some w →
        ∃ held, (es.foldl (State.step u page) .start).radio = some held ∧
          ((∀ c ∈ columns, w.driven c = true) →
            (∀ r, bit w.board.port.idr (rowPin r) = false ↔
                ∃ c, held.key = some (c, r) ∧ Selected w.board c) ∧
              (bit w.board.port.idr pttPin = false ↔ held.ptt = true)) := by
  have hrun := matches_run u es
  refine ⟨hrun.answers, fun w hw => ?_⟩
  obtain ⟨held, hheld, htracks, hholds⟩ := hrun.exists_held hw
  refine ⟨held, hheld, fun hdriven => ?_⟩
  obtain ⟨-, hrows, hptt⟩ := htracks.law hdriven
  refine ⟨fun r => ?_, by rw [hptt, hholds.ptt]⟩
  rw [hrows]
  constructor
  · rintro (⟨c, hc, hpressed, hlow⟩ | ⟨hpressed, hhigh⟩)
    · refine ⟨c, (hholds.pressed c r).mp hpressed, ?_⟩
      rw [Selected, if_neg (mem_columns.mp hc)]
      exact hlow
    · refine ⟨0, (hholds.pressed 0 r).mp hpressed, ?_⟩
      rw [Selected, if_pos rfl]
      exact hhigh
  · rintro ⟨c, hkey, hselected⟩
    have hpressed := (hholds.pressed c r).mpr hkey
    rw [Selected] at hselected
    split at hselected
    · next hzero =>
      subst hzero
      exact .inr ⟨hpressed, hselected⟩
    · next hne =>
      exact .inl ⟨c, mem_columns.mpr hne, hpressed, hselected⟩

/-- Names of ASCII characters. -/
def Unicode.ascii : Unicode := ⟨.ascii, List.map Char.toUpper, List.map Char.toLower⟩

/-- The firmware drives its columns, a request holds the key 5 for a time, and the firmware selects
the column of that key. -/
def tapFive : List Event :=
  [.launch unpowered true "", .write 0x18 0x78, .key (.str ['5']) .null .null, .write 0x28 0x20]

/-- The emulator by then. -/
def tapFiveWatch : Watch := scan.foldl Watch.step (.start unpowered true)

/-- The emulator after the events of the example. -/
lemma tapFive_radio :
    (tapFive.foldl (State.step .ascii emulator) .start).radio = some tapFiveWatch := rfl

/-- The row that the firmware finds low is that of the key 5, which the request holds. -/
theorem scan_finds_key_five :
    ∃ held, (tapFive.foldl (State.step .ascii page) .start).radio = some held ∧
      ∀ r, bit tapFiveWatch.board.port.idr (rowPin r) = false ↔
        ∃ c, held.key = some (c, r) ∧ Selected tapFiveWatch.board c := by
  obtain ⟨held, hheld, hlaw⟩ := (scan_finds_key .ascii tapFive).2 tapFiveWatch tapFive_radio
  exact ⟨held, hheld, (hlaw (by decide +kernel)).1⟩

/-! ## No key stays held -/

/-- The event asks for keys for a time only, as the page does: nothing is held until further notice
and no boot key is asked for. -/
def Timed : Event → Prop
  | .key key action hold => ∀ name, apiKey u key action hold ≠ .down name
  | .launch _ _ bootKey => bootKey = ""
  | _ => True

/-- No key is held while no request holds one. -/
def Idle (t : State Held) : Prop := t.taps = 0 → ∀ held, t.radio = some held → held.key = none

/-- Pressing no key lets go of the one that is held. -/
lemma press_empty_key (h : Held) : (h.press "").key = none := by rw [Held.press, if_pos rfl]

/-- A command after which no key is held. -/
lemma Idle.command {t : State Held} (h : Idle t) {f : Held → Held} (hf : ∀ h, (f h).key = none)
    {next : State Held → State Held} (hnext : ∀ t, (next t).radio = t.radio) :
    Idle (t.command f next) := by
  rw [State.command]
  split
  · exact h
  · intro _ held hheld
    rw [hnext] at hheld
    rw [← Option.some.inj hheld]
    exact hf _

/-- A command that leaves the keys. -/
lemma Idle.command_same {t : State Held} (h : Idle t) {f : Held → Held}
    (hf : ∀ h, (f h).key = h.key) {next : State Held → State Held}
    (hradio : ∀ t, (next t).radio = t.radio) (htaps : ∀ t, (next t).taps = t.taps) :
    Idle (t.command f next) := by
  rw [State.command]
  split
  · exact h
  · next held hsome =>
    intro hzero held' hheld
    rw [htaps] at hzero
    rw [hradio] at hheld
    rw [← Option.some.inj hheld, hf]
    exact h hzero held hsome

/-- An event that asks for keys for a time only leaves no key held when no request holds one.

**Proof sketch.** By the kind of event. A request either sends a press that names no key, holds
one for a time and so leaves a tap to come, or is refused; the end of a tap lets the key go. A
launch holds none, since it has no boot key, and the other events leave what is held. -/
lemma Idle.step {t : State Held} (h : Idle t) {e : Event} (he : Timed u e) :
    Idle (t.step u page e) := by
  cases e with
  | key key action hold =>
    rw [State.step]
    cases hplan : apiKey u key action hold with
    | refuse status => exact h
    | down name => exact absurd hplan (he name)
    | up => exact h.command press_empty_key fun _ => rfl
    | tap key ms =>
      rw [State.request, State.command]
      split
      · exact h
      · exact fun hzero => absurd hzero (Nat.succ_ne_zero _)
  | tapEnd =>
    rw [State.step]
    split
    · exact h
    · next hne =>
      rw [State.command]
      split
      · next hnone => exact fun _ held hheld => by cases hnone.symm.trans hheld
      · intro _ held hheld
        rw [← Option.some.inj hheld]
        exact press_empty_key _
  | ptt held =>
    rw [State.step]
    cases held with
    | bool held =>
      rw [State.requestPtt]
      refine h.command_same ?_ ?_ ?_
      all_goals exact fun _ => rfl
    | null | int | float | infinity | nan | str | collection => exact h
  | releaseAll => exact h.command press_empty_key fun _ => rfl
  | releasePtt =>
    rw [State.step]
    split
    · exact h
    · have hrest : Idle { t with releases := t.releases - 1 } := h
      refine hrest.command_same ?_ ?_ ?_
      all_goals exact fun _ => rfl
  | launch b gpioFirst bootKey =>
    intro _ held hheld
    rw [← Option.some.inj hheld]
    change (bootHeld bootKey).key = none
    rw [he]
    decide
  | bootKeyRelease =>
    rw [State.step]
    split
    · intro hzero held hheld
      obtain ⟨held', -, rfl⟩ := Option.map_eq_some_iff.mp hheld
      exact press_empty_key held'
    · exact h
  | exit => exact fun _ held hheld => by cases hheld
  | write addr value =>
    intro hzero held hheld
    obtain ⟨held', hsome, rfl⟩ := Option.map_eq_some_iff.mp hheld
    exact h hzero held' hsome
  | sda level =>
    intro hzero held hheld
    obtain ⟨held', hsome, rfl⟩ := Option.map_eq_some_iff.mp hheld
    exact h hzero held' hsome
  | reset gpioFirst =>
    intro hzero held hheld
    obtain ⟨held', -, rfl⟩ := Option.map_eq_some_iff.mp hheld
    rfl

/-- Events that ask for keys for a time only leave no key held when no request holds one. -/
lemma Idle.foldl {t : State Held} (h : Idle t) {es : List Event} (hes : ∀ e ∈ es, Timed u e) :
    Idle (es.foldl (State.step u page) t) := by
  induction es generalizing t with
  | nil => exact h
  | cons e es ih =>
    obtain ⟨he, hes⟩ := List.forall_mem_cons.mp hes
    exact ih (h.step u he) hes

/-- **No key stays held.** Requests that hold a key for a time, requests for the transmit key and to
let everything go arrive, pause and go on in any order, while emulators are started, are reset and
end, and the guest writes to the port. Whenever every request that held a key has come to its end,
all rows are high, whatever the guest selects: the keypad of the emulator that runs then holds
nothing, even if that is not the emulator the key was pressed on.

**Proof sketch.** Only a request in progress holds a key. If the emulator is replaced under it, the
new one holds none; and the last request to end lets go what any other has pressed. -/
theorem keys_let_go (es : List Event) (htimed : ∀ e ∈ es, Timed u e)
    (htaps : (es.foldl (State.step u emulator) .start).taps = 0) (w : Watch)
    (hw : (es.foldl (State.step u emulator) .start).radio = some w) (r : Fin 4) :
    bit w.board.port.idr (rowPin r) = true := by
  have hstart : Idle .start := fun _ held hheld => by cases hheld
  have hidle := hstart.foldl u htimed
  obtain ⟨held, hheld, htracks, hholds⟩ := (matches_run u es).exists_held hw
  have hkey := hidle ((matches_run u es).taps.symm.trans htaps) held hheld
  have hnone : ∀ c r, w.board.keypad.pressed c r = false := by
    intro c r
    rw [← Bool.not_eq_true, hholds.pressed, hkey]
    exact fun h => by cases h
  rw [htracks.wired.rows, State.rowLow]
  simp [hnone]

/-- The row is high again once the key is let go. -/
theorem keys_let_go_five :
    bit (tapFiveWatch.step (.press "")).board.port.idr (rowPin 2) = true := by
  have htap : apiKey .ascii (.str ['5']) .null .null = .tap "5" 60 := by decide +kernel
  have htimed : ∀ e ∈ tapFive ++ [.tapEnd], Timed .ascii e := by
    intro e he
    simp only [tapFive, List.cons_append, List.nil_append, List.mem_cons, List.not_mem_nil,
      or_false] at he
    rcases he with rfl | rfl | rfl | rfl | rfl
    · rfl
    · trivial
    · intro name hdown
      rw [htap] at hdown
      cases hdown
    · trivial
    · trivial
  exact keys_let_go .ascii (tapFive ++ [.tapEnd]) htimed rfl (tapFiveWatch.step (.press "")) rfl 2

end Uvk5.Keys
