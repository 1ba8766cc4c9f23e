import Mathlib.Data.List.FinRange
import Mathlib.Logic.Function.Basic
import Uvk5.Board.Gpio
import Uvk5.Lib.Run

set_option relaxedAutoImplicit false
set_option autoImplicit false

/-!
# The keypad at port B (`qemu/py32f071.c`)

The columns of the keypad are outputs of port B and the rows are inputs of it. The keypad is told
when the level of a column pin changes; the side keys are read while no column is low.

## Main definitions

* `Keypad.State`, `Keypad.Board` — the keypad, and the port with it.
* `Keypad.Board.updateRows`, `Keypad.Board.write` — the rule of the rows, and a register write.
* `Keypad.Watch`, `Keypad.Event` — the board with the columns that were driven since the reset, and
  what may happen.
* `Keypad.Law` — the input bits as a function of the keys and the output bits.

## Main results

* `Keypad.Tracks.step` — what every event keeps.
* `Keypad.row_law` — the law holds once every column was driven high.

## Design

The other pins of the port drive other devices. One of them, the transceiver, drives pin 9 in turn;
that is an event of its own here.
-/

namespace Uvk5.Keypad

open Gpio WordBits

/-- `UVK5KeypadState`, without the lines. -/
structure State where
  /-- The keys that are held, by column and row. -/
  pressed : Fin 5 → Fin 4 → Bool
  /-- The columns that are high. -/
  colHigh : Fin 5 → Bool
  /-- The transmit key is held. -/
  ptt : Bool

/-- Port B and the keypad. -/
structure Board where
  /-- The port. -/
  port : Port
  /-- The keypad. -/
  keypad : State

/-! ## The wiring -/

/-- `KEYPAD_COL_PIN`. -/
def colPin (c : Fin 5) : Fin 16 := 6 - (c.castLE (by decide) - 1)

/-- `KEYPAD_ROW_PIN`. -/
def rowPin (r : Fin 4) : Fin 16 := 15 - r.castLE (by decide)

/-- The pin of the transmit key. -/
def pttPin : ℕ := 10

/-- The columns that have a pin. -/
def columns : List (Fin 5) := [1, 2, 3, 4]

/-- The column that is connected to a pin. -/
def columnAt (i : Fin 16) : Option (Fin 5) := columns.find? (colPin · = i)

/-- The pins that are columns are those of the five columns. -/
lemma columnAt_eq_some (i : Fin 16) (c : Fin 5) :
    columnAt i = some c ↔ c ∈ columns ∧ colPin c = i := by
  revert i c
  decide

/-- Different rows have different pins. -/
lemma rowPin_inj {r r' : Fin 4} : (rowPin r).val = (rowPin r').val ↔ r = r' := by
  revert r r'
  decide

/-! ## The keypad -/

/-- The rule of `keypad_update_rows` for one row: it is low if a held key sits on a low column, or
the side key is held and all columns are high. -/
def State.rowLow (s : State) (r : Fin 4) : Bool :=
  (columns.any fun c => s.pressed c r && !s.colHigh c) || (columns.all s.colHigh && s.pressed 0 r)

/-- `keypad_update_rows`. -/
def Board.updateRows (b : Board) : Board :=
  { b with
    port := (List.finRange 4).foldl
      (fun p r => p.setInput (rowPin r) !b.keypad.rowLow r) b.port }

/-- `keypad_col_changed`. -/
def Board.colChanged (b : Board) (line : Fin 5) (level : Bool) : Board :=
  if line.val < 1 then b
  else
    ({ b with keypad := { b.keypad with
      colHigh := Function.update b.keypad.colHigh line level } } : Board).updateRows

/-- `keypad_key_changed`. -/
def Board.keyChanged (b : Board) (line : ℕ) (level : Bool) : Board :=
  if h : line / 4 < 5 ∧ line % 4 < 4 then
    ({ b with keypad := { b.keypad with
      pressed := Function.update b.keypad.pressed ⟨line / 4, h.1⟩
        (Function.update (b.keypad.pressed ⟨line / 4, h.1⟩) ⟨line % 4, h.2⟩ level) } } :
      Board).updateRows
  else b

/-- `keypad_reset`. -/
def Board.resetKeypad (b : Board) : Board :=
  (⟨b.port.setInput pttPin true, fun _ _ => false, fun _ => true, false⟩ : Board).updateRows

/-- `keypad_key_names`. -/
def keyNames : List (Option String) :=
  [some "SIDE1", some "SIDE2", none, none,
    some "MENU", some "1", some "4", some "7",
    some "UP", some "2", some "5", some "8",
    some "DOWN", some "3", some "6", some "9",
    some "EXIT", some "STAR", some "0", some "F"]

/-- The texts are the same up to the case of ASCII letters. -/
def SameName (a b : String) : Prop := a.toList.map Char.toLower = b.toList.map Char.toLower

instance (a b : String) : Decidable (SameName a b) := inferInstanceAs (Decidable (_ = _))

/-- `keypad_index_for_name`. -/
def indexForName (name : String) : Option ℕ :=
  keyNames.findIdx? fun key => key.any fun key => SameName key name

/-- Hold these keys and no others. -/
def Board.hold (b : Board) (pressed : Fin 5 → Fin 4 → Bool) : Board :=
  ({ b with keypad := { b.keypad with pressed := pressed } } : Board).updateRows

/-- `keypad_set_press`, with the text of the error. -/
def Board.setPress (b : Board) (value : String) : Option String × Board :=
  if value = "" then (none, b.hold fun _ _ => false)
  else match indexForName value with
    | none => (some ("unknown key '" ++ value ++ "'"), b)
    | some index => (none, b.hold fun c r => c.val = index / 4 ∧ r.val = index % 4)

/-- `keypad_set_ptt`. -/
def Board.setPtt (b : Board) (value : Bool) : Board :=
  ⟨b.port.setInput pttPin !value, { b.keypad with ptt := value }⟩

/-! ## The port -/

/-- The level of an output pin changes. -/
def Board.pinOut (b : Board) (i : Fin 16) (level : Bool) : Board :=
  match columnAt i with
  | some c => b.colChanged c level
  | none => b

/-- The body of the loop of `py32_gpio_update`. -/
def Board.notify (changed : UInt32) (b : Board) (i : Fin 16) : Board :=
  if changed &&& mask i ≠ 0 then b.pinOut i (b.port.odr &&& mask i ≠ 0) else b

/-- `py32_gpio_update`. -/
def Board.gpioUpdate (b : Board) (old : UInt32) : Board :=
  (List.finRange 16).foldl (Board.notify (old ^^^ b.port.odr)) b

/-- `py32_gpio_write`. -/
def Board.write (b : Board) (addr : ℕ) (value : UInt32) : Board :=
  match nextOdr b.port.odr addr value with
  | some odr => ({ b with port := { b.port with odr := odr } } : Board).gpioUpdate b.port.odr
  | none => { b with port := b.port.writeOther addr value }

/-- A reset of the port and the keypad, in either order. -/
def Board.reset (b : Board) (gpioFirst : Bool) : Board :=
  if gpioFirst then ({ b with port := resetB } : Board).resetKeypad
  else { b.resetKeypad with port := resetB }

/-! ## Runs -/

/-- The board, with the columns that were driven high since the last reset. -/
structure Watch where
  /-- The board. -/
  board : Board
  /-- The columns whose pin was high. -/
  driven : Fin 5 → Bool

/-- What may happen. -/
inductive Event where
  /-- The guest writes a register of port B. -/
  | write (addr : ℕ) (value : UInt32)
  /-- A key line of the keypad changes. -/
  | key (line : ℕ) (level : Bool)
  /-- The property `press` is written. -/
  | press (value : String)
  /-- The property `ptt` is written. -/
  | ptt (value : Bool)
  /-- The transceiver drives its data line. -/
  | sda (level : Bool)
  /-- The port and the keypad are reset. -/
  | reset (gpioFirst : Bool)

/-- What an event does to the board. -/
def Board.step (b : Board) : Event → Board
  | .write addr value => b.write addr value
  | .key line level => b.keyChanged line level
  | .press value => (b.setPress value).2
  | .ptt value => b.setPtt value
  | .sda level => { b with port := b.port.setInput 9 level }
  | .reset gpioFirst => b.reset gpioFirst

/-- One event. -/
def Watch.step (w : Watch) (e : Event) : Watch where
  board := w.board.step e
  driven := match e with
    | .write _ _ => fun c => w.driven c || bit (w.board.step e).port.odr (colPin c)
    | .reset _ => fun _ => false
    | _ => w.driven

/-- After a reset. -/
def Watch.start (b : Board) (gpioFirst : Bool) : Watch := ⟨b.reset gpioFirst, fun _ => false⟩

/-- The keypad knows the levels of the columns, a row is low exactly if a held key connects it to a
low column or a side key is held while no column is low, and the pin of the transmit key is low
exactly while that is held. -/
def Law (b : Board) : Prop :=
  (∀ c ∈ columns, b.keypad.colHigh c = bit b.port.odr (colPin c)) ∧
    (∀ r, bit b.port.idr (rowPin r) = false ↔
      (∃ c ∈ columns, b.keypad.pressed c r = true ∧ bit b.port.odr (colPin c) = false) ∨
        b.keypad.pressed 0 r = true ∧ ∀ c ∈ columns, bit b.port.odr (colPin c) = true) ∧
    (bit b.port.idr pttPin = false ↔ b.keypad.ptt = true)

/-! ## The rows -/

section Rows

variable (level : Fin 4 → Bool) (rows : List (Fin 4)) (p : Port)

/-- Setting the inputs of the rows leaves the output register. -/
lemma foldl_setInput_odr :
    (rows.foldl (fun p r => p.setInput (rowPin r) (level r)) p).odr = p.odr := by
  induction rows generalizing p with
  | nil => rfl
  | cons r rows ih => rw [List.foldl_cons, ih, setInput_odr]

/-- The rows that are driven have their level. -/
lemma bit_foldl_row (r : Fin 4) :
    bit (rows.foldl (fun p r => p.setInput (rowPin r) (level r)) p).idr (rowPin r) =
      if r ∈ rows then level r else bit p.idr (rowPin r) := by
  induction rows generalizing p with
  | nil => simp
  | cons s rows ih =>
    rw [List.foldl_cons, ih, bit_setInput p (rowPin s).isLt (rowPin r).isLt]
    simp only [rowPin_inj]
    by_cases hr : r ∈ rows
    · simp [hr]
    · by_cases hs : s = r
      · simp [hs]
      · simp [hr, hs, Ne.symm hs]

/-- The other pins keep theirs. -/
lemma bit_foldl_other {j : ℕ} (hj : j < 16) (hother : ∀ r, (rowPin r).val ≠ j) :
    bit (rows.foldl (fun p r => p.setInput (rowPin r) (level r)) p).idr j = bit p.idr j := by
  induction rows generalizing p with
  | nil => rfl
  | cons s rows ih =>
    rw [List.foldl_cons, ih, bit_setInput p (rowPin s).isLt hj, if_neg (hother s)]

end Rows

section UpdateRows

variable (b : Board)

/-- Bringing the rows up to date leaves the keypad itself. -/
@[simp] lemma updateRows_keypad : b.updateRows.keypad = b.keypad := rfl

/-- Bringing the rows up to date leaves the output register. -/
@[simp] lemma updateRows_odr : b.updateRows.port.odr = b.port.odr := foldl_setInput_odr ..

/-- A row that is up to date is low exactly if the keypad pulls it low. -/
lemma bit_updateRows_row (r : Fin 4) :
    bit b.updateRows.port.idr (rowPin r) = !b.keypad.rowLow r := by
  rw [Board.updateRows, bit_foldl_row, if_pos (List.mem_finRange r)]

/-- Bringing the rows up to date leaves the pin of the transmit key. -/
lemma bit_updateRows_ptt : bit b.updateRows.port.idr pttPin = bit b.port.idr pttPin :=
  bit_foldl_other _ _ _ (by decide) (by decide)

end UpdateRows

/-! ## What every event keeps -/

/-- The input bits are those of the keypad. -/
structure Wired (b : Board) : Prop where
  rows : ∀ r, bit b.port.idr (rowPin r) = !b.keypad.rowLow r
  ptt : bit b.port.idr pttPin = !b.keypad.ptt

/-- The keypad has the level of every column that was driven; the pin of another one is low, and the
keypad takes it for high. -/
structure Tracks (w : Watch) : Prop where
  wired : Wired w.board
  known : ∀ c ∈ columns, w.driven c = true →
    w.board.keypad.colHigh c = bit w.board.port.odr (colPin c)
  unknown : ∀ c ∈ columns, w.driven c = false →
    w.board.keypad.colHigh c = true ∧ bit w.board.port.odr (colPin c) = false

/-- Once the rows are up to date, the input bits are those of the keypad. -/
lemma wired_updateRows {b : Board} (h : bit b.port.idr pttPin = !b.keypad.ptt) :
    Wired b.updateRows :=
  ⟨bit_updateRows_row b, (bit_updateRows_ptt b).trans h⟩

/-- After a reset in either order the input bits are those of the keypad. -/
lemma wired_reset (b : Board) (gpioFirst : Bool) : Wired (b.reset gpioFirst) := by
  cases gpioFirst with
  | true => exact wired_updateRows (bit_setInput _ (by decide) (by decide) true)
  | false =>
    have hreset : Wired ⟨resetB, fun _ _ => false, fun _ => true, false⟩ :=
      ⟨by decide, by decide⟩
    exact hreset

/-- After a reset no column has been driven, and the keypad takes all of them for high. -/
lemma tracks_reset (b : Board) (gpioFirst : Bool) : Tracks (.start b gpioFirst) := by
  refine ⟨wired_reset b gpioFirst, fun _ _ hdriven => ?_, fun c _ _ => ?_⟩
  · cases hdriven
  · cases gpioFirst with
    | true =>
      have hodr : (b.reset true).port.odr = 0 := (updateRows_odr _).trans (setInput_odr ..)
      exact ⟨rfl, hodr ▸ bit_zero _⟩
    | false => exact ⟨rfl, bit_zero _⟩

/-! ## A register write -/

section PinOut

variable (b : Board) (i : Fin 16) (level : Bool)

/-- A column that changes is noted, and the rows are brought up to date. -/
lemma colChanged_of_mem {c : Fin 5} (hc : c ∈ columns) :
    b.colChanged c level = ({ b with keypad := { b.keypad with
      colHigh := Function.update b.keypad.colHigh c level } } : Board).updateRows := by
  refine if_neg ?_
  revert hc c
  decide

/-- A line that reaches the keypad leaves the output register. -/
lemma pinOut_odr : (b.pinOut i level).port.odr = b.port.odr := by
  rw [Board.pinOut]
  split
  · next c hc =>
    rw [colChanged_of_mem b level ((columnAt_eq_some i c).mp hc).1, updateRows_odr]
  · rfl

/-- A line that reaches the keypad leaves the input bits in step with it. -/
lemma wired_pinOut (h : Wired b) : Wired (b.pinOut i level) := by
  rw [Board.pinOut]
  split
  · next c hc =>
    rw [colChanged_of_mem b level ((columnAt_eq_some i c).mp hc).1]
    exact wired_updateRows h.ptt
  · exact h

/-- A column hears of its own pin only. -/
lemma colHigh_pinOut {c : Fin 5} (hc : c ∈ columns) :
    (b.pinOut i level).keypad.colHigh c = if colPin c = i then level else b.keypad.colHigh c := by
  rw [Board.pinOut]
  split
  · next d hd =>
    obtain ⟨hmem, hpin⟩ := (columnAt_eq_some i d).mp hd
    rw [colChanged_of_mem b level hmem, updateRows_keypad]
    dsimp only
    by_cases heq : c = d
    · subst heq
      rw [Function.update_self, if_pos hpin]
    · have hother : colPin c ≠ i := by
        intro hsame
        rw [(columnAt_eq_some i c).mpr ⟨hc, hsame⟩] at hd
        exact heq (Option.some.inj hd)
      rw [Function.update_of_ne heq, if_neg hother]
  · next hnone =>
    have hother : colPin c ≠ i := by
      intro hsame
      rw [(columnAt_eq_some i c).mpr ⟨hc, hsame⟩] at hnone
      cases hnone
    rw [if_neg hother]

end PinOut

section Update

variable (changed : UInt32)

/-- One pin of the loop. -/
lemma notify_odr (b : Board) (i : Fin 16) : (b.notify changed i).port.odr = b.port.odr := by
  rw [Board.notify]
  split
  · exact pinOut_odr ..
  · rfl

/-- A line that may have changed leaves the input bits in step with the keypad. -/
lemma wired_notify {b : Board} (h : Wired b) (i : Fin 16) : Wired (b.notify changed i) := by
  rw [Board.notify]
  split
  · exact wired_pinOut _ _ _ h
  · exact h

/-- The keypad takes over the level of a column whose line has changed, and of no other. -/
lemma colHigh_notify (b : Board) (i : Fin 16) {c : Fin 5} (hc : c ∈ columns) :
    (b.notify changed i).keypad.colHigh c =
      if colPin c = i ∧ bit changed i = true then bit b.port.odr i else b.keypad.colHigh c := by
  have hlt : i.val < 32 := Nat.lt_trans i.isLt (by decide)
  rw [Board.notify]
  by_cases hchanged : bit changed i = true
  · rw [if_pos ((and_mask_ne_zero_iff hlt).mpr hchanged), colHigh_pinOut b i _ hc]
    simp only [hchanged, and_true]
    by_cases hpin : colPin c = i
    · rw [if_pos hpin, if_pos hpin, Bool.eq_iff_iff, decide_eq_true_iff]
      exact and_mask_ne_zero_iff hlt
    · rw [if_neg hpin, if_neg hpin]
  · rw [if_neg (mt (and_mask_ne_zero_iff hlt).mp hchanged), if_neg fun h => hchanged h.2]

/-- **The loop** tells a column the level of its pin if that changed.

**Proof sketch.** Induction on the pins. A pin leaves the output bits, and every column but its
own. -/
lemma colHigh_foldl_notify (pins : List (Fin 16)) (b : Board) {c : Fin 5} (hc : c ∈ columns) :
    (pins.foldl (Board.notify changed) b).keypad.colHigh c =
      if colPin c ∈ pins ∧ bit changed (colPin c) = true then bit b.port.odr (colPin c)
      else b.keypad.colHigh c := by
  induction pins generalizing b with
  | nil => simp
  | cons i pins ih =>
    rw [List.foldl_cons, ih, notify_odr, colHigh_notify changed b i hc]
    by_cases hchanged : bit changed (colPin c) = true
    · by_cases hpin : colPin c = i
      · subst hpin
        simp [hchanged]
      · simp [hpin]
    · have hnot : ¬ (colPin c = i ∧ bit changed i = true) := by
        rintro ⟨rfl, h⟩
        exact hchanged h
      simp [hchanged, hnot]

end Update

/-- What the columns are told when the output bits change. -/
lemma colHigh_gpioUpdate (b : Board) (old : UInt32) {c : Fin 5} (hc : c ∈ columns) :
    (b.gpioUpdate old).keypad.colHigh c =
      if bit old (colPin c) = bit b.port.odr (colPin c) then b.keypad.colHigh c
      else bit b.port.odr (colPin c) := by
  rw [Board.gpioUpdate, colHigh_foldl_notify _ _ _ hc, bit_xor]
  cases bit old (colPin c) <;> cases bit b.port.odr (colPin c) <;> simp [List.mem_finRange]

/-- Telling the lines that have changed leaves the output register. -/
lemma gpioUpdate_odr (b : Board) (old : UInt32) : (b.gpioUpdate old).port.odr = b.port.odr := by
  rw [Board.gpioUpdate]
  exact Run.foldl_of_step (I := fun b' : Board => b'.port.odr = b.port.odr)
    (fun b' i h => (notify_odr _ b' i).trans h) _ rfl

/-- Telling the lines that have changed leaves the input bits in step with the keypad. -/
lemma wired_gpioUpdate {b : Board} (h : Wired b) (old : UInt32) : Wired (b.gpioUpdate old) := by
  rw [Board.gpioUpdate]
  exact Run.foldl_of_step (I := Wired) (fun _ i h => wired_notify _ h i) _ h

section Write

variable (b : Board) (addr : ℕ) (value : UInt32)

/-- A register write tells a column the level of its pin if that changed. -/
lemma colHigh_write {c : Fin 5} (hc : c ∈ columns) :
    (b.write addr value).keypad.colHigh c =
      if bit b.port.odr (colPin c) = bit (b.write addr value).port.odr (colPin c) then
        b.keypad.colHigh c
      else bit (b.write addr value).port.odr (colPin c) := by
  rw [Board.write]
  split
  · rw [colHigh_gpioUpdate _ _ hc, gpioUpdate_odr]
  · rw [writeOther_odr, if_pos rfl]

/-- A write to the port leaves the input bits in step with the keypad. -/
lemma wired_write (h : Wired b) : Wired (b.write addr value) := by
  rw [Board.write]
  split
  · next odr _ =>
    have hwired : Wired { b with port := { b.port with odr := odr } } := ⟨h.rows, h.ptt⟩
    exact wired_gpioUpdate hwired _
  · constructor
    · rw [writeOther_idr]
      exact h.rows
    · rw [writeOther_idr]
      exact h.ptt

end Write

/-- A write tells the keypad every column it changes, which is driven from then on. -/
lemma Tracks.write {w : Watch} (h : Tracks w) (addr : ℕ) (value : UInt32) :
    Tracks (w.step (.write addr value)) := by
  refine ⟨wired_write _ addr value h.wired, fun c hc hdriven => ?_, fun c hc hdriven => ?_⟩
  · change (w.board.write addr value).keypad.colHigh c =
      bit (w.board.write addr value).port.odr (colPin c)
    rw [colHigh_write _ _ _ hc]
    split
    · next hsame =>
      cases hbefore : w.driven c with
      | true => rw [h.known c hc hbefore, hsame]
      | false =>
        -- it was not driven before, so the write did it
        obtain ⟨hhigh, -⟩ := h.unknown c hc hbefore
        have hnow : bit (w.board.write addr value).port.odr (colPin c) = true := by
          have hor : (w.driven c || bit (w.board.write addr value).port.odr (colPin c)) = true :=
            hdriven
          rwa [hbefore, Bool.false_or] at hor
        rw [hhigh, hnow]
    · rfl
  · have hor : (w.driven c || bit (w.board.write addr value).port.odr (colPin c)) = false :=
      hdriven
    obtain ⟨hbefore, hlow⟩ := Bool.or_eq_false_iff.mp hor
    obtain ⟨hhigh, hlow'⟩ := h.unknown c hc hbefore
    refine ⟨?_, hlow⟩
    change (w.board.write addr value).keypad.colHigh c = true
    rw [colHigh_write _ _ _ hc, if_pos (hlow'.trans hlow.symm), hhigh]

/-! ## The other events -/

/-- An event that leaves the output bits and the levels of the columns. -/
lemma Tracks.of_same {w : Watch} (h : Tracks w) {b : Board} (hwired : Wired b)
    (hodr : b.port.odr = w.board.port.odr)
    (hcols : b.keypad.colHigh = w.board.keypad.colHigh) : Tracks ⟨b, w.driven⟩ := by
  refine ⟨hwired, fun c hc hdriven => ?_, fun c hc hdriven => ?_⟩
  · dsimp only
    rw [hodr, hcols]
    exact h.known c hc hdriven
  · dsimp only
    rw [hodr, hcols]
    exact h.unknown c hc hdriven

/-- The keys change, and the rows with them. -/
lemma Tracks.hold {w : Watch} (h : Tracks w) (pressed : Fin 5 → Fin 4 → Bool) :
    Tracks ⟨w.board.hold pressed, w.driven⟩ :=
  h.of_same (wired_updateRows h.wired.ptt) (updateRows_odr _) rfl

/-- A key that is pressed or released leaves what the keypad knows of the columns. -/
lemma Tracks.key {w : Watch} (h : Tracks w) (line : ℕ) (level : Bool) :
    Tracks ⟨w.board.keyChanged line level, w.driven⟩ := by
  rw [Board.keyChanged]
  split
  · exact h.hold _
  · exact h

/-- Pressing keys by name leaves what the keypad knows of the columns. -/
lemma Tracks.press {w : Watch} (h : Tracks w) (value : String) :
    Tracks ⟨(w.board.setPress value).2, w.driven⟩ := by
  rw [Board.setPress]
  split
  · exact h.hold _
  · split
    · exact h
    · exact h.hold _

/-- Driving another pin leaves the rows. -/
lemma Wired.rows_setInput {b : Board} (h : Wired b) {line : ℕ} (hline : line < 16)
    (hother : ∀ r, line ≠ (rowPin r).val) (level : Bool) (r : Fin 4) :
    bit (b.port.setInput line level).idr (rowPin r) = !b.keypad.rowLow r := by
  rw [bit_setInput b.port hline (rowPin r).isLt, if_neg (hother r)]
  exact h.rows r

/-- The transmit key pulls its own pin, and leaves the rows. -/
lemma wired_setPtt {b : Board} (h : Wired b) (value : Bool) : Wired (b.setPtt value) where
  rows := h.rows_setInput (by decide) (by decide) _
  ptt := (bit_setInput b.port (by decide) (by decide) (!value)).trans (if_pos rfl)

/-- The data line of the transceiver is no pin of the keypad. -/
lemma wired_setInput_nine {b : Board} (h : Wired b) (level : Bool) :
    Wired { b with port := b.port.setInput 9 level } where
  rows := h.rows_setInput (by decide) (by decide) _
  ptt := by
    rw [bit_setInput b.port (by decide) (by decide), if_neg (by decide)]
    exact h.ptt

/-- **One event** leaves the input bits with the keypad, and the keypad with the output bits. -/
lemma Tracks.step {w : Watch} (h : Tracks w) (e : Event) : Tracks (w.step e) := by
  cases e with
  | write addr value => exact h.write addr value
  | key line level => exact h.key line level
  | press value => exact h.press value
  | ptt value => exact h.of_same (wired_setPtt h.wired value) (setInput_odr ..) rfl
  | sda level => exact h.of_same (wired_setInput_nine h.wired level) (setInput_odr ..) rfl
  | reset gpioFirst => exact tracks_reset w.board gpioFirst

/-! ## The law -/

/-- The law holds for a board whose columns were all driven. -/
lemma Tracks.law {w : Watch} (h : Tracks w) (hdriven : ∀ c ∈ columns, w.driven c = true) :
    Law w.board := by
  have hcols : ∀ c ∈ columns, w.board.keypad.colHigh c = bit w.board.port.odr (colPin c) :=
    fun c hc => h.known c hc (hdriven c hc)
  refine ⟨hcols, fun r => ?_, ?_⟩
  · rw [h.wired.rows, Bool.not_eq_false', State.rowLow, Bool.or_eq_true, Bool.and_eq_true,
      List.any_eq_true, List.all_eq_true, and_comm (b := w.board.keypad.pressed 0 r = true)]
    refine or_congr (exists_congr fun c => and_congr_right fun hc => ?_)
      (and_congr_right fun _ => forall₂_congr fun c hc => ?_)
    · rw [Bool.and_eq_true, Bool.not_eq_true', hcols c hc]
    · rw [hcols c hc]
  · rw [h.wired.ptt, Bool.not_eq_false']

/-- No key has this name. -/
def Unknown (name : String) : Prop := name ≠ "" ∧ ∀ key, some key ∈ keyNames → ¬ SameName key name

/-- A name that no key has is answered with an error and nothing else. -/
lemma setPress_unknown (b : Board) {name : String} (h : Unknown name) :
    b.setPress name = (some ("unknown key '" ++ name ++ "'"), b) := by
  have hnone : indexForName name = none := by
    rw [indexForName, List.findIdx?_eq_none_iff]
    intro key hkey
    cases key with
    | none => rfl
    | some key => exact decide_eq_false (h.2 key hkey)
  rw [Board.setPress, if_neg h.1, hnone]

/-- **The law of the rows.** After a reset of the port and the keypad the guest writes the registers
of the port, key lines change, the properties are written, the transceiver drives its pin and both
are reset again, in any order. Whenever every column pin was driven high since the last reset, the
keypad knows the levels of the columns and the input bits are those of the matrix. A write of an
unknown key name changes nothing.

**Proof sketch.** Every change of the keypad drives all rows anew, so these are always right for the
levels the keypad knows. It is told a level when the output bit changes; after a reset it takes the
columns for high while the bits are low, until the first time they are high. -/
theorem row_law (b : Board) (gpioFirst : Bool) (es : List Event) :
    ((∀ c ∈ columns, (es.foldl Watch.step (.start b gpioFirst)).driven c = true) →
        Law (es.foldl Watch.step (.start b gpioFirst)).board) ∧
      ∀ name, Unknown name →
        (es.foldl Watch.step (.start b gpioFirst)).board.setPress name =
          (some ("unknown key '" ++ name ++ "'"),
            (es.foldl Watch.step (.start b gpioFirst)).board) := by
  have htracks : Tracks (es.foldl Watch.step (.start b gpioFirst)) :=
    Run.foldl_of_step (fun _ e h => h.step e) es (tracks_reset b gpioFirst)
  exact ⟨htracks.law, fun name hname => setPress_unknown _ hname⟩

/-- A board before the first reset. -/
def unpowered : Board := ⟨resetB, fun _ _ => false, fun _ => false, false⟩

/-- All columns are driven high, the key 5 is held, and its column is selected. -/
def scan : List Event := [.write 0x18 0x78, .press "5", .write 0x28 0x20]

/-- With the key 5 held and its column alone driven low, its row reads low. -/
theorem row_law_scan :
    Law (scan.foldl Watch.step (.start unpowered true)).board ∧
      bit (scan.foldl Watch.step (.start unpowered true)).board.port.idr (rowPin 2) = false :=
  ⟨(row_law unpowered true scan).1 (by decide +kernel), by decide +kernel⟩

end Uvk5.Keypad
