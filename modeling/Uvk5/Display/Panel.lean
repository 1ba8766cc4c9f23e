import Mathlib.Data.Nat.Basic
import Uvk5.Lib.Hex
import Uvk5.Lib.Run

set_option relaxedAutoImplicit false
set_option autoImplicit false

/-!
# The ST7565 display controller (`qemu/py32f071.c`)

The driver selects the panel, chooses with the A0 line between commands and pixel data, and sends
bytes over SPI1. The controller has 132 columns, of which the glass shows 128 from column 4 on.

## Main definitions

* `Panel.State`, `Panel.reset` — the controller.
* `Panel.Event`, `Panel.step` — what happens on its lines.
* `Panel.getGram` — the display RAM as the host reads it.
* `Panel.sendPage`, `Panel.sendContrast` — what a driver sends.

## Main results

* `Panel.xfer_contrast` — the operand of a contrast command changes the contrast alone.
* `Panel.run_sendPage` — a page that is sent is stored whole, and nothing else is.
-/

namespace Uvk5.Panel

/-- `ST7565State`. -/
structure State where
  /-- The A0 line: data when high. -/
  a0 : Bool
  /-- Whether the panel is selected. -/
  selected : Bool
  /-- 0xA7. -/
  invert : Bool
  /-- 0xAF. -/
  displayOn : Bool
  /-- The electronic volume. -/
  contrast : UInt8
  /-- The next command byte is the operand of 0x81. -/
  expectContrast : Bool
  /-- The display RAM, one byte a column of a page. -/
  gram : Fin 8 → Fin 128 → UInt8
  /-- The page. -/
  page : UInt8
  /-- The column counter. -/
  col : UInt8
  /-- 0xA1. -/
  segReverse : Bool
  /-- 0xC8. -/
  comReverse : Bool

/-- `st7565_reset`. -/
def reset : State where
  a0 := false
  selected := false
  invert := false
  displayOn := false
  contrast := 0
  expectContrast := false
  gram := fun _ _ => 0
  page := 0
  col := 0
  segReverse := false
  comReverse := false

/-- `st7565_set_a0`. -/
def setA0 (s : State) (level : Bool) : State := { s with a0 := level }

/-- `st7565_set_cs`: the line is active low. -/
def setCs (s : State) (level : Bool) : State := { s with selected := !level }

/-- A page is less than 8. -/
lemma page_lt (s : State) : (s.page &&& 7).toNat < 8 := by
  rw [UInt8.toNat_and]
  exact Nat.lt_succ_of_le Nat.and_le_right

/-- `s->gram[s->page & 7][i] = out`. -/
def setGram (s : State) (i : Fin 128) (out : UInt8) : State :=
  let page : Fin 8 := ⟨(s.page &&& 7).toNat, page_lt s⟩
  { s with gram := Function.update s.gram page (Function.update (s.gram page) i out) }

/-- A byte of pixel data: latch it, then advance the counter, which runs to 131. -/
def data (s : State) (out : UInt8) : State :=
  let s' := if h : 4 ≤ s.col.toNat ∧ s.col.toNat < 132 then
      setGram s ⟨s.col.toNat - 4, by omega⟩ out
    else s
  { s' with col := UInt8.ofNat ((s.col.toNat + 1) % 132) }

/-- The `switch` over the settings. -/
def setting (s : State) (out : UInt8) : State :=
  if out = 0xa6 then { s with invert := false }
  else if out = 0xa7 then { s with invert := true }
  else if out = 0xa0 then { s with segReverse := false }
  else if out = 0xa1 then { s with segReverse := true }
  else if out = 0xc0 then { s with comReverse := false }
  else if out = 0xc8 then { s with comReverse := true }
  else if out = 0xae then { s with displayOn := false }
  else if out = 0xaf then { s with displayOn := true }
  else if out = 0x81 then { s with expectContrast := true }
  else if out = 0xe2 then
    { s with invert := false, displayOn := false, contrast := 0, expectContrast := false }
  else s

/-- A byte of a command: the operand of 0x81, an address, or a setting. -/
def command (s : State) (out : UInt8) : State :=
  if s.expectContrast then { s with contrast := out, expectContrast := false }
  else if 0xb0 ≤ out ∧ out ≤ 0xb7 then { s with page := out &&& 7 }
  else if out ≤ 0x0f then { s with col := (s.col &&& 0xf0) ||| out }
  else if 0x10 ≤ out ∧ out ≤ 0x1f then
    { s with col := (s.col &&& 0x0f) ||| ((out &&& 0x0f) <<< (4 : UInt8)) }
  else setting s out

/-- `st7565_xfer`: what the panel answers, and its state. -/
def xfer (s : State) (out : UInt8) : UInt8 × State :=
  if !s.selected then (0xff, s)
  else if s.a0 then (0xff, data s out)
  else (0xff, command s out)

/-- `st7565_get_gram`: the display RAM in hex. -/
def getGram (s : State) : List Char :=
  Hex.encode ((List.finRange 8).flatMap fun page => (List.finRange 128).map fun col =>
    s.gram page col)

/-- What happens on the lines of the panel. -/
inductive Event where
  /-- A0 changes. -/
  | a0 (level : Bool)
  /-- The chip select line changes. -/
  | cs (level : Bool)
  /-- A byte over SPI. -/
  | spi (out : UInt8)
  deriving DecidableEq

/-- One event. -/
def step (s : State) : Event → State
  | .a0 level => setA0 s level
  | .cs level => setCs s level
  | .spi out => (xfer s out).2

/-- Some events in turn. -/
def run (s : State) (events : List Event) : State := events.foldl step s

/-- Nothing happens. -/
@[simp] lemma run_nil (s : State) : run s [] = s := rfl

/-- The first event happens before the others. -/
@[simp] lemma run_cons (s : State) (e : Event) (events : List Event) :
    run s (e :: events) = run (step s e) events := rfl

/-- Some events happen before others. -/
@[simp] lemma run_append (s : State) (events later : List Event) :
    run s (events ++ later) = run (run s events) later := List.foldl_append ..

/-! ## What a driver sends -/

/-- A whole page: its number, column 4 with the halves in either order, then its bytes. -/
def sendPage (page : Fin 8) (highFirst : Bool) (bytes : Fin 128 → UInt8) : List Event :=
  [.a0 false, .spi (0xb0 + UInt8.ofNat page)] ++
    (if highFirst then [.spi 0x10, .spi 0x04] else [.spi 0x04, .spi 0x10]) ++
    [.a0 true] ++ (List.finRange 128).map fun col => .spi (bytes col)

/-- A contrast command and its operand. -/
def sendContrast (operand : UInt8) : List Event := [.a0 false, .spi 0x81, .spi operand]

/-! ## Commands -/

/-- **A contrast operand changes the contrast alone**, whatever its value. -/
theorem xfer_contrast (s : State) (operand : UInt8) (ha0 : s.a0 = false)
    (hexpect : s.expectContrast = true) :
    (xfer s operand).2.page = s.page ∧ (xfer s operand).2.col = s.col ∧
      (xfer s operand).2.invert = s.invert ∧ (xfer s operand).2.gram = s.gram := by
  rw [xfer]
  split
  · exact ⟨rfl, rfl, rfl, rfl⟩
  · rw [if_neg (by rw [ha0]; exact Bool.false_ne_true), command, if_pos hexpect]
    exact ⟨rfl, rfl, rfl, rfl⟩

/-- A byte of pixel data reaches the display RAM. -/
lemma xfer_data {s : State} (out : UInt8) (hsel : s.selected = true) (ha0 : s.a0 = true) :
    (xfer s out).2 = data s out := by
  rw [xfer, if_neg (by rw [hsel]; exact Bool.false_ne_true), if_pos ha0]

/-- A command byte reaches the decoder. -/
lemma xfer_command {s : State} (out : UInt8) (hsel : s.selected = true) (ha0 : s.a0 = false) :
    (xfer s out).2 = command s out := by
  rw [xfer, if_neg (by rw [hsel]; exact Bool.false_ne_true),
    if_neg (by rw [ha0]; exact Bool.false_ne_true)]

/-- A command leaves the lines alone. -/
lemma command_lines (s : State) (out : UInt8) :
    (command s out).selected = s.selected ∧ (command s out).a0 = s.a0 := by
  let SameLines : State → Prop := fun t => t.selected = s.selected ∧ t.a0 = s.a0
  change SameLines (command s out)
  unfold command setting
  repeat' refine iteInduction (fun _ => ?_) fun _ => ?_
  all_goals exact ⟨rfl, rfl⟩

/-- Two command bytes. -/
lemma run_commands {s : State} (first out : UInt8) (hsel : s.selected = true)
    (ha0 : s.a0 = false) : run s [.spi first, .spi out] = command (command s first) out := by
  obtain ⟨hsel', ha0'⟩ := command_lines s first
  rw [run_cons, run_cons, run_nil, step, step, xfer_command first hsel ha0,
    xfer_command out (hsel'.trans hsel) (ha0'.trans ha0)]

/-- The page command. -/
lemma command_page {s : State} (page : Fin 8) (hexpect : s.expectContrast = false) :
    command s (0xb0 + UInt8.ofNat page) = { s with page := UInt8.ofNat page } := by
  have hrange : ∀ p : Fin 8, (0xb0 ≤ 0xb0 + UInt8.ofNat p ∧ 0xb0 + UInt8.ofNat p ≤ 0xb7) ∧
      (0xb0 + UInt8.ofNat p) &&& 7 = UInt8.ofNat p := by decide
  obtain ⟨hin, hmask⟩ := hrange page
  rw [command, if_neg (by rw [hexpect]; exact Bool.false_ne_true), if_pos hin, hmask]

/-- The command for the low half of the column. -/
lemma command_low {s : State} {out : UInt8} (hexpect : s.expectContrast = false)
    (hout : out ≤ 0x0f) : command s out = { s with col := (s.col &&& 0xf0) ||| out } := by
  have hnot : ¬ (0xb0 ≤ out ∧ out ≤ 0xb7) := by
    intro h
    exact absurd (UInt8.le_trans h.1 hout) (by decide)
  rw [command, if_neg (by rw [hexpect]; exact Bool.false_ne_true), if_neg hnot, if_pos hout]

/-- The command for the high half of the column. -/
lemma command_high {s : State} {out : UInt8} (hexpect : s.expectContrast = false)
    (hout : 0x10 ≤ out ∧ out ≤ 0x1f) : command s out =
      { s with col := (s.col &&& 0x0f) ||| ((out &&& 0x0f) <<< (4 : UInt8)) } := by
  have hnot : ¬ (0xb0 ≤ out ∧ out ≤ 0xb7) := by
    intro h
    exact absurd (UInt8.le_trans h.1 hout.2) (by decide)
  have hnot' : ¬ out ≤ 0x0f := by
    intro h
    exact absurd (UInt8.le_trans hout.1 h) (by decide)
  rw [command, if_neg (by rw [hexpect]; exact Bool.false_ne_true), if_neg hnot, if_neg hnot',
    if_pos hout]

/-- The two column commands set the counter to 4, in either order. -/
lemma command_column {s : State} (hexpect : s.expectContrast = false) :
    command (command s 0x10) 0x04 = { s with col := 4 } ∧
      command (command s 0x04) 0x10 = { s with col := 4 } := by
  have hbits : ∀ n < 256,
      (((UInt8.ofNat n &&& 0x0f) ||| (((0x10 : UInt8) &&& 0x0f) <<< (4 : UInt8))) &&& 0xf0) |||
          0x04 = 4 ∧
        (((UInt8.ofNat n &&& 0xf0) ||| 0x04) &&& 0x0f) |||
          (((0x10 : UInt8) &&& 0x0f) <<< (4 : UInt8)) = 4 := by
    decide +kernel
  have hcol := hbits s.col.toNat s.col.toNat_lt
  rw [UInt8.ofNat_toNat] at hcol
  rw [command_high hexpect (by decide), command_low hexpect (by decide),
    command_low (by exact hexpect) (by decide), command_high (by exact hexpect) (by decide)]
  exact ⟨congrArg (fun c => { s with col := c }) hcol.1,
    congrArg (fun c => { s with col := c }) hcol.2⟩

/-! ## A page -/

/-- A byte of pixel data in a column of the glass. -/
lemma data_eq {s : State} {page : Fin 8} {n : ℕ} (hn : n < 128) (hpage : s.page = UInt8.ofNat page)
    (hcol : s.col = UInt8.ofNat (4 + n)) (out : UInt8) :
    data s out = { s with
      gram := Function.update s.gram page (Function.update (s.gram page) ⟨n, hn⟩ out)
      col := UInt8.ofNat ((4 + (n + 1)) % 132) } := by
  have hnat : s.col.toNat = 4 + n := by
    rw [hcol, UInt8.toNat_ofNat']
    omega
  have hmask : ∀ p : Fin 8, (UInt8.ofNat p &&& 7).toNat = p := by decide
  rw [data, dif_pos (by omega)]
  simp only [setGram, hpage, hmask, hnat, Nat.add_assoc, Nat.add_sub_cancel_left]

/-- The first `n` bytes of a page. -/
lemma run_data {s : State} {page : Fin 8} (bytes : Fin 128 → UInt8) (hsel : s.selected = true)
    (ha0 : s.a0 = true) (hpage : s.page = UInt8.ofNat page) (hcol : s.col = 4) (n : ℕ)
    (hn : n ≤ 128) :
    run s (((List.finRange 128).take n).map fun col => .spi (bytes col)) = { s with
      gram := Function.update s.gram page fun i => if i.val < n then bytes i else s.gram page i
      col := UInt8.ofNat ((4 + n) % 132) } := by
  induction n with
  | zero =>
    rw [List.take_zero, List.map_nil, run_nil]
    simp only [Nat.not_lt_zero, if_false, Function.update_eq_self]
    exact congrArg (fun c => { s with col := c }) hcol
  | succ n ih =>
    have hlast : (List.finRange 128)[n]? = some ⟨n, hn⟩ := by
      rw [List.getElem?_eq_getElem (by rw [List.length_finRange]; exact hn), List.getElem_finRange]
      rfl
    rw [List.take_add_one, hlast, Option.toList_some, List.map_append, List.map_singleton,
      run_append, ih (by omega), run_cons, run_nil, step, xfer_data _ (by exact hsel) (by exact ha0),
      data_eq hn (by exact hpage) (by rw [Nat.mod_eq_of_lt (by omega)])]
    have hgram : (fun i : Fin 128 => if i.val < n + 1 then bytes i else s.gram page i) =
        Function.update (fun i : Fin 128 => if i.val < n then bytes i else s.gram page i)
          ⟨n, hn⟩ (bytes ⟨n, hn⟩) := by
      funext i
      rcases eq_or_ne i ⟨n, hn⟩ with rfl | hi
      · rw [Function.update_self, if_pos (Nat.lt_succ_self n)]
      · have hne : i.val ≠ n := fun h => hi (Fin.ext h)
        rw [Function.update_of_ne hi]
        exact if_congr (by omega) rfl rfl
    rw [hgram]
    simp only [Function.update_self, Function.update_idem]

/-- **A page that is sent is stored whole**, and nothing else is: whatever the counter was, the
column commands put it at the first column of the glass, and 128 bytes later it has wrapped.

**Proof sketch.** The commands set the page and the column; the bytes are `run_data` at 128. -/
theorem run_sendPage {s : State} (page : Fin 8) (highFirst : Bool) (bytes : Fin 128 → UInt8)
    (hsel : s.selected = true) (hexpect : s.expectContrast = false) :
    run s (sendPage page highFirst bytes) = { s with
      a0 := true
      page := UInt8.ofNat page
      col := 0
      gram := Function.update s.gram page bytes } := by
  let t : State := { s with a0 := false, page := UInt8.ofNat page }
  have hpage : run s [.a0 false, .spi (0xb0 + UInt8.ofNat page)] = t := by
    rw [run_cons, run_cons, run_nil]
    exact (xfer_command (s := setA0 s false) _ hsel rfl).trans (command_page page hexpect)
  obtain ⟨hhigh, hlow⟩ := command_column (s := t) hexpect
  have hcolumn : run t (if highFirst then [.spi 0x10, .spi 0x04] else [.spi 0x04, .spi 0x10]) =
      { t with col := 4 } := by
    cases highFirst with
    | true => exact (run_commands (s := t) 0x10 0x04 hsel rfl).trans hhigh
    | false => exact (run_commands (s := t) 0x04 0x10 hsel rfl).trans hlow
  have hbytes := run_data (s := { s with a0 := true, page := UInt8.ofNat page, col := 4 })
    bytes hsel rfl rfl rfl 128 le_rfl
  rw [List.take_of_length_le (by rw [List.length_finRange])] at hbytes
  rw [sendPage, run_append, run_append, run_append, hpage, hcolumn, run_cons, run_nil]
  refine hbytes.trans ?_
  simp only [Fin.is_lt, if_true]
  rfl

/-- A contrast command and its operand. -/
lemma run_sendContrast {s : State} (operand : UInt8) (hsel : s.selected = true)
    (hexpect : s.expectContrast = false) :
    run s (sendContrast operand) = { s with a0 := false, contrast := operand } := by
  have hexpected : command (setA0 s false) 0x81 =
      { setA0 s false with expectContrast := true } := by
    rw [command, if_neg (by rw [setA0, hexpect]; exact Bool.false_ne_true)]
    rfl
  rw [sendContrast, run_cons]
  refine (run_commands (s := setA0 s false) _ _ hsel rfl).trans ?_
  rw [hexpected, command, if_pos rfl, ← hexpect]
  rfl

end Uvk5.Panel
