import Mathlib.Tactic.FinCases
import Mathlib.Tactic.IntervalCases
import Uvk5.Minesweeper.Play

set_option relaxedAutoImplicit false
set_option autoImplicit false

/-!
# What the game draws

Between two keys the app draws the field: a header with the mines that are left, the open cells with
the number of mines around them, the flags, and the mines once the game is over. Texts are printed
by a function of the radio, which does not clip; single dots go through `put`, which does.

## Main definitions

* `Minesweeper.Frame`, `Minesweeper.put`, `Minesweeper.invert` — the frame buffer, and one dot.
* `Minesweeper.Cmd`, `Minesweeper.draw` — what `draw` does, in order.
* `Minesweeper.Hidden` — mines that the player cannot tell from those of the game.

## Main results

* `Minesweeper.draw_fits` — no text leaves the screen.
* `Minesweeper.draw_hides` — the mines under the closed cells do not show.
* `Minesweeper.counter_shows` — the counter shows the mines without a flag.
* `Minesweeper.screen_always` — all of this, between any two keys of any game.
-/

namespace Uvk5.Minesweeper

/-! ## The frame buffer -/

/-- The frame buffer `fb` of the app: 64 rows, of each of which the app uses the first 16 bytes, for
128 dots. (`host_test.c` hands it `uint8_t fb[64][128]`.) -/
abbrev Frame := Fin 64 → Fin 16 → UInt8

/-- A dot is on the screen. -/
def OnScreen (x y : ℤ) : Prop := 0 ≤ x ∧ x < 128 ∧ 0 ≤ y ∧ y < 64

instance (x y : ℤ) : Decidable (OnScreen x y) := inferInstanceAs (Decidable (_ ∧ _))

/-- A dot on the screen has a row of the frame buffer. -/
lemma OnScreen.row_lt {x y : ℤ} (h : OnScreen x y) : y.toNat < 64 := by
  obtain ⟨-, -, hlow, hhigh⟩ := h
  omega

/-- A dot on the screen has a byte in its row. -/
lemma OnScreen.byte_lt {x y : ℤ} (h : OnScreen x y) : x.toNat / 8 < 16 := by
  obtain ⟨hlow, hhigh, -⟩ := h
  omega

/-- The byte of a dot is changed. -/
def setByte (fb : Frame) {x y : ℤ} (h : OnScreen x y) (f : UInt8 → UInt8) : Frame :=
  let row : Fin 64 := ⟨y.toNat, h.row_lt⟩
  let byte : Fin 16 := ⟨x.toNat / 8, h.byte_lt⟩
  Function.update fb row (Function.update (fb row) byte (f (fb row byte)))

/-- `1u << (7u - (x & 7))`. -/
def dotMask (x : ℤ) : UInt8 := 1 <<< UInt8.ofNat (7 - x.toNat % 8)

/-- `put`. -/
def put (fb : Frame) (x y : ℤ) (ink : Bool) : Frame :=
  if h : OnScreen x y then
    setByte fb h fun byte => if ink then byte ||| dotMask x else byte &&& ~~~dotMask x
  else fb

/-- `invert`. -/
def invert (fb : Frame) (x y : ℤ) : Frame :=
  if h : OnScreen x y then setByte fb h fun byte => byte ^^^ dotMask x else fb

/-! ## Drawing -/

/-- What `draw` does. -/
inductive Cmd where
  /-- `display_clear`. -/
  | clear
  /-- `print_tiny`, with neither the status bar nor a fill. -/
  | print (text : List Char) (x y : ℕ)
  /-- `put`. -/
  | put (x y : ℤ) (ink : Bool)
  /-- `invert`. -/
  | invert (x y : ℤ)
  /-- `blit_full`. -/
  | blit
  deriving DecidableEq

/-- The numbers of a loop from one to another, which is included. -/
def span (first last : ℤ) : List ℤ :=
  (List.range (last + 1 - first).toNat).map fun i => first + i

/-- `box`. -/
def box (x₀ y₀ x₁ y₁ : ℤ) (ink : Bool) : List Cmd :=
  ((span x₀ x₁).flatMap fun x => [.put x y₀ ink, .put x y₁ ink]) ++
    (span y₀ y₁).flatMap fun y => [.put x₀ y ink, .put x₁ y ink]

/-- A character some places after another. -/
def charAt (base : Char) (n : ℕ) : Char := Char.ofNat (base.toNat + n)

/-- `two_digits`. -/
def twoDigits (value : Int8) : List Char :=
  let value := if value < 0 then 0 else value
  let value := if value > 99 then 99 else value
  [charAt '0' (value.toInt.toNat / 10 % 10), charAt '0' (value.toInt.toNat % 10)]

/-- The left edge of a cell. -/
def cellX (cell : UInt8) : ℕ := 4 + cell.toNat % 9 * 6

/-- The upper edge of a cell. -/
def cellY (cell : UInt8) : ℕ := 10 + cell.toNat / 9 * 6

/-- The body of the loop over the cells. -/
def drawCell (g : Game) (cell : UInt8) : List Cmd :=
  let x : ℤ := cellX cell
  let y : ℤ := cellY cell
  let opened := bit g.opened cell
  if bit g.mine cell && (decide (g.state ≠ 0) || opened) then
    box x y (x + 4) (y + 4) true ++ [.put (x + 2) (y + 2) false]
  else if opened then
    let n := neighbours g.mine cell
    if n > 0 then [.print [charAt '0' n] (cellX cell) (cellY cell)] else []
  else if bit g.flag cell then
    box (x + 1) (y + 1) (x + 3) (y + 3) true ++ [.put (x + 2) (y + 4) true]
  else []

/-- The frame around the cursor. -/
def drawCursor (cursor : UInt8) : List Cmd :=
  let cx : ℤ := (cellX cursor : ℤ) - 1
  let cy : ℤ := (cellY cursor : ℤ) - 1
  (span 0 7).flatMap fun i =>
    [.invert (cx + i) cy, .invert (cx + i) (cy + 7), .invert cx (cy + i), .invert (cx + 7) (cy + i)]

/-- The headline. -/
def headline (state : UInt8) : Cmd :=
  if state = 1 then .print "BOOM".toList 46 1
  else if state = 2 then .print "CLEAR".toList 42 1
  else .print "F4HWN MINES".toList 34 1

/-- `draw`. -/
def draw (g : Game) : List Cmd :=
  [.clear, .print "M".toList 0 1, .print (twoDigits g.mineLeft) 8 1, headline g.state,
      .print [charAt 'A' (g.cursor.toNat / 9), charAt '1' (g.cursor.toNat % 9)] 110 1] ++
    (if g.pending ≠ 0 then [.print "-".toList 122 1] else []) ++
    ((List.range 81).flatMap fun cell => drawCell g (UInt8.ofNat cell)) ++
    drawCursor g.cursor ++ [.blit]

/-- What a command does to the frame buffer, with the functions of the radio. -/
def Cmd.run (clear : Frame → Frame) (printTiny : List Char → ℕ → ℕ → Frame → Frame) (fb : Frame) :
    Cmd → Frame
  | .clear => clear fb
  | .print text x y => printTiny text x y fb
  | .put x y ink => Minesweeper.put fb x y ink
  | .invert x y => Minesweeper.invert fb x y
  | .blit => fb

/-- What is on the screen after `draw`. -/
def shown (clear : Frame → Frame) (printTiny : List Char → ℕ → ℕ → Frame → Frame) (fb : Frame)
    (g : Game) : Frame := (draw g).foldl (Cmd.run clear printTiny) fb

/-! ## Texts -/

/-- The text stays on the screen, with at most four dots in a row and six lines for a character, and
its characters can be printed. -/
def Cmd.Fits : Cmd → Prop
  | .print text x y =>
    x + 4 * text.length ≤ 128 ∧ y + 6 ≤ 64 ∧ ∀ c ∈ text, 32 ≤ c.toNat ∧ c.toNat < 127
  | _ => True

/-- At most eight mines are around a cell. -/
lemma neighbours_le (mine : Bits) (cell : UInt8) : neighbours mine cell ≤ 8 := by
  rw [neighbours]
  refine Nat.le_trans List.countP_le_length ?_
  decide

/-- A box prints no text. -/
lemma fits_box (x₀ y₀ x₁ y₁ : ℤ) (ink : Bool) : ∀ c ∈ box x₀ y₀ x₁ y₁ ink, c.Fits := by
  intro c hc
  rw [box, List.mem_append, List.mem_flatMap, List.mem_flatMap] at hc
  obtain ⟨z, -, hc⟩ | ⟨z, -, hc⟩ := hc
  · fin_cases hc <;> trivial
  · fin_cases hc <;> trivial

/-- What is drawn for a cell stays on the screen. -/
lemma fits_drawCell (g : Game) {cell : UInt8} (hcell : cell.toNat < 81) :
    ∀ c ∈ drawCell g cell, c.Fits := by
  intro c hc
  simp only [drawCell] at hc
  split at hc
  · rcases List.mem_append.mp hc with hbox | hdot
    · exact fits_box _ _ _ _ _ c hbox
    · rw [List.mem_singleton.mp hdot]
      trivial
  split at hc
  · split at hc
    · rw [List.mem_singleton.mp hc]
      have hn := neighbours_le g.mine cell
      have hdigit : ∀ n ≤ 8, 32 ≤ (charAt '0' n).toNat ∧ (charAt '0' n).toNat < 127 := by decide
      refine ⟨?_, ?_, fun d hd => ?_⟩
      · simp only [cellX, List.length_singleton]
        omega
      · simp only [cellY]
        omega
      · rw [List.mem_singleton.mp hd]
        exact hdigit _ hn
    · cases hc
  split at hc
  · rcases List.mem_append.mp hc with hbox | hdot
    · exact fits_box _ _ _ _ _ c hbox
    · rw [List.mem_singleton.mp hdot]
      trivial
  · cases hc

/-- The headline stays on the screen. -/
lemma fits_headline (state : UInt8) : (headline state).Fits := by
  rw [headline]
  split
  · exact ⟨by decide, by decide, by simp⟩
  split
  · exact ⟨by decide, by decide, by simp⟩
  · exact ⟨by decide, by decide, by simp⟩

/-- The two digits of a number of mines. -/
lemma twoDigits_eq {value : Int8} (h : 0 ≤ value.toInt ∧ value.toInt ≤ 10) :
    twoDigits value =
      [charAt '0' (value.toInt.toNat / 10), charAt '0' (value.toInt.toNat % 10)] := by
  obtain ⟨hlow, hhigh⟩ := h
  have hvalue : Int8.ofInt value.toInt = value := Int8.ofInt_toInt value
  generalize value.toInt = n at hvalue hlow hhigh
  subst hvalue
  interval_cases n <;> decide

section Sound

variable {first : Option UInt8} {g : Game}

/-- **No text leaves the screen.**

**Proof sketch.** By the parts of the picture: the header, the digit that waits for a second one,
the cells, the cursor. Each text begins at a place and has a length that the state bounds, and the
counter has two digits. -/
theorem draw_fits (h : Sound first g) : ∀ c ∈ draw g, c.Fits := by
  have hdigit : ∀ n ≤ 10, 32 ≤ (charAt '0' n).toNat ∧ (charAt '0' n).toNat < 127 := by decide
  have hletter : ∀ n ≤ 8, 32 ≤ (charAt 'A' n).toNat ∧ (charAt 'A' n).toNat < 127 := by decide
  have hcolumn : ∀ n ≤ 8, 32 ≤ (charAt '1' n).toNat ∧ (charAt '1' n).toNat < 127 := by decide
  have hleft := twoDigits_eq h.left
  have hrange := h.left
  have hcursor : g.cursor.toNat < 81 := UInt8.lt_iff_toNat_lt.mp h.cursor
  intro c hc
  rw [draw, List.mem_append, List.mem_append, List.mem_append, List.mem_append] at hc
  obtain (((hhead | hpending) | hcells) | hcursor') | hblit := hc
  · rw [hleft] at hhead
    simp only [List.mem_cons, List.not_mem_nil, or_false] at hhead
    obtain rfl | rfl | rfl | rfl | rfl := hhead
    · trivial
    · exact ⟨by decide, by decide, by simp⟩
    · refine ⟨show 8 + 4 * 2 ≤ 128 by decide, by decide, ?_⟩
      rw [List.forall_mem_cons, List.forall_mem_singleton]
      exact ⟨hdigit _ (by omega), hdigit _ (by omega)⟩
    · exact fits_headline g.state
    · refine ⟨show 110 + 4 * 2 ≤ 128 by decide, by decide, ?_⟩
      rw [List.forall_mem_cons, List.forall_mem_singleton]
      exact ⟨hletter _ (by omega), hcolumn _ (by omega)⟩
  · split at hpending
    · rw [List.mem_singleton.mp hpending]
      exact ⟨by decide, by decide, by simp⟩
    · cases hpending
  · obtain ⟨cell, hcell, hc⟩ := List.mem_flatMap.mp hcells
    refine fits_drawCell g ?_ c hc
    have hcell := List.mem_range.mp hcell
    rw [UInt8.toNat_ofNat']
    omega
  · rw [drawCursor, List.mem_flatMap] at hcursor'
    obtain ⟨i, -, hc⟩ := hcursor'
    fin_cases hc <;> trivial
  · rw [List.mem_singleton.mp hblit]
    trivial

/-- Mines that the player cannot tell from those of the game: there are none under open cells, and
the open cells have as many around them. -/
def Hidden (g : Game) (mine : Bits) : Prop :=
  ∀ cell : UInt8, cell.toNat < 81 → bit g.opened cell = true →
    bit mine cell = false ∧ neighbours mine cell = neighbours g.mine cell

/-- **The mines under the closed cells do not show** while the game goes on. -/
theorem draw_hides (h : Sound first g) (hstate : g.state = 0) {mine : Bits}
    (hmine : Hidden g mine) : draw { g with mine := mine } = draw g := by
  have hcell : ∀ cell ∈ List.range 81,
      drawCell { g with mine := mine } (UInt8.ofNat cell) = drawCell g (UInt8.ofNat cell) := by
    intro n hn
    generalize hcell : UInt8.ofNat n = cell
    have hlt : cell.toNat < 81 := by
      have hn := List.mem_range.mp hn
      rw [← hcell, UInt8.toNat_ofNat']
      omega
    have hplay : decide (g.state ≠ 0) = false := by simp [hstate]
    simp only [drawCell]
    cases hopen : bit g.opened cell with
    | false => simp only [hplay, Bool.or_false, Bool.and_false, Bool.false_eq_true, if_false]
    | true =>
      obtain ⟨hnone, hsame⟩ := hmine cell hlt hopen
      obtain ⟨c, rfl⟩ := exists_code hlt
      have hclear : bit g.mine c.code = false := by
        rw [Bool.eq_false_iff]
        exact fun hbit => Finset.disjoint_left.mp (h.playing hstate) (mem_marked.mpr hopen)
          (mem_marked.mpr hbit)
      rw [hnone, hclear, hsame]
  have hcells := List.flatMap_congr hcell
  simp only [draw]
  rw [hcells]

/-- The counter shows the mines that have no flag. -/
lemma counter_shows (h : Sound first g) :
    Nat.ofDigitChars 10 (twoDigits g.mineLeft) 0 + (marked g.flag).card = 10 := by
  have hdigits : ∀ n ≤ 10,
      Nat.ofDigitChars 10 [charAt '0' (n / 10), charAt '0' (n % 10)] 0 = n := by decide
  have hleft := h.left
  have hcount := h.count
  rw [twoDigits_eq hleft, hdigits _ (by omega)]
  omega

end Sound

/-! ## Runs -/

/-- What is drawn between two keys is right. -/
structure Drawn (clear : Frame → Frame) (printTiny : List Char → ℕ → ℕ → Frame → Frame)
    (g : Game) : Prop where
  /-- No text leaves the screen. -/
  fits : ∀ c ∈ draw g, c.Fits
  /-- The mines that have no flag are counted. -/
  counter : .print (twoDigits g.mineLeft) 8 1 ∈ draw g ∧
    Nat.ofDigitChars 10 (twoDigits g.mineLeft) 0 + (marked g.flag).card = 10
  /-- The mines under closed cells do not show while the game goes on. -/
  hides : g.state = 0 → ∀ mine, Hidden g mine → ∀ fb,
    shown clear printTiny fb { g with mine := mine } = shown clear printTiny fb g

/-- What is drawn of a sound game is right. -/
lemma Sound.drawn {first : Option UInt8} {g : Game} (h : Sound first g) (clear : Frame → Frame)
    (printTiny : List Char → ℕ → ℕ → Frame → Frame) : Drawn clear printTiny g where
  fits := draw_fits h
  counter := ⟨by simp [draw], counter_shows h⟩
  hides hstate mine hmine fb := by rw [shown, shown, draw_hides h hstate hmine]

/-- **The screen between any two keys.** With any seed and any keys, no text leaves the screen, the
counter shows how many mines have no flag, and while the game goes on a player learns from the
screen only how many mines are around the open cells: any other mines that agree with that give the
same picture.

**Proof sketch.** Between two keys the field is sound. The bounds of the texts are those of the
cursor, of the counter and of the eight neighbours; a closed cell is drawn from its flag alone. -/
theorem screen_always {k : Keys} (hk : k.Digits) (seed : UInt32) (keys : List UInt8) {g : Game}
    (hg : (keys.foldl (Play.step k) (.start seed)).status = .playing g) (clear : Frame → Frame)
    (printTiny : List Char → ℕ → ℕ → Frame → Frame) : Drawn clear printTiny g := by
  have hready : (keys.foldl (Play.step k) (.start seed)).Ready :=
    Run.foldl_of_step (fun p key h => (h.step hk key).1) keys (ready_newGame none seed)
  rw [Play.Ready, hg] at hready
  exact hready.toSound.drawn clear printTiny

/-- The middle of the field is revealed, which opens nine cells; a flag is put down in a corner, and a
digit is half typed. -/
theorem screen_someKeys :
    Drawn id (fun _ _ _ fb => fb)
      { newGame 1576425550 with
        mine := #v[0, 32, 128, 36, 0, 8, 40, 130, 0, 64, 0]
        opened := #v[0, 0, 0, 192, 129, 3, 7, 0, 0, 0, 0]
        flag := setbit noCells 0 true
        cursor := 0
        placed := 1
        mineLeft := 9
        pending := 1
        rowPick := 3 } :=
  screen_always (k := someKeys) ⟨rfl, rfl⟩ 1 [10, 1, 1, 15, 3] (by decide +kernel) _ _

end Uvk5.Minesweeper
