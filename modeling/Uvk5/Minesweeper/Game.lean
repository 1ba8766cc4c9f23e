import Mathlib.Algebra.Group.Nat.Defs
import Mathlib.Data.Int.Notation
import Mathlib.Data.Nat.Notation

set_option relaxedAutoImplicit false
set_option autoImplicit false

/-!
# The minesweeper app (`apps/minesweeper/minesweeper_app.c`)

A game on nine times nine cells. The mines, the open cells and the flags are arrays of bits. Mines
are placed by the first reveal, by a loop that draws cells until ten are found; a reveal floods the
field with a stack of cells.

## Main definitions

* `Minesweeper.Game` — the variables of the app.
* `Minesweeper.placeMines`, `Minesweeper.reveal`, `Minesweeper.newGame`, `Minesweeper.checkWin` —
  its functions.
* `Minesweeper.Keys`, `Minesweeper.turn` — the key codes, and one turn of the loop of `app_main`.

## Design

The codes of the keys come from `app_api.h`, so they are parameters here. A loop that is not over
when its fuel is leaves nothing; that this never happens is shown with what the loops do. What is
played is left out.
-/

namespace Uvk5.Minesweeper

/-- The 81 cells as bits: `uint8_t [BYTES]`. -/
abbrev Bits := Vector UInt8 11

/-- `bit`. -/
def bit (set : Bits) (cell : UInt8) : Bool :=
  decide (set[(cell >>> 3).toNat]?.getD 0 >>> (cell &&& 7) &&& 1 ≠ 0)

/-- `setbit`. -/
def setbit (set : Bits) (cell : UInt8) (on : Bool) : Bits :=
  let mask : UInt8 := 1 <<< (cell &&& 7)
  let byte := set[(cell >>> 3).toNat]?.getD 0
  set.setIfInBounds (cell >>> 3).toNat (if on then byte ||| mask else byte &&& ~~~mask)

/-- No cell. -/
def noCells : Bits := Vector.replicate 11 0

/-- The steps `dy` and `dx` in the order of the two loops. -/
def offsets : List (ℤ × ℤ) :=
  [(-1, -1), (-1, 0), (-1, 1), (0, -1), (0, 0), (0, 1), (1, -1), (1, 0), (1, 1)]

/-- The cell at some steps from another, if it is on the field. -/
def cellAt (cell : UInt8) (step : ℤ × ℤ) : Option UInt8 :=
  let r := (cell.toNat / 9 : ℕ) + step.1
  let c := (cell.toNat % 9 : ℕ) + step.2
  if r < 0 ∨ r ≥ 9 ∨ c < 0 ∨ c ≥ 9 then none else some (UInt8.ofNat (r * 9 + c).toNat)

/-- `neighbours`. -/
def neighbours (mine : Bits) (cell : UInt8) : ℕ :=
  (offsets.filter (· ≠ (0, 0))).countP fun step => (cellAt cell step).any (bit mine)

/-! ## The mines -/

/-- The next seed. -/
def nextSeed (seed : UInt32) : UInt32 := seed * 1103515245 + 12345

/-- The cell that is drawn. -/
def drawnCell (seed : UInt32) : UInt8 := ((seed >>> 16) % 81).toUInt8

/-- The cell is one of the 3x3 around another. -/
def inBlock (safe cell : UInt8) : Bool :=
  let row : ℤ := (cell.toNat / 9 : ℕ)
  let col : ℤ := (cell.toNat % 9 : ℕ)
  let srow : ℤ := (safe.toNat / 9 : ℕ)
  let scol : ℤ := (safe.toNat % 9 : ℕ)
  row ≥ srow - 1 ∧ row ≤ srow + 1 ∧ col ≥ scol - 1 ∧ col ≤ scol + 1

/-- The loop of `place_mines`. -/
def placeLoop (safe : UInt8) : ℕ → UInt32 → Bits → ℕ → Option (UInt32 × Bits)
  | 0, seed, mine, want => if want = 0 then some (seed, mine) else none
  | fuel + 1, seed, mine, want =>
    if want = 0 then some (seed, mine)
    else
      let seed := nextSeed seed
      let cell := drawnCell seed
      if bit mine cell then placeLoop safe fuel seed mine want
      else if inBlock safe cell then placeLoop safe fuel seed mine want
      else placeLoop safe fuel seed (setbit mine cell true) (want - 1)

/-- `place_mines`: the seed and the mines. Ten times the period of the seeds is enough for the
loop. -/
def placeMines (safe : UInt8) (seed : UInt32) : Option (UInt32 × Bits) :=
  placeLoop safe (10 * 2 ^ 32) (seed + (safe.toUInt32 * 2654435761 + 1)) noCells 10

/-! ## The flood -/

/-- The loops of `reveal` over the cells around the one that was opened. The stack begins with its
top and holds at most 81 cells. -/
def pushAround (opened flag : Bits) (cur : UInt8) (stack : List UInt8) : List UInt8 :=
  offsets.foldl (fun stack step =>
    match cellAt cur step with
    | none => stack
    | some next =>
      if !bit opened next && !bit flag next && decide (stack.length < 81) then next :: stack
      else stack) stack

/-- The loop of `reveal`. -/
def revealLoop (mine flag : Bits) : ℕ → Bits → List UInt8 → Option Bits
  | _, opened, [] => some opened
  | 0, _, _ :: _ => none
  | fuel + 1, opened, cur :: stack =>
    if bit opened cur then revealLoop mine flag fuel opened stack
    else
      let opened := setbit opened cur true
      if neighbours mine cur ≠ 0 then revealLoop mine flag fuel opened stack
      else revealLoop mine flag fuel opened (pushAround opened flag cur stack)

/-- `reveal`: the open cells. Every cell is opened once and puts nine cells on the stack at most. -/
def reveal (mine flag opened : Bits) (cell : UInt8) : Option Bits :=
  revealLoop mine flag (1 + 9 * 81) opened [cell]

/-! ## The game -/

/-- The variables. -/
structure Game where
  /-- `g_mine`. -/
  mine : Bits
  /-- `g_open`. -/
  opened : Bits
  /-- `g_flag`. -/
  flag : Bits
  /-- `g_cursor`. -/
  cursor : UInt8
  /-- `g_pending`: 1 when a row is typed. -/
  pending : UInt8
  /-- `g_row_pick`. -/
  rowPick : UInt8
  /-- `g_placed`. -/
  placed : UInt8
  /-- `g_state`: 0 play, 1 lost, 2 won. -/
  state : UInt8
  /-- `g_mine_left`. -/
  mineLeft : Int8
  /-- `seed`. -/
  seed : UInt32
  deriving DecidableEq

/-- `new_game`, which does not touch the seed. -/
def newGame (seed : UInt32) : Game where
  mine := noCells
  opened := noCells
  flag := noCells
  cursor := 4 * 9 + 4
  pending := 0
  rowPick := 0
  placed := 0
  state := 0
  mineLeft := 10
  seed := seed

/-- `step`. -/
def step (delta : Int8) (cursor : UInt8) : UInt8 :=
  let cell := cursor.toInt8 + delta
  let cell := if cell < 0 then 80 else cell
  let cell := if cell ≥ 81 then 0 else cell
  cell.toUInt8

/-- `check_win`. -/
def checkWin (g : Game) : Game :=
  let closed := (List.range 81).countP fun cell =>
    !bit g.opened (UInt8.ofNat cell) && !bit g.mine (UInt8.ofNat cell)
  if closed = 0 then { g with state := 2 } else g

/-- A digit from 1 to 9: the row first, then the column. -/
def typeDigit (g : Game) (digit : UInt8) : Game :=
  if g.pending = 0 then { g with rowPick := digit, pending := 1 }
  else { g with cursor := (g.rowPick - 1) * 9 + (digit - 1), pending := 0 }

/-- Flag the cell, or take the flag away. -/
def toggleFlag (g : Game) : Game :=
  if bit g.opened g.cursor then g
  else if bit g.flag g.cursor then
    { g with flag := setbit g.flag g.cursor false, mineLeft := g.mineLeft + 1 }
  else if g.mineLeft > 0 then
    { g with flag := setbit g.flag g.cursor true, mineLeft := g.mineLeft - 1 }
  else g

/-- The app between two keys: it goes on, it has returned, or a loop does not end. -/
inductive Status where
  /-- The game goes on. -/
  | playing (g : Game)
  /-- `app_main` has returned. -/
  | returned (g : Game)
  /-- A loop does not end. -/
  | hangs
  deriving DecidableEq

/-- `if (!g_placed) place_mines(g_cursor)`. -/
def placeOnce (g : Game) : Option Game :=
  if g.placed = 0 then
    (placeMines g.cursor g.seed).map fun (seed, mine) =>
      { g with seed := seed, mine := mine, placed := 1 }
  else some g

/-- What follows when the mines are placed: the cell has one and the game is lost, or it is
revealed. -/
def openCursor (g : Game) : Status :=
  if bit g.mine g.cursor then
    .playing { g with opened := setbit g.opened g.cursor true, state := 1 }
  else match reveal g.mine g.flag g.opened g.cursor with
    | none => .hangs
    | some opened => .playing (checkWin { g with opened := opened })

/-- `MENU` while the game goes on. -/
def pressMenu (g : Game) : Status :=
  if bit g.flag g.cursor then .playing g
  else match placeOnce g with
    | none => .hangs
    | some g => openCursor g

/-- The codes of the keys. -/
structure Keys where
  /-- `APP_KEY_INVALID`. -/
  invalid : UInt8
  /-- `APP_KEY_SAVER`. -/
  saver : UInt8
  /-- `APP_KEY_EXIT`. -/
  exit : UInt8
  /-- `APP_KEY_STAR`. -/
  star : UInt8
  /-- `APP_KEY_MENU`. -/
  menu : UInt8
  /-- `APP_KEY_UP`. -/
  up : UInt8
  /-- `APP_KEY_DOWN`. -/
  down : UInt8
  /-- `APP_KEY_F`. -/
  f : UInt8
  /-- `APP_KEY_0`. -/
  key0 : UInt8
  /-- `APP_KEY_1`. -/
  key1 : UInt8
  /-- `APP_KEY_9`. -/
  key9 : UInt8

/-- One turn of the loop of `app_main`, with what `get_key` returns. -/
def turn (k : Keys) (g : Game) (key : UInt8) : Status :=
  if key = k.invalid ∨ key = k.saver then .playing g
  else if key = k.exit then .returned g
  else if key = k.star then .playing (newGame g.seed)
  else if g.state ≠ 0 then .playing (if key = k.menu then newGame g.seed else g)
  else if key = k.up then .playing { g with cursor := step (-1) g.cursor }
  else if key = k.down then .playing { g with cursor := step 1 g.cursor }
  else if k.key1 ≤ key ∧ key ≤ k.key9 then .playing (typeDigit g (key - k.key0))
  else if key = k.f then .playing (toggleFlag g)
  else if key = k.menu then pressMenu g
  else .playing g

end Uvk5.Minesweeper
