import Uvk5.Lib.Run
import Uvk5.Minesweeper.Field

set_option relaxedAutoImplicit false
set_option autoImplicit false

/-!
# Games from key to key

Flags and digits can be typed before there are mines, and a game can begin anew at any time. Here
the keys come in any order, and between two keys the variables describe a game of minesweeper.

## Main definitions

* `Minesweeper.Play`, `Minesweeper.Play.step` — the app, with the cell of the first reveal.
* `Minesweeper.Sound` — what holds between two keys.

## Main results

* `Minesweeper.sound_turn` — a turn keeps it.
* `Minesweeper.sound_always` — it holds in every run, and the first reveal does not lose the game.
-/

namespace Uvk5.Minesweeper

/-- The app between two keys, with the cell of the first reveal of the game. -/
structure Play where
  /-- The app. -/
  status : Status
  /-- The cell of the first reveal. -/
  first : Option UInt8

/-- The cell of the first reveal after a turn: the mines are placed in that reveal. -/
def nextFirst (first : Option UInt8) (g g' : Game) : Option UInt8 :=
  if g'.placed = 0 then none else if g.placed = 0 then some g.cursor else first

/-- A key. -/
def Play.step (k : Keys) (p : Play) (key : UInt8) : Play :=
  match p.status with
  | .playing g =>
    match turn k g key with
    | .playing g' => ⟨.playing g', nextFirst p.first g g'⟩
    | .returned g' => ⟨.returned g', p.first⟩
    | .hangs => ⟨.hangs, p.first⟩
  | .returned _ => p
  | .hangs => p

/-- The app when it is started, with any seed. -/
def Play.start (seed : UInt32) : Play := ⟨.playing (newGame seed), none⟩

/-- What holds between two keys. -/
structure Sound (first : Option UInt8) (g : Game) : Prop where
  /-- The cursor is on the field. -/
  cursor : g.cursor < 81
  /-- The flags are counted. -/
  count : g.mineLeft.toInt + (marked g.flag).card = 10
  /-- There are at most ten. -/
  left : 0 ≤ g.mineLeft.toInt ∧ g.mineLeft.toInt ≤ 10
  /-- No open cell has a flag. -/
  apart : Disjoint (marked g.opened) (marked g.flag)
  /-- There are ten mines once they are placed, and none around the first reveal. -/
  placed : g.placed ≠ 0 → (marked g.mine).card = 10 ∧
    ∃ cell, first = some cell ∧ Disjoint (marked g.mine) (block cell)
  /-- No mine is open while the game goes on. -/
  playing : g.state = 0 → Disjoint (marked g.opened) (marked g.mine)
  /-- The game is won when all other cells are open. -/
  won : g.state = 2 →
    (marked g.mine)ᶜ ⊆ marked g.opened ∧ Disjoint (marked g.opened) (marked g.mine)
  /-- The game is lost when the mine at the cursor is open. -/
  lost : g.state = 1 → bit g.mine g.cursor = true ∧ bit g.opened g.cursor = true

/-- What the next turn needs besides. -/
structure Ready (first : Option UInt8) (g : Game) : Prop extends Sound first g where
  /-- The row that is typed is a digit. -/
  digits : g.pending ≠ 0 → 1 ≤ g.rowPick ∧ g.rowPick ≤ 9
  /-- Nothing is open before there are mines. -/
  fresh : g.placed = 0 → marked g.opened = ∅

/-- The digits have consecutive codes. -/
structure Keys.Digits (k : Keys) : Prop where
  one : k.key1.toNat = k.key0.toNat + 1
  nine : k.key9.toNat = k.key0.toNat + 9

/-- What holds of the app. -/
def Play.Sound (p : Play) : Prop :=
  match p.status with
  | .playing g => Minesweeper.Sound p.first g
  | .returned _ => True
  | .hangs => False

/-- The turn is not a first reveal that loses the game. -/
def FirstSafe (p p' : Play) : Prop :=
  match p.status, p'.status with
  | .playing g, .playing g' => g.placed = 0 → g'.placed ≠ 0 → g'.state ≠ 1
  | _, _ => True

/-! ## The parts of a turn -/

/-- A new game. -/
lemma ready_newGame (first : Option UInt8) (seed : UInt32) : Ready first (newGame seed) where
  cursor := show (40 : UInt8) < 81 by decide
  count := by simp [newGame]
  left := show 0 ≤ (10 : Int8).toInt ∧ (10 : Int8).toInt ≤ 10 by decide
  apart := by simp [newGame]
  placed h := absurd rfl h
  playing _ := by simp [newGame]
  won h := absurd (show (0 : UInt8) = 2 from h) (by decide)
  lost h := absurd (show (0 : UInt8) = 1 from h) (by decide)
  digits h := absurd rfl h
  fresh _ := by simp [newGame]

section Turn

variable {first : Option UInt8} {g : Game}

/-- The first reveal matters only when there are mines, and a turn that does not place them does not
change it. -/
lemma Ready.nextFirst {g' : Game} (h : Ready first g') (hplaced : g'.placed = g.placed) :
    Ready (nextFirst first g g') g' := by
  rw [Minesweeper.nextFirst, hplaced]
  by_cases hnone : g.placed = 0
  · rw [if_pos hnone]
    refine ⟨⟨h.cursor, h.count, h.left, h.apart, fun hne => ?_, h.playing, h.won, h.lost⟩, h.digits,
      h.fresh⟩
    exact absurd (hplaced.trans hnone) hne
  · rw [if_neg hnone, if_neg hnone]
    exact h

/-- The cursor moves while the game goes on. -/
lemma Ready.setCursor (h : Ready first g) (hstate : g.state = 0) {cursor pending rowPick : UInt8}
    (hcursor : cursor < 81) (hdigits : pending ≠ 0 → 1 ≤ rowPick ∧ rowPick ≤ 9) :
    Ready first { g with cursor := cursor, pending := pending, rowPick := rowPick } where
  cursor := hcursor
  count := h.count
  left := h.left
  apart := h.apart
  placed := h.placed
  playing := h.playing
  won := h.won
  lost hlost := absurd (hstate.symm.trans hlost) (by decide)
  digits := hdigits
  fresh := h.fresh

/-- Up and down leave the cursor on the field. -/
lemma step_lt {cursor : UInt8} (h : cursor < 81) : step (-1) cursor < 81 ∧ step 1 cursor < 81 := by
  have hall : ∀ n : Fin 81, step (-1) (UInt8.ofNat n) < 81 ∧ step 1 (UInt8.ofNat n) < 81 := by
    decide
  have hcursor := hall ⟨cursor.toNat, UInt8.lt_iff_toNat_lt.mp h⟩
  rwa [UInt8.ofNat_toNat] at hcursor

/-- A digit keeps the app ready for the next turn. -/
lemma ready_typeDigit (h : Ready first g) (hstate : g.state = 0) {digit : UInt8}
    (hdigit : 1 ≤ digit ∧ digit ≤ 9) : Ready first (typeDigit g digit) := by
  rw [typeDigit]
  split
  · exact h.setCursor hstate h.cursor fun _ => hdigit
  · rename_i hpending
    refine h.setCursor hstate ?_ fun hne => absurd rfl hne
    obtain ⟨hrow, hrow'⟩ := h.digits hpending
    obtain ⟨hdigit, hdigit'⟩ := hdigit
    have hrow₁ := UInt8.toNat_sub_of_le _ _ hrow
    have hdigit₁ := UInt8.toNat_sub_of_le _ _ hdigit
    rw [UInt8.le_iff_toNat_le] at hrow hrow' hdigit hdigit'
    rw [UInt8.lt_iff_toNat_lt, UInt8.toNat_add, UInt8.toNat_mul, hrow₁, hdigit₁]
    simp only [UInt8.reduceToNat] at hrow hrow' hdigit hdigit' ⊢
    rw [Nat.mod_eq_of_lt (show (g.rowPick.toNat - 1) * 9 < 2 ^ 8 by omega),
      Nat.mod_eq_of_lt (by omega)]
    omega

/-- A digit places no mines. -/
lemma typeDigit_placed (g : Game) (digit : UInt8) : (typeDigit g digit).placed = g.placed := by
  rw [typeDigit]
  split <;> rfl

/-- One flag more, as a number. -/
lemma toInt_add_one {x : Int8} (h : 0 ≤ x.toInt ∧ x.toInt < 10) :
    (x + 1).toInt = x.toInt + 1 := by
  rw [Int8.toInt_add, Int8.toInt_one]
  exact Int.bmod_eq_of_le (by omega) (by omega)

/-- One flag less, as a number. -/
lemma toInt_sub_one {x : Int8} (h : 0 < x.toInt ∧ x.toInt ≤ 10) :
    (x - 1).toInt = x.toInt - 1 := by
  rw [Int8.toInt_sub, Int8.toInt_one]
  exact Int.bmod_eq_of_le (by omega) (by omega)

/-- A flag is put down or taken away. -/
lemma Ready.setFlag (h : Ready first g) {flag : Bits} {mineLeft : Int8}
    (hcount : mineLeft.toInt + (marked flag).card = 10)
    (hleft : 0 ≤ mineLeft.toInt ∧ mineLeft.toInt ≤ 10)
    (hapart : Disjoint (marked g.opened) (marked flag)) :
    Ready first { g with flag := flag, mineLeft := mineLeft } where
  cursor := h.cursor
  count := hcount
  left := hleft
  apart := hapart
  placed := h.placed
  playing := h.playing
  won := h.won
  lost := h.lost
  digits := h.digits
  fresh := h.fresh

/-- The cursor as a cell. -/
lemma Sound.exists_cursor (h : Sound first g) : ∃ c : Cell, c.code = g.cursor :=
  exists_code (UInt8.lt_iff_toNat_lt.mp h.cursor)

/-- A flag that is set or taken away keeps the app ready for the next turn.

**Proof sketch.** On an open cell nothing happens. A flag that is taken away is one less on the
field and one more in the counter; one that is set is the other way round, and is set only while
the counter is positive. -/
lemma ready_toggleFlag (h : Ready first g) : Ready first (toggleFlag g) := by
  obtain ⟨c, hc⟩ := h.exists_cursor
  have hcount := h.count
  have hleft := h.left
  rw [toggleFlag]
  split
  · exact h
  · rename_i hopen
    have hopen' : c ∉ marked g.opened := by
      rw [mem_marked, hc]
      exact hopen
    split
    · rename_i hflag
      have hmem : c ∈ marked g.flag := by
        rw [mem_marked, hc]
        exact hflag
      have hcard := Finset.card_erase_add_one hmem
      have hadd := toInt_add_one (show 0 ≤ g.mineLeft.toInt ∧ g.mineLeft.toInt < 10 by omega)
      have hset : marked (setbit g.flag g.cursor false) = (marked g.flag).erase c := by
        rw [← hc, marked_setbit_false]
      refine h.setFlag ?_ ?_ ?_
      · rw [hset, hadd]
        omega
      · rw [hadd]
        omega
      · rw [hset]
        exact h.apart.mono_right (Finset.erase_subset _ _)
    · rename_i hflag
      have hnew : c ∉ marked g.flag := by
        rw [mem_marked, hc]
        exact hflag
      split
      · rename_i hpos
        have hpos' : 0 < g.mineLeft.toInt := Int8.lt_iff_toInt_lt.mp hpos
        have hsub := toInt_sub_one ⟨hpos', hleft.2⟩
        have hset : marked (setbit g.flag g.cursor true) = insert c (marked g.flag) := by
          rw [← hc, marked_setbit_true]
        refine h.setFlag ?_ ?_ ?_
        · rw [hset, Finset.card_insert_of_notMem hnew, hsub]
          omega
        · rw [hsub]
          omega
        · rw [hset, Finset.disjoint_insert_right]
          exact ⟨hopen', h.apart⟩
      · exact h

/-- A flag places no mines. -/
lemma toggleFlag_placed (g : Game) : (toggleFlag g).placed = g.placed := by
  rw [toggleFlag]
  split
  · rfl
  · split
    · rfl
    · split <;> rfl

/-- A cell is among those around it. -/
lemma inBlock_self (cell : UInt8) : inBlock cell cell = true := by
  rw [inBlock, decide_eq_true_iff]
  omega

/-- The mines are placed by the first reveal. -/
lemma ready_placeOnce (h : Ready first g) (hstate : g.state = 0) :
    ∃ g', placeOnce g = some g' ∧ Ready (nextFirst first g g') g' ∧ g'.placed ≠ 0 ∧
      g'.state = 0 ∧ g'.cursor = g.cursor ∧ g'.flag = g.flag ∧
      (g.placed = 0 → bit g'.mine g'.cursor = false) := by
  obtain ⟨c, hc⟩ := h.exists_cursor
  rw [placeOnce]
  split
  · rename_i hplaced
    obtain ⟨seed, mine, hplace, hcard, hblock⟩ := placeMines_spec c g.seed
    rw [hc] at hplace hblock
    refine ⟨{ g with seed := seed, mine := mine, placed := 1 }, by rw [hplace]; rfl, ?_,
      show (1 : UInt8) ≠ 0 by decide, hstate, rfl, rfl, fun _ => ?_⟩
    · have hopen := h.fresh hplaced
      have hfirst : nextFirst first g { g with seed := seed, mine := mine, placed := 1 } =
          some g.cursor := by
        rw [nextFirst, if_neg (show (1 : UInt8) ≠ 0 by decide), if_pos hplaced]
      rw [hfirst]
      refine ⟨⟨h.cursor, h.count, h.left, h.apart, fun _ => ⟨hcard, g.cursor, rfl, hblock⟩,
        fun _ => ?_, fun hwon => ?_, fun hlost => ?_⟩, h.digits, fun hnone => ?_⟩
      · rw [hopen]
        exact Finset.disjoint_empty_left _
      · exact absurd (hstate.symm.trans hwon) (by decide)
      · exact absurd (hstate.symm.trans hlost) (by decide)
      · exact absurd (show (1 : UInt8) = 0 from hnone) (by decide)
    · have hnot := Finset.disjoint_right.mp hblock (show c ∈ block g.cursor from ?_)
      · rw [mem_marked, hc, Bool.not_eq_true] at hnot
        exact hnot
      · rw [mem_block, hc]
        exact inBlock_self g.cursor
  · rename_i hplaced
    exact ⟨g, rfl, h.nextFirst rfl, hplaced, hstate, rfl, rfl, fun hnone => absurd hnone hplaced⟩

/-- Clear cells are opened. -/
lemma Ready.flood (h : Ready first g) (hstate : g.state = 0) (hplaced : g.placed ≠ 0)
    {opened : Bits} (hfloods : Floods g.mine g.flag g.opened opened) :
    Ready first { g with opened := opened } where
  cursor := h.cursor
  count := h.count
  left := h.left
  apart := by
    rw [Finset.disjoint_left]
    intro c hc hflag
    rcases hfloods c hc with hold | hclear
    · exact Finset.disjoint_left.mp h.apart hold hflag
    · rw [mem_marked, hclear.2.2] at hflag
      cases hflag
  placed := h.placed
  playing _ := by
    rw [Finset.disjoint_left]
    intro c hc hmine
    rcases hfloods c hc with hold | hclear
    · exact Finset.disjoint_left.mp (h.playing hstate) hold hmine
    · rw [mem_marked, hclear.2.1] at hmine
      cases hmine
  won hwon := absurd (hstate.symm.trans hwon) (by decide)
  lost hlost := absurd (hstate.symm.trans hlost) (by decide)
  digits := h.digits
  fresh hnone := absurd hnone hplaced

/-- The game is won when nothing else is closed. -/
lemma ready_checkWin (h : Ready first g) (hstate : g.state = 0) :
    Ready first (checkWin g) ∧ (checkWin g).placed = g.placed ∧ (checkWin g).state ≠ 1 := by
  rw [checkWin]
  split
  · rename_i hclosed
    rw [List.countP_eq_zero] at hclosed
    refine ⟨⟨⟨h.cursor, h.count, h.left, h.apart, h.placed, fun _ => h.playing hstate,
      fun _ => ⟨fun c hc => ?_, h.playing hstate⟩, fun hlost => ?_⟩, h.digits, h.fresh⟩, rfl, ?_⟩
    · have hcell := hclosed c.val (List.mem_range.mpr c.isLt)
      rw [Finset.mem_compl, mem_marked, Bool.not_eq_true] at hc
      rw [mem_marked]
      by_contra hopen
      rw [Bool.not_eq_true] at hopen
      refine hcell ?_
      rw [← Cell.code, hopen, hc]
      rfl
    · exact absurd (show (2 : UInt8) = 1 from hlost) (by decide)
    · exact show (2 : UInt8) ≠ 1 by decide
  · refine ⟨h, rfl, ?_⟩
    rw [hstate]
    decide

/-- A cell is opened when there are mines. -/
lemma ready_openCursor (h : Ready first g) (hstate : g.state = 0) (hplaced : g.placed ≠ 0)
    (hflag : bit g.flag g.cursor = false) :
    ∃ g', openCursor g = .playing g' ∧ Ready first g' ∧ g'.placed = g.placed ∧
      (bit g.mine g.cursor = false → g'.state ≠ 1) := by
  obtain ⟨c, hc⟩ := h.exists_cursor
  have hnoflag : c ∉ marked g.flag := by
    rw [mem_marked, hc, hflag]
    exact Bool.false_ne_true
  rw [openCursor]
  split
  · rename_i hmine
    have hset : marked (setbit g.opened g.cursor true) = insert c (marked g.opened) := by
      rw [← hc, marked_setbit_true]
    have hopen : c ∈ marked (setbit g.opened g.cursor true) := by
      rw [hset]
      exact Finset.mem_insert_self ..
    refine ⟨_, rfl, ⟨⟨h.cursor, h.count, h.left, ?_, h.placed, fun hplay => ?_, fun hwon => ?_,
      fun _ => ⟨hmine, ?_⟩⟩, h.digits, fun hnone => absurd hnone hplaced⟩, rfl, fun hnone => ?_⟩
    · dsimp only
      rw [hset, Finset.disjoint_insert_left]
      exact ⟨hnoflag, h.apart⟩
    · exact absurd (show (1 : UInt8) = 0 from hplay) (by decide)
    · exact absurd (show (1 : UInt8) = 2 from hwon) (by decide)
    · rwa [mem_marked, hc] at hopen
    · rw [hmine] at hnone
      cases hnone
  · rename_i hmine
    rw [Bool.not_eq_true] at hmine
    obtain ⟨opened, hreveal, hfloods⟩ := reveal_spec
      ⟨UInt8.lt_iff_toNat_lt.mp h.cursor, hmine, hflag⟩ g.opened
    obtain ⟨hready, hsame, hlost⟩ := ready_checkWin (h.flood hstate hplaced hfloods) hstate
    rw [hreveal]
    exact ⟨_, rfl, hready, hsame, fun _ => hlost⟩

/-- `MENU` while the game goes on. -/
lemma ready_pressMenu (h : Ready first g) (hstate : g.state = 0) :
    ∃ g', pressMenu g = .playing g' ∧ Ready (nextFirst first g g') g' ∧
      (g.placed = 0 → g'.placed ≠ 0 → g'.state ≠ 1) := by
  rw [pressMenu]
  split
  · exact ⟨g, rfl, h.nextFirst rfl, fun hnone hplaced => absurd hnone hplaced⟩
  · rename_i hflag
    rw [Bool.not_eq_true] at hflag
    obtain ⟨g₁, hplace, hready, hplaced, hstate₁, hcursor, hflags, hsafe⟩ :=
      ready_placeOnce h hstate
    obtain ⟨g', hopen, hready', hsame, hlost⟩ := ready_openCursor hready hstate₁ hplaced
      (by rw [hflags, hcursor]; exact hflag)
    refine ⟨g', by rw [hplace]; exact hopen, ?_, fun hnone _ => hlost (hsafe hnone)⟩
    have hfirst : nextFirst first g g' = nextFirst first g g₁ := by
      rw [nextFirst, nextFirst, hsame]
    rw [hfirst]
    exact hready'

/-- The keys of the digits give the digits. -/
lemma Keys.Digits.digit {k : Keys} (hk : k.Digits) {key : UInt8}
    (h : k.key1 ≤ key ∧ key ≤ k.key9) : 1 ≤ key - k.key0 ∧ key - k.key0 ≤ 9 := by
  obtain ⟨hone, hnine⟩ := hk
  simp only [UInt8.le_iff_toNat_le] at h ⊢
  rw [UInt8.toNat_sub_of_le _ _ (UInt8.le_iff_toNat_le.mpr (by omega))]
  simp only [UInt8.reduceToNat]
  omega

/-- **A turn** keeps what holds between two keys; it ends, and a first reveal does not lose.

**Proof sketch.** By the tests of the turn in their order. Keys that are ignored and those that
move the cursor place no mines; a new game starts over; MENU on a closed cell is
`ready_pressMenu`. -/
theorem sound_turn {k : Keys} (hk : k.Digits) (h : Ready first g) (key : UInt8) :
    (∃ g', turn k g key = .playing g' ∧ Ready (nextFirst first g g') g' ∧
      (g.placed = 0 → g'.placed ≠ 0 → g'.state ≠ 1)) ∨ turn k g key = .returned g := by
  have hsame : ∀ g' : Game, Ready first g' → g'.placed = g.placed →
      Ready (nextFirst first g g') g' ∧ (g.placed = 0 → g'.placed ≠ 0 → g'.state ≠ 1) :=
    fun g' hready hplaced => ⟨hready.nextFirst hplaced,
      fun hnone hne => absurd (hplaced.trans hnone) hne⟩
  have hnew : Ready (nextFirst first g (newGame g.seed)) (newGame g.seed) ∧
      (g.placed = 0 → (newGame g.seed).placed ≠ 0 → (newGame g.seed).state ≠ 1) :=
    ⟨ready_newGame _ _, fun _ hne => absurd rfl hne⟩
  rw [turn]
  by_cases hnone : key = k.invalid ∨ key = k.saver
  · rw [if_pos hnone]
    exact .inl ⟨g, rfl, hsame g h rfl⟩
  rw [if_neg hnone]
  by_cases hexit : key = k.exit
  · rw [if_pos hexit]
    exact .inr rfl
  rw [if_neg hexit]
  by_cases hstar : key = k.star
  · rw [if_pos hstar]
    exact .inl ⟨_, rfl, hnew⟩
  rw [if_neg hstar]
  by_cases hstate : g.state = 0
  swap
  · rw [if_pos hstate]
    by_cases hmenu : key = k.menu
    · rw [if_pos hmenu]
      exact .inl ⟨_, rfl, hnew⟩
    · rw [if_neg hmenu]
      exact .inl ⟨_, rfl, hsame g h rfl⟩
  rw [if_neg (not_not.mpr hstate)]
  by_cases hup : key = k.up
  · rw [if_pos hup]
    exact .inl ⟨_, rfl, hsame _ (h.setCursor hstate (step_lt h.cursor).1 h.digits) rfl⟩
  rw [if_neg hup]
  by_cases hdown : key = k.down
  · rw [if_pos hdown]
    exact .inl ⟨_, rfl, hsame _ (h.setCursor hstate (step_lt h.cursor).2 h.digits) rfl⟩
  rw [if_neg hdown]
  by_cases hdigit : k.key1 ≤ key ∧ key ≤ k.key9
  · rw [if_pos hdigit]
    exact .inl ⟨_, rfl, hsame _ (ready_typeDigit h hstate (hk.digit hdigit)) (typeDigit_placed ..)⟩
  rw [if_neg hdigit]
  by_cases hf : key = k.f
  · rw [if_pos hf]
    exact .inl ⟨_, rfl, hsame _ (ready_toggleFlag h) (toggleFlag_placed g)⟩
  rw [if_neg hf]
  by_cases hmenu : key = k.menu
  · rw [if_pos hmenu]
    exact .inl (ready_pressMenu h hstate)
  · rw [if_neg hmenu]
    exact .inl ⟨g, rfl, hsame g h rfl⟩

end Turn

/-! ## Runs -/

/-- What holds of the app, with what the next turn needs. -/
def Play.Ready (p : Play) : Prop :=
  match p.status with
  | .playing g => Minesweeper.Ready p.first g
  | .returned _ => True
  | .hangs => False

/-- What is ready for the next turn is sound. -/
lemma Play.Ready.sound {p : Play} (h : p.Ready) : p.Sound := by
  obtain ⟨status, first⟩ := p
  cases status with
  | playing g => exact Minesweeper.Ready.toSound h
  | returned g => exact h
  | hangs => exact h

/-- A key. -/
lemma Play.Ready.step {k : Keys} (hk : k.Digits) {p : Play} (h : p.Ready) (key : UInt8) :
    (p.step k key).Ready ∧ FirstSafe p (p.step k key) := by
  obtain ⟨status, first⟩ := p
  cases status with
  | playing g =>
    rcases sound_turn hk h key with ⟨g', hturn, hready, hsafe⟩ | hturn
    · rw [Play.step]
      dsimp only
      rw [hturn]
      exact ⟨hready, hsafe⟩
    · rw [Play.step]
      dsimp only
      rw [hturn]
      exact ⟨trivial, trivial⟩
  | returned g => exact ⟨trivial, trivial⟩
  | hangs => exact h.elim

/-- **The game between any two keys.** With any seed and any keys, the app never hangs, and between
two keys the cursor is on the field, the flags are counted and on closed cells, there are ten mines
away from the first reveal once there are any, no mine is open while the game goes on, and it is won
or lost only as it should be. The first reveal never loses.

**Proof sketch.** A turn keeps this, and that a row is one of the nine and nothing is open before
there are mines. The loop that places them ends because the seeds run through all words and a cell
is free; the flood ends because it opens a cell or shortens its stack, and it goes on only from
cells without mines around them. -/
theorem sound_always {k : Keys} (hk : k.Digits) (seed : UInt32) (keys : List UInt8) :
    Run.AllStates (Play.step k) Play.Sound (.start seed) keys ∧
      Run.AllSteps (Play.step k) (fun p key => FirstSafe p (p.step k key)) (.start seed) keys := by
  have hstart : (Play.start seed).Ready := ready_newGame none seed
  generalize Play.start seed = p at hstart
  induction keys generalizing p with
  | nil => exact ⟨hstart.sound, trivial⟩
  | cons key keys ih =>
    obtain ⟨hready, hsafe⟩ := hstart.step hk key
    obtain ⟨hstates, hsteps⟩ := ih _ hready
    exact ⟨⟨hstart.sound, hstates⟩, hsafe, hsteps⟩

/-- Some codes for the keys. -/
def someKeys : Keys where
  invalid := 255
  saver := 254
  exit := 13
  star := 14
  menu := 10
  up := 11
  down := 12
  f := 15
  key0 := 0
  key1 := 1
  key9 := 9

/-- A flag, a half typed digit, a reveal and a new game. -/
theorem sound_someKeys :
    someKeys.Digits ∧
      Run.AllStates (Play.step someKeys) Play.Sound (.start 1) [15, 11, 3, 10, 14] :=
  ⟨⟨rfl, rfl⟩, (sound_always ⟨rfl, rfl⟩ 1 [15, 11, 3, 10, 14]).1⟩

end Uvk5.Minesweeper
