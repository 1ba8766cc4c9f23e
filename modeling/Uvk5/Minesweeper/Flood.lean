import Uvk5.Lib.Worklist
import Uvk5.Minesweeper.Field

set_option relaxedAutoImplicit false
set_option autoImplicit false

/-!
# What a flood opens

The flood of `reveal` is a search with a stack of 81 cells. A cell may be on the stack several
times, so the stack can be full although there are no more than 81 cells, and a cell that finds it
full is not put there.

## Main definitions

* `Minesweeper.floodStep`, `Minesweeper.floodAt` — the flood, cell by cell.
* `Minesweeper.lostCells` — the cells that find the stack full.
* `Minesweeper.Reached` — the cells that are to be opened.
* `Minesweeper.searchStep`, `Minesweeper.Fits` — a search with a stack that is never full, and that it
  never holds more than 81 cells.

## Main results

* `Minesweeper.reveal_eq` — the loop takes these steps.
* `Minesweeper.abs_floodStep` — a step is one of the search.
* `Minesweeper.fits_of_few` — fields on which the search holds few cells.
* `Minesweeper.reveal_exact_of_fits` — where it does, a flood opens exactly what it should.
-/

namespace Uvk5.Minesweeper

/-! ## The flood, cell by cell -/

/-- The variables of the loop of `reveal`. -/
structure Flood where
  /-- `g_open`. -/
  opened : Bits
  /-- `stack` up to `top`, which comes first. -/
  stack : List UInt8

/-- One turn of the loop of `reveal`. -/
def floodStep (mine flag : Bits) (s : Flood) : Flood :=
  match s.stack with
  | [] => s
  | cur :: stack =>
    if bit s.opened cur then ⟨s.opened, stack⟩
    else
      let opened := setbit s.opened cur true
      if neighbours mine cur ≠ 0 then ⟨opened, stack⟩
      else ⟨opened, pushAround opened flag cur stack⟩

/-- The flood from a cell, after some turns. -/
def floodAt (mine flag opened : Bits) (cell : UInt8) (n : ℕ) : Flood :=
  (floodStep mine flag)^[n] ⟨opened, [cell]⟩

/-- The indices at which a turn reads and writes the stack: the top, and what is pushed. -/
def indices (mine flag : Bits) (s : Flood) : List ℕ :=
  match s.stack with
  | [] => []
  | _ :: stack =>
    stack.length :: (List.range ((floodStep mine flag s).stack.length - stack.length)).map
      (stack.length + ·)

/-- The cells that find the stack full. -/
def lostCells (mine flag : Bits) (s : Flood) : List UInt8 :=
  match s.stack with
  | [] => []
  | cur :: stack =>
    if bit s.opened cur then []
    else if neighbours mine cur ≠ 0 then []
    else (around (setbit s.opened cur true) flag cur).drop (81 - stack.length)

/-- The loop takes as many of these steps as it has fuel. -/
lemma revealLoop_eq (mine flag : Bits) (fuel : ℕ) (opened : Bits) (stack : List UInt8) :
    revealLoop mine flag fuel opened stack =
      if ((floodStep mine flag)^[fuel] ⟨opened, stack⟩).stack = [] then
        some ((floodStep mine flag)^[fuel] ⟨opened, stack⟩).opened
      else none := by
  induction fuel generalizing opened stack with
  | zero =>
    cases stack with
    | nil => rfl
    | cons cur stack => rfl
  | succ fuel ih =>
    rw [Function.iterate_succ_apply]
    cases stack with
    | nil =>
      have hstep : floodStep mine flag ⟨opened, []⟩ = ⟨opened, []⟩ := rfl
      rw [hstep, Function.iterate_fixed hstep]
      rfl
    | cons cur stack =>
      rw [revealLoop, floodStep]
      dsimp only
      split
      · exact ih ..
      · split
        · exact ih ..
        · exact ih ..

/-- **The loop takes these steps.** -/
theorem reveal_eq (mine flag opened : Bits) (cell : UInt8) :
    reveal mine flag opened cell =
      if (floodAt mine flag opened cell (1 + 9 * 81)).stack = [] then
        some (floodAt mine flag opened cell (1 + 9 * 81)).opened
      else none :=
  revealLoop_eq ..

/-! ## The flood as a search -/

/-- The cells that a cell leads to: those around it without a flag, if no mine is next to it. -/
def leadsTo (mine flag : Bits) (cur : UInt8) : List UInt8 :=
  if neighbours mine cur ≠ 0 then []
  else (offsets.filterMap (cellAt cur)).filter fun next => !bit flag next

/-- The open cells and the stack. -/
def Flood.abs (s : Flood) : Worklist.State UInt8 := ⟨{c | bit s.opened c = true}, s.stack⟩

/-- Every cell on the stack is on the field. -/
def Flood.OnField (s : Flood) : Prop := ∀ c ∈ s.stack, c.toNat < 81

variable {mine flag opened : Bits} {cell : UInt8}

/-- Setting the bit of a cell adds the cell. -/
lemma setOf_bit_setbit (set : Bits) {cur : UInt8} (hcur : cur.toNat < 81) :
    {c | bit (setbit set cur true) c = true} = insert cur {c | bit set c = true} := by
  ext c
  rw [Set.mem_ofPred_eq, bit_setbit set hcur, Set.mem_insert_iff, Set.mem_ofPred_eq]
  by_cases h : c = cur
  · simp [h]
  · simp [h]

/-- The cells around that are neither open nor flagged are those that are wanted. -/
lemma wanted_leadsTo (opened : Bits) {cur : UInt8} (hnone : neighbours mine cur = 0) :
    Worklist.wanted (leadsTo mine flag) {c | bit opened c = true} cur = around opened flag cur := by
  rw [Worklist.wanted, leadsTo, if_neg (not_not.mpr hnone), List.filter_filter, around]
  refine List.filter_congr fun c _ => ?_
  by_cases hopen : bit opened c = true
  · simp [hopen]
  · simp [hopen]

/-- Nothing is wanted of a cell with mines around it. -/
lemma wanted_of_mines (visited : Set UInt8) {cur : UInt8} (hmines : neighbours mine cur ≠ 0) :
    Worklist.wanted (leadsTo mine flag) visited cur = [] := by
  rw [Worklist.wanted, leadsTo, if_pos hmines, List.filter_nil]

/-- **A step of the flood is one of the search.** -/
theorem abs_floodStep {s : Flood} (h : s.OnField) :
    (floodStep mine flag s).abs = Worklist.step (leadsTo mine flag) 81 s.abs ∧
      lostCells mine flag s = Worklist.lost (leadsTo mine flag) 81 s.abs := by
  obtain ⟨opened, stack⟩ := s
  cases stack with
  | nil => exact ⟨rfl, rfl⟩
  | cons cur stack =>
    have hcur : cur.toNat < 81 := h cur List.mem_cons_self
    have hset := setOf_bit_setbit opened hcur
    by_cases hopen : bit opened cur = true
    · obtain ⟨hstep, hlost⟩ := Worklist.step_of_mem (leadsTo mine flag) 81
        (s := Flood.abs ⟨opened, cur :: stack⟩) rfl hopen
      rw [hstep, hlost]
      simp [floodStep, lostCells, Flood.abs, hopen]
    · obtain ⟨hstep, hlost⟩ := Worklist.step_of_not_mem (leadsTo mine flag) 81
        (s := Flood.abs ⟨opened, cur :: stack⟩) rfl hopen
      have hvisited : insert cur (Flood.abs ⟨opened, cur :: stack⟩).visited =
          {c | bit (setbit opened cur true) c = true} := hset.symm
      rw [hstep, hlost, hvisited]
      by_cases hmines : neighbours mine cur = 0
      · rw [wanted_leadsTo _ hmines, ← pushAround_eq]
        simp [floodStep, lostCells, Flood.abs, hopen, hmines]
      · rw [wanted_of_mines _ hmines]
        simp [floodStep, lostCells, Flood.abs, hopen, hmines]

/-- The flood stays on the field. -/
lemma onField_floodStep {s : Flood} (h : s.OnField) : (floodStep mine flag s).OnField := by
  obtain ⟨opened, stack⟩ := s
  cases stack with
  | nil => exact h
  | cons cur stack =>
    have hrest : ∀ c ∈ stack, c.toNat < 81 := fun c hc => h c (List.mem_cons_of_mem cur hc)
    rw [floodStep]
    dsimp only
    split
    · exact hrest
    · split
      · exact hrest
      · intro c hc
        have hpushed : c ∈ pushAround (setbit opened cur true) flag cur stack := hc
        rcases mem_pushAround hpushed with hmem | ⟨⟨step, -, hat⟩, -⟩
        · exact hrest c hmem
        · exact toNat_cellAt hat

/-- The flood stays on the field. -/
lemma onField_floodAt (hcell : cell.toNat < 81) (n : ℕ) :
    (floodAt mine flag opened cell n).OnField := by
  induction n with
  | zero => exact fun c hc => by rw [List.mem_singleton.mp hc]; exact hcell
  | succ n ih =>
    rw [floodAt, Function.iterate_succ_apply']
    exact onField_floodStep ih

/-- **The flood is the search**, as long as it takes. -/
theorem abs_floodAt (hcell : cell.toNat < 81) (n : ℕ) :
    (floodAt mine flag opened cell n).abs =
      (Worklist.step (leadsTo mine flag) 81)^[n] ⟨{c | bit opened c = true}, [cell]⟩ := by
  induction n with
  | zero => rfl
  | succ n ih =>
    rw [Function.iterate_succ_apply', ← ih, ← (abs_floodStep (onField_floodAt hcell n)).1, floodAt,
      floodAt, Function.iterate_succ_apply']

/-! ## What is to be opened -/

/-- One of the eight neighbours. -/
def Adjacent (cell next : UInt8) : Prop :=
  ∃ step ∈ offsets, step ≠ (0, 0) ∧ cellAt cell step = some next

/-- The cells that are reached from `start` by steps to neighbours that are closed and have no flag,
from cells that have no mine next to them. -/
inductive Reached (mine flag opened : Bits) (start : UInt8) : UInt8 → Prop where
  /-- The beginning. -/
  | start : Reached mine flag opened start start
  /-- One step further. -/
  | step {cell next : UInt8} : Reached mine flag opened start cell → neighbours mine cell = 0 →
      Adjacent cell next → bit opened next = false → bit flag next = false →
      Reached mine flag opened start next

/-- What there is to find from a cell of the field is on the field. -/
lemma Reached.toNat_lt {start c : UInt8} (h : Reached mine flag opened start c)
    (hstart : start.toNat < 81) : c.toNat < 81 := by
  cases h with
  | start => exact hstart
  | step _ _ hadjacent _ _ =>
    obtain ⟨step, -, -, hat⟩ := hadjacent
    exact toNat_cellAt hat

/-- A cell without mines around it leads to its neighbours, except those with a flag. -/
lemma mem_leadsTo {cur c : UInt8} :
    c ∈ leadsTo mine flag cur ↔
      neighbours mine cur = 0 ∧ (∃ step ∈ offsets, cellAt cur step = some c) ∧
        bit flag c = false := by
  rw [leadsTo]
  split
  · next hmines => simp [hmines]
  · next hnone => simp [not_not.mp hnone]

/-- What a search finds, in terms of the field. The step that stays where it is finds nothing. -/
theorem reached_iff {start c : UInt8} (hstart : start.toNat < 81) :
    Worklist.Reached (leadsTo mine flag) {c | bit opened c = true} start c ↔
      Reached mine flag opened start c := by
  constructor
  · intro h
    induction h with
    | start => exact .start
    | @step cur next _ hnext hclosed ih =>
      obtain ⟨hnone, ⟨step, hstep, hat⟩, hflag⟩ := mem_leadsTo.mp hnext
      by_cases hzero : step = (0, 0)
      · rw [hzero, cellAt_zero (ih.toNat_lt hstart)] at hat
        exact Option.some.inj hat ▸ ih
      · exact .step ih hnone ⟨step, hstep, hzero, hat⟩ (Bool.not_eq_true _ ▸ hclosed) hflag
  · intro h
    induction h with
    | start => exact .start
    | @step cur next _ hnone hadjacent hclosed hflag ih =>
      obtain ⟨step, hstep, -, hat⟩ := hadjacent
      refine .step ih (mem_leadsTo.mpr ⟨hnone, ⟨step, hstep, hat⟩, hflag⟩) fun hopen => ?_
      rw [Set.mem_ofPred_eq, hclosed] at hopen
      cases hopen

/-! ## What is opened -/

/-- The stack never holds more than it has room for. -/
lemma length_floodAt (hcell : cell.toNat < 81) (n : ℕ) :
    (floodAt mine flag opened cell n).stack.length ≤ 81 := by
  have hlength : ((Worklist.step (leadsTo mine flag) 81)^[n]
      ⟨{c | bit opened c = true}, [cell]⟩).stack.length ≤ 81 :=
    Worklist.length_iterate (by simp) n
  rw [← abs_floodAt hcell n] at hlength
  exact hlength

/-- **The stack is never indexed out of range.** -/
theorem indices_lt (hcell : cell.toNat < 81) (n : ℕ) :
    ∀ i ∈ indices mine flag (floodAt mine flag opened cell n), i < 81 := by
  have hbefore : (floodAt mine flag opened cell n).stack.length ≤ 81 := length_floodAt hcell n
  have hafter : (floodAt mine flag opened cell (n + 1)).stack.length ≤ 81 :=
    length_floodAt hcell (n + 1)
  rw [floodAt, Function.iterate_succ_apply', ← floodAt] at hafter
  intro i hi
  rw [indices] at hi
  cases hstack : (floodAt mine flag opened cell n).stack with
  | nil =>
    rw [hstack] at hi
    cases hi
  | cons cur stack =>
    rw [hstack, List.length_cons] at hbefore
    rw [hstack] at hi
    rcases List.mem_cons.mp hi with rfl | hi
    · omega
    · obtain ⟨k, hk, rfl⟩ := List.mem_map.mp hi
      have hrange := List.mem_range.mp hk
      omega

/-- The flood ends, stays within its stack, and opens the cells that are reached and no others. -/
def RevealsExactly (mine flag opened : Bits) (cell : UInt8) : Prop :=
  ∃ opened', reveal mine flag opened cell = some opened' ∧
    (∀ n, ∀ i ∈ indices mine flag (floodAt mine flag opened cell n), i < 81) ∧
    ∀ c : Cell, bit opened' c.code = true ↔
      bit opened c.code = true ∨ Reached mine flag opened cell c.code

/-- The flood has ended when its fuel is used up. -/
lemma exists_reveal (opened : Bits) (hclear : Clear mine flag cell) :
    (floodAt mine flag opened cell (1 + 9 * 81)).stack = [] ∧
      reveal mine flag opened cell = some (floodAt mine flag opened cell (1 + 9 * 81)).opened := by
  obtain ⟨opened', hreveal, -⟩ := reveal_spec hclear opened
  rw [reveal_eq] at hreveal ⊢
  split at hreveal
  · next hover => exact ⟨hover, if_pos hover⟩
  · cases hreveal

/-- What a flood opens as a set, with the cells that are not on the field. -/
lemma opens_iff (hcell : cell.toNat < 81) (n : ℕ) :
    (∀ c : Cell, bit (floodAt mine flag opened cell n).opened c.code = true ↔
        bit opened c.code = true ∨ Reached mine flag opened cell c.code) ↔
      ((Worklist.step (leadsTo mine flag) 81)^[n] ⟨{c | bit opened c = true}, [cell]⟩).visited =
        {c | bit opened c = true} ∪
          {c | Worklist.Reached (leadsTo mine flag) {c | bit opened c = true} cell c} := by
  have hsound : Worklist.Sound (leadsTo mine flag) {c | bit opened c = true} cell
      ((Worklist.step (leadsTo mine flag) 81)^[n] ⟨{c | bit opened c = true}, [cell]⟩) :=
    Worklist.sound_iterate (Worklist.sound_start ..) n
  rw [← abs_floodAt hcell n] at hsound ⊢
  constructor
  · intro hcells
    ext c
    rw [Set.mem_union, Set.mem_ofPred_eq, Set.mem_ofPred_eq]
    refine ⟨fun hc => hsound.since c hc, ?_⟩
    rintro (hc | hc)
    · exact hsound.before hc
    · rw [reached_iff hcell] at hc
      obtain ⟨d, rfl⟩ := exists_code (hc.toNat_lt hcell)
      exact (hcells d).mpr (.inr hc)
  · intro hset c
    have hmem := Set.ext_iff.mp hset c.code
    rw [Set.mem_union, Set.mem_ofPred_eq, Set.mem_ofPred_eq, reached_iff hcell] at hmem
    exact hmem

/-- What the flood has opened in the end: what it should, exactly if every cell that finds the stack
full is on the stack afterwards. -/
lemma opens_final_iff (hclear : Clear mine flag cell) (hclosed : bit opened cell = false) :
    (∀ c : Cell, bit (floodAt mine flag opened cell (1 + 9 * 81)).opened c.code = true ↔
        bit opened c.code = true ∨ Reached mine flag opened cell c.code) ↔
      ∀ n, ∀ c ∈ lostCells mine flag (floodAt mine flag opened cell n),
        ∃ m, n < m ∧ c ∈ (floodAt mine flag opened cell m).stack := by
  have hcell := hclear.1
  obtain ⟨hover, -⟩ := exists_reveal opened hclear
  have hstart : cell ∉ {c | bit opened c = true} := by
    rw [Set.mem_ofPred_eq, hclosed]
    exact Bool.false_ne_true
  have hstack : ∀ n, (floodAt mine flag opened cell n).stack =
      ((Worklist.step (leadsTo mine flag) 81)^[n] ⟨{c | bit opened c = true}, [cell]⟩).stack :=
    fun n => congrArg Worklist.State.stack (abs_floodAt hcell n)
  have hlost : ∀ n, lostCells mine flag (floodAt mine flag opened cell n) =
      Worklist.lost (leadsTo mine flag) 81
        ((Worklist.step (leadsTo mine flag) 81)^[n] ⟨{c | bit opened c = true}, [cell]⟩) := by
    intro n
    rw [← abs_floodAt hcell n]
    exact (abs_floodStep (onField_floodAt hcell n)).2
  rw [hstack] at hover
  simp only [hstack, hlost]
  rw [opens_iff hcell]
  exact Worklist.visited_eq_iff hstart hover

/-- When a flood opens exactly what it should: exactly if every cell that finds the stack full is on
the stack afterwards. The flood is a search with a stack of 81 cells, and what there is to find are
the cells that are reached. It ends, and its stack never holds more than 81 cells, in any case. -/
lemma revealsExactly_iff (hclear : Clear mine flag cell) (hclosed : bit opened cell = false) :
    RevealsExactly mine flag opened cell ↔
      ∀ n, ∀ c ∈ lostCells mine flag (floodAt mine flag opened cell n),
        ∃ m, n < m ∧ c ∈ (floodAt mine flag opened cell m).stack := by
  obtain ⟨-, hreveal⟩ := exists_reveal opened hclear
  rw [← opens_final_iff hclear hclosed]
  constructor
  · rintro ⟨opened', hopened', -, hexact⟩
    rw [hreveal] at hopened'
    obtain rfl := Option.some.inj hopened'
    exact hexact
  · intro hexact
    exact ⟨_, hreveal, indices_lt hclear.1, hexact⟩

/-! ## A search with room for every cell -/

/-- One turn of a search that opens what the loop of `reveal` opens, with a stack that has room for
every cell that is pushed. -/
def searchStep (mine flag : Bits) (s : Flood) : Flood :=
  match s.stack with
  | [] => s
  | cur :: stack =>
    if bit s.opened cur then ⟨s.opened, stack⟩
    else
      let opened := setbit s.opened cur true
      if neighbours mine cur ≠ 0 then ⟨opened, stack⟩
      else ⟨opened, (around opened flag cur).reverse ++ stack⟩

/-- The search from a cell, after some turns. -/
def searchAt (mine flag opened : Bits) (cell : UInt8) (n : ℕ) : Flood :=
  (searchStep mine flag)^[n] ⟨opened, [cell]⟩

/-- The search never holds more than 81 cells. -/
def Fits (mine flag opened : Bits) (cell : UInt8) : Prop :=
  ∀ n, (searchAt mine flag opened cell n).stack.length ≤ 81

/-- The search ends within so many turns, and holds no more than 81 cells until then. -/
def fitsFor (mine flag : Bits) : ℕ → Flood → Bool
  | 0, s => s.stack.isEmpty
  | fuel + 1, s => decide (s.stack.length ≤ 81) && fitsFor mine flag fuel (searchStep mine flag s)

/-- Whether the search fits is found out by running it. -/
lemma fits_of_fitsFor {fuel : ℕ} (h : fitsFor mine flag fuel ⟨opened, [cell]⟩ = true) :
    Fits mine flag opened cell := by
  rw [Fits]
  simp only [searchAt]
  generalize (⟨opened, [cell]⟩ : Flood) = s at h
  induction fuel generalizing s with
  | zero =>
    have hempty : s.stack = [] := List.isEmpty_iff.mp h
    have hstep : searchStep mine flag s = s := by rw [searchStep, hempty]
    intro n
    rw [Function.iterate_fixed hstep, hempty]
    exact Nat.zero_le 81
  | succ fuel ih =>
    rw [fitsFor, Bool.and_eq_true, decide_eq_true_eq] at h
    intro n
    cases n with
    | zero => exact h.1
    | succ n => exact ih _ h.2 n

/-- A turn of the flood in which no cell finds the stack full is one of the search. -/
lemma floodStep_of_kept {s : Flood} (h : lostCells mine flag s = []) :
    floodStep mine flag s = searchStep mine flag s := by
  obtain ⟨opened, stack⟩ := s
  cases stack with
  | nil => rfl
  | cons cur stack =>
    rw [lostCells] at h
    rw [floodStep, searchStep]
    dsimp only at h ⊢
    split at h
    · next hopen => rw [if_pos hopen, if_pos hopen]
    · next hopen =>
      rw [if_neg hopen, if_neg hopen]
      split at h
      · next hmines => rw [if_pos hmines, if_pos hmines]
      · next hmines =>
        rw [if_neg hmines, if_neg hmines, pushAround_eq,
          List.take_of_length_le (List.drop_eq_nil_iff.mp h)]

/-- In a turn after which the search holds no more than 81 cells, no cell finds the stack full. -/
lemma lostCells_of_length {s : Flood} (h : (searchStep mine flag s).stack.length ≤ 81) :
    lostCells mine flag s = [] := by
  obtain ⟨opened, stack⟩ := s
  cases stack with
  | nil => rfl
  | cons cur stack =>
    rw [searchStep] at h
    rw [lostCells]
    dsimp only at h ⊢
    split
    · rfl
    · next hopen =>
      split
      · rfl
      · next hmines =>
        rw [if_neg hopen, if_neg hmines, List.length_append, List.length_reverse] at h
        exact List.drop_eq_nil_of_le (by omega)

/-- The search holds no more than 81 cells exactly if no cell ever finds the stack of the flood
full.

**Proof sketch.** While nothing is lost the flood and the search are in the same state, and a push
is lost exactly if the next state of the search is too large. Each direction is an induction on
the turns. -/
lemma fits_iff (hcell : cell.toNat < 81) : Fits mine flag opened cell ↔
    ∀ n, lostCells mine flag (floodAt mine flag opened cell n) = [] := by
  constructor
  · intro h
    have hsame : ∀ n, floodAt mine flag opened cell n = searchAt mine flag opened cell n ∧
        lostCells mine flag (floodAt mine flag opened cell n) = [] := by
      intro n
      have hnext := h (n + 1)
      rw [searchAt, Function.iterate_succ_apply', ← searchAt] at hnext
      have hlost := lostCells_of_length hnext
      induction n with
      | zero => exact ⟨rfl, hlost⟩
      | succ n ih =>
        have hbefore := h (n + 1)
        rw [searchAt, Function.iterate_succ_apply', ← searchAt] at hbefore
        obtain ⟨hflood, hkept⟩ := ih hbefore (lostCells_of_length hbefore)
        have hnow : floodAt mine flag opened cell (n + 1) =
            searchAt mine flag opened cell (n + 1) := by
          rw [floodAt, searchAt, Function.iterate_succ_apply', Function.iterate_succ_apply',
            ← floodAt, ← searchAt, floodStep_of_kept hkept, hflood]
        exact ⟨hnow, hnow ▸ hlost⟩
    exact fun n => (hsame n).2
  · intro h n
    have hsame : floodAt mine flag opened cell n = searchAt mine flag opened cell n := by
      induction n with
      | zero => rfl
      | succ n ih =>
        rw [floodAt, searchAt, Function.iterate_succ_apply', Function.iterate_succ_apply',
          ← floodAt, ← searchAt, floodStep_of_kept (h n), ih]
    rw [← hsame]
    exact length_floodAt hcell n

/-! ### Fields with few quiet cells -/

/-- The closed cells that have no mine next to them. -/
def quiet (mine opened : Bits) : Finset Cell :=
  Finset.univ.filter fun c => bit opened c.code = false ∧ neighbours mine c.code = 0

/-- Opening a quiet cell leaves one quiet cell less. -/
lemma quiet_setbit {opened : Bits} (c : Cell) :
    quiet mine (setbit opened c.code true) = (quiet mine opened).erase c := by
  ext d
  rw [quiet, quiet, Finset.mem_filter, Finset.mem_erase, Finset.mem_filter,
    bit_setbit opened (by rw [Cell.toNat_code]; exact c.isLt)]
  by_cases h : d = c
  · simp [h]
  · simp [h, Cell.code_injective.ne h]

/-- There is room for what is pushed around every quiet cell that is still closed. -/
def HasRoom (mine : Bits) (s : Flood) : Prop :=
  s.stack.length + 8 * (quiet mine s.opened).card ≤ 81

/-- While there is room there still is after a turn: a quiet cell that is opened makes room for the
nine around it.

**Proof sketch.** A turn takes one cell off the stack. If it opens a quiet one it puts at most
nine back, and there is one quiet cell less, which frees eight. -/
lemma hasRoom_searchStep {s : Flood} (hfield : s.OnField) (h : HasRoom mine s) :
    HasRoom mine (searchStep mine flag s) := by
  obtain ⟨opened, stack⟩ := s
  cases stack with
  | nil => exact h
  | cons cur stack =>
    obtain ⟨c, rfl⟩ := exists_code (hfield cur List.mem_cons_self)
    rw [HasRoom, List.length_cons] at h
    dsimp only at h
    rw [HasRoom, searchStep]
    dsimp only
    split
    · dsimp only
      omega
    · next hclosed =>
      have hless : (quiet mine (setbit opened c.code true)).card ≤ (quiet mine opened).card := by
        rw [quiet_setbit]
        exact Finset.card_erase_le
      split
      · dsimp only
        omega
      · next hnone =>
        have hquiet : c ∈ quiet mine opened := by
          simp [quiet, hclosed, not_not.mp hnone]
        have hcard : (quiet mine (setbit opened c.code true)).card + 1 =
            (quiet mine opened).card := by
          rw [quiet_setbit]
          exact Finset.card_erase_add_one hquiet
        have haround := length_around_le (setbit opened c.code true) flag c.code
        dsimp only
        rw [List.length_append, List.length_reverse]
        omega

/-- **On a field with at most ten quiet cells the search fits.** -/
theorem fits_of_few (hcell : cell.toNat < 81) (hfew : (quiet mine opened).card ≤ 10) :
    Fits mine flag opened cell := by
  have hroom : ∀ n, HasRoom mine (searchAt mine flag opened cell n) ∧
      floodAt mine flag opened cell n = searchAt mine flag opened cell n := by
    intro n
    induction n with
    | zero =>
      rw [HasRoom, searchAt, Function.iterate_zero, id, List.length_singleton]
      exact ⟨by dsimp only; omega, rfl⟩
    | succ n ih =>
      obtain ⟨hbefore, hsame⟩ := ih
      have hfield : (searchAt mine flag opened cell n).OnField := hsame ▸ onField_floodAt hcell n
      have hnext : HasRoom mine (searchStep mine flag (searchAt mine flag opened cell n)) :=
        hasRoom_searchStep hfield hbefore
      have hlost : lostCells mine flag (searchAt mine flag opened cell n) = [] :=
        lostCells_of_length (Nat.le_trans (Nat.le_add_right _ _) hnext)
      rw [searchAt, floodAt, Function.iterate_succ_apply', Function.iterate_succ_apply',
        ← searchAt, ← floodAt, hsame, floodStep_of_kept hlost]
      exact ⟨hnext, rfl⟩
  exact fun n => Nat.le_trans (Nat.le_add_right _ _) (hroom n).1

/-- **When a flood opens exactly what it should.** It does if the search with room for every cell
never holds more than 81 of them, as on a field with at most ten quiet cells. If the search holds
more, some cell finds the stack of the flood full, and the flood is exact only if every such cell is
put on the stack again. In any case it ends, stays within its stack, and opens no other cells.

**Proof sketch.** As long as no cell finds the stack full the flood is the search. The flood is a
search with a stack of 81 cells, and what it visits in the end is closed under steps exactly if all
that is lost is found again. -/
theorem reveal_exact_of_fits (hclear : Clear mine flag cell) (hclosed : bit opened cell = false) :
    (Fits mine flag opened cell → RevealsExactly mine flag opened cell) ∧
      (Fits mine flag opened cell ↔
        ∀ n, lostCells mine flag (floodAt mine flag opened cell n) = []) ∧
      ((quiet mine opened).card ≤ 10 → Fits mine flag opened cell) ∧
      (RevealsExactly mine flag opened cell ↔
        ∀ n, ∀ c ∈ lostCells mine flag (floodAt mine flag opened cell n),
          ∃ m, n < m ∧ c ∈ (floodAt mine flag opened cell m).stack) ∧
      ∃ opened', reveal mine flag opened cell = some opened' ∧
        (∀ n, ∀ i ∈ indices mine flag (floodAt mine flag opened cell n), i < 81) ∧
        ∀ c : Cell, bit opened' c.code = true →
          bit opened c.code = true ∨ Reached mine flag opened cell c.code := by
  refine ⟨fun hfits => ?_, fits_iff hclear.1, fits_of_few hclear.1,
    revealsExactly_iff hclear hclosed, _, (exists_reveal opened hclear).2, indices_lt hclear.1,
    fun c hc => ?_⟩
  · rw [revealsExactly_iff hclear hclosed]
    intro n c hc
    rw [(fits_iff hclear.1).mp hfits n] at hc
    cases hc
  · have hsound : Worklist.Sound (leadsTo mine flag) {c | bit opened c = true} cell
        (floodAt mine flag opened cell (1 + 9 * 81)).abs := by
      rw [abs_floodAt hclear.1]
      exact Worklist.sound_iterate (Worklist.sound_start ..) _
    exact (hsound.since c.code hc).imp id (reached_iff hclear.1).mp

/-- The mines of the first game, if its first reveal is that of row 7 and column 8. -/
def firstField : Bits := #v[0, 3, 4, 0, 28, 0, 128, 0, 0, 130, 1]

/-- The app starts with the seed 1. -/
theorem placeMines_first : placeMines 61 1 = some (1672038781, firstField) := by
  have hloop : placeLoop 61 100 (1 + ((61 : UInt8).toUInt32 * 2654435761 + 1)) noCells 10 =
      some (1672038781, firstField) := by decide +kernel
  have hfuel : 100 + (10 * 2 ^ 32 - 100) = 10 * 2 ^ 32 := by omega
  have hmore := placeLoop_mono hloop (10 * 2 ^ 32 - 100)
  rwa [hfuel] at hmore

/-- With a flag on row 5 and column 6 the first field is flooded exactly from row 2 and column 5: 61
cells are opened, and the search holds up to 81 cells. -/
theorem reveal_exact_of_fits_first :
    RevealsExactly firstField (setbit noCells 41 true) noCells 13 ∧
      (reveal firstField (setbit noCells 41 true) noCells 13).map (fun opened =>
        (marked opened).card) = some 61 := by
  have hfits : Fits firstField (setbit noCells 41 true) noCells 13 := by
    have hfor : fitsFor firstField (setbit noCells 41 true) 144 ⟨noCells, [13]⟩ = true := by
      decide +kernel
    exact fits_of_fitsFor hfor
  refine ⟨?_, by decide +kernel⟩
  exact (reveal_exact_of_fits ⟨by decide, by decide, by decide⟩ (by decide)).1 hfits

/-- A cell that the first reveal of the first game leaves closed. -/
theorem reveal_misses :
    ¬ ∀ (mine flag opened : Bits) (cell : UInt8),
      Disjoint (marked opened) (marked flag) → Clear mine flag cell → bit opened cell = false →
      RevealsExactly mine flag opened cell := by
  intro h
  have hdisjoint : Disjoint (marked noCells) (marked noCells) := by simp
  obtain ⟨opened', hreveal, -, hexact⟩ := h firstField noCells noCells 61 hdisjoint
    ⟨by decide, by decide, by decide⟩ (by decide)
  have hmissed : (reveal firstField noCells noCells 61).map (bit · 25) = some false := by
    decide +kernel
  rw [hreveal, Option.map_some, Option.some.injEq] at hmissed
  have hstep : ∀ cell next : UInt8, Reached firstField noCells noCells 61 cell →
      neighbours firstField cell = 0 → Adjacent cell next → bit noCells next = false →
      Reached firstField noCells noCells 61 next :=
    fun _ _ hcell hnone hadjacent hclosed => .step hcell hnone hadjacent hclosed hclosed
  have h51 := hstep 61 51 .start (by decide) ⟨(-1, -1), by decide⟩ (by decide)
  have h41 := hstep 51 41 h51 (by decide) ⟨(-1, -1), by decide⟩ (by decide)
  have h31 := hstep 41 31 h41 (by decide) ⟨(-1, -1), by decide⟩ (by decide)
  have h23 := hstep 31 23 h31 (by decide) ⟨(-1, 1), by decide⟩ (by decide)
  have h15 := hstep 23 15 h23 (by decide) ⟨(-1, 1), by decide⟩ (by decide)
  have h25 := hstep 15 25 h15 (by decide) ⟨(1, 1), by decide⟩ (by decide)
  have hopen := (hexact 25).mpr (.inr h25)
  have hcode : (25 : Cell).code = 25 := rfl
  rw [hcode, hmissed] at hopen
  cases hopen

end Uvk5.Minesweeper
