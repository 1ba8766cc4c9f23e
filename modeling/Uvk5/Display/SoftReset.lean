import Uvk5.Display.Panel

set_option relaxedAutoImplicit false
set_option autoImplicit false

/-!
# The software reset of the panel

The command 0xE2 gives the registers of the panel their defaults. A driver may then send anything;
what it sees of the panel is what the panel reports, and where the bytes it sends are stored.

## Main definitions

* `Panel.report`, `Panel.place` — what the panel reports, and where the next byte is stored.
* `Panel.softReset`, `Panel.Forgets` — 0xE2, and that nothing afterwards tells two panels apart.

## Main results

* `Panel.gram_spi` — a byte is stored at its place, and nowhere else.
* `Panel.forgets_iff` — 0xE2 forgets all but the page, the column and the scan directions.
-/

namespace Uvk5.Panel

/-- What the properties of the panel report. -/
structure Report where
  /-- `invert`. -/
  invert : Bool
  /-- `contrast`. -/
  contrast : UInt8
  /-- `display-on`. -/
  displayOn : Bool
  /-- `seg-reverse`. -/
  segReverse : Bool
  /-- `com-reverse`. -/
  comReverse : Bool
  deriving DecidableEq

/-- The report of a panel. -/
def report (s : State) : Report :=
  ⟨s.invert, s.contrast, s.displayOn, s.segReverse, s.comReverse⟩

/-! ## Where a byte is stored -/

/-- The page of the display RAM. -/
def pageIndex (s : State) : Fin 8 :=
  ⟨(s.page &&& 7).toNat, page_lt s⟩

/-- The column of the display RAM, if the counter is on the glass. -/
def glass (col : UInt8) : Option (Fin 128) :=
  if h : 4 ≤ col.toNat ∧ col.toNat < 132 then some ⟨col.toNat - 4, by omega⟩ else none

/-- Where the next byte is stored, if it is pixel data and the counter is on the glass. -/
def place (s : State) : Option (Fin 8 × Fin 128) :=
  if s.selected = true ∧ s.a0 = true then (glass s.col).map (pageIndex s, ·) else none

/-- A command does not write to the display RAM. -/
lemma gram_command (s : State) (out : UInt8) : (command s out).gram = s.gram := by
  let SameGram : State → Prop := fun t => t.gram = s.gram
  change SameGram (command s out)
  unfold command setting
  repeat' refine iteInduction (fun _ => ?_) fun _ => ?_
  all_goals exact rfl

/-- **A byte is stored at its place**, and nowhere else. -/
theorem gram_spi (s : State) (out : UInt8) : (step s (.spi out)).gram =
    match place s with
    | none => s.gram
    | some (page, i) => Function.update s.gram page (Function.update (s.gram page) i out) := by
  rw [step, place]
  by_cases hsel : s.selected = true
  · by_cases ha0 : s.a0 = true
    · rw [xfer_data out hsel ha0, data, glass, if_pos ⟨hsel, ha0⟩]
      split
      · rfl
      · rfl
    · rw [Bool.not_eq_true] at ha0
      rw [xfer_command out hsel ha0, if_neg (by rw [ha0]; exact fun h => Bool.false_ne_true h.2)]
      exact gram_command s out
  · rw [if_neg fun h => hsel h.1, xfer, if_pos (by rw [Bool.not_eq_true] at hsel; rw [hsel]; rfl)]

/-! ## What is sent afterwards -/

/-- A byte of pixel data or of a command. -/
def send (s : State) (byte : Bool × UInt8) : State := run s [.a0 byte.1, .spi byte.2]

/-- Where it is stored. -/
def sendPlace (s : State) (byte : Bool × UInt8) : Option (Fin 8 × Fin 128) :=
  place (setA0 s byte.1)

/-- 0xE2 as a command. -/
def softReset (s : State) : State := send s (false, 0xe2)

/-- After 0xE2, whatever is sent, two panels report the same and store the bytes at the same
places. -/
def Forgets (s t : State) : Prop :=
  ∀ bytes : List (Bool × UInt8),
    report (bytes.foldl send (softReset s)) = report (bytes.foldl send (softReset t)) ∧
      Run.outputs send sendPlace (softReset s) bytes =
        Run.outputs send sendPlace (softReset t) bytes

/-- Another display RAM. -/
def State.withGram (s : State) (gram : Fin 8 → Fin 128 → UInt8) : State := { s with gram := gram }

/-- The states differ at most in the display RAM. -/
def SameRegisters (s t : State) : Prop := ∃ gram, t = s.withGram gram

/-- A case distinction that does not look at the display RAM. -/
lemma ite_withGram {c : Prop} [Decidable c] {s t u v : State} {gram : Fin 8 → Fin 128 → UInt8}
    (hu : u = s.withGram gram) (hv : v = t.withGram gram) :
    (if c then u else v) = (if c then s else t).withGram gram := by
  rw [hu, hv]
  split <;> rfl

/-- The display RAM does not matter to a command. -/
lemma command_withGram (s : State) (gram : Fin 8 → Fin 128 → UInt8) (out : UInt8) :
    command (s.withGram gram) out = (command s out).withGram gram := by
  unfold command setting
  repeat' refine ite_withGram ?_ ?_
  all_goals rfl

/-- Pixel data changes the display RAM and the column. -/
lemma data_eq_withGram (s : State) (out : UInt8) :
    data s out =
      { s with col := UInt8.ofNat ((s.col.toNat + 1) % 132) }.withGram (data s out).gram := by
  rw [data]
  split <;> rfl

/-- The display RAM does not matter to pixel data. -/
lemma data_withGram (s : State) (gram : Fin 8 → Fin 128 → UInt8) (out : UInt8) :
    SameRegisters (data s out) (data (s.withGram gram) out) := by
  refine ⟨(data (s.withGram gram) out).gram, ?_⟩
  rw [data_eq_withGram s out]
  exact data_eq_withGram (s.withGram gram) out

/-- A byte that is sent to both. -/
lemma SameRegisters.send {s t : State} (h : SameRegisters s t) (byte : Bool × UInt8) :
    SameRegisters (send s byte) (send t byte) := by
  obtain ⟨gram, rfl⟩ := h
  obtain ⟨isData, out⟩ := byte
  have hsend : ∀ u : State, Panel.send u (isData, out) =
      if u.selected = true then
        if isData = true then data (setA0 u isData) out else command (setA0 u isData) out
      else setA0 u isData := by
    intro u
    rw [Panel.send, run_cons, run_cons, run_nil, step, step]
    by_cases hsel : u.selected = true
    · rw [if_pos hsel]
      by_cases hdata : isData = true
      · rw [if_pos hdata]
        exact xfer_data out hsel hdata
      · rw [if_neg hdata]
        exact xfer_command out hsel (Bool.not_eq_true _ ▸ hdata)
    · rw [if_neg hsel, xfer, if_pos]
      rw [Bool.not_eq_true] at hsel
      change (!u.selected) = true
      rw [hsel]
      rfl
  rw [hsend, hsend]
  by_cases hsel : s.selected = true
  · have hsel' : (s.withGram gram).selected = true := hsel
    rw [if_pos hsel, if_pos hsel']
    by_cases hdata : isData = true
    · rw [if_pos hdata, if_pos hdata]
      exact data_withGram (Panel.setA0 s isData) gram out
    · rw [if_neg hdata, if_neg hdata]
      exact ⟨gram, command_withGram (Panel.setA0 s isData) gram out⟩
  · have hsel' : ¬ (s.withGram gram).selected = true := hsel
    rw [if_neg hsel, if_neg hsel']
    exact ⟨gram, rfl⟩

/-- Where a byte is stored does not depend on the display RAM. -/
lemma SameRegisters.place {s t : State} (h : SameRegisters s t) : place s = place t := by
  obtain ⟨gram, rfl⟩ := h
  rfl

/-- What is reported does not depend on the display RAM. -/
lemma SameRegisters.report {s t : State} (h : SameRegisters s t) : report s = report t := by
  obtain ⟨gram, rfl⟩ := h
  rfl

/-- The A0 line is the same for both. -/
lemma SameRegisters.setA0 {s t : State} (h : SameRegisters s t) (level : Bool) :
    SameRegisters (setA0 s level) (setA0 t level) := by
  obtain ⟨gram, rfl⟩ := h
  exact ⟨gram, rfl⟩

/-- Panels that differ at most in the display RAM cannot be told apart. -/
lemma SameRegisters.forgets {s t : State} (h : SameRegisters (softReset s) (softReset t)) :
    Forgets s t := by
  intro bytes
  have hstep : ∀ u v byte, SameRegisters u v →
      SameRegisters (Panel.send u byte) (Panel.send v byte) :=
    fun u v byte huv => huv.send byte
  exact ⟨(Run.related_foldl hstep bytes h).report,
    Run.outputs_eq_of_related hstep (fun u v byte huv => (huv.setA0 byte.1).place) bytes h⟩

/-! ## What 0xE2 leaves -/

/-- A panel that is selected, and does not wait for an operand. -/
structure Ready (s : State) : Prop where
  selected : s.selected = true
  expect : s.expectContrast = false

section Ready

variable {s : State} (h : Ready s)

include h

/-- A byte that is sent as a command is one. -/
lemma Ready.send_command (out : UInt8) : send s (false, out) = command (setA0 s false) out := by
  rw [send, run_cons, run_cons, run_nil, step, step]
  exact xfer_command out h.selected rfl

/-- 0xE2 sets what is reported, and nothing else. -/
lemma Ready.softReset : softReset s = { s with
    a0 := false, invert := false, displayOn := false, contrast := 0, expectContrast := false } := by
  rw [Panel.softReset, h.send_command, command,
    if_neg (show ¬ (setA0 s false).expectContrast = true by
      rw [setA0, h.expect]
      exact Bool.false_ne_true)]
  rfl

/-- Two bytes of pixel data: the first goes to the column the counter is at, the second to the next
one. -/
lemma Ready.outputs_data (out out' : UInt8) :
    Run.outputs send sendPlace s [(true, out), (true, out')] =
      [(glass s.col).map (pageIndex s, ·),
        (glass (UInt8.ofNat ((s.col.toNat + 1) % 132))).map (pageIndex s, ·)] := by
  have hdata : send s (true, out) = data (setA0 s true) out := by
    rw [send, run_cons, run_cons, run_nil, step, step]
    exact xfer_data out h.selected rfl
  have hfirst : sendPlace s (true, out) = (glass s.col).map (pageIndex s, ·) :=
    if_pos ⟨h.selected, rfl⟩
  rw [Run.outputs, Run.outputs, Run.outputs, hfirst, hdata, data_eq_withGram]
  congr 2
  exact if_pos ⟨h.selected, rfl⟩

/-- A command, and two bytes of pixel data. -/
lemma Ready.outputs_command {col : UInt8} (out : UInt8)
    (hcommand : command (setA0 s false) out = { setA0 s false with col := col }) :
    Run.outputs send sendPlace s [(false, out), (true, 0), (true, 0)] =
      [none, (glass col).map (pageIndex s, ·),
        (glass (UInt8.ofNat ((col.toNat + 1) % 132))).map (pageIndex s, ·)] := by
  have hnone : sendPlace s (false, out) = none := if_neg fun hboth => Bool.false_ne_true hboth.2
  have hready : Ready { setA0 s false with col := col } := ⟨h.selected, h.expect⟩
  rw [Run.outputs, hnone, h.send_command, hcommand, hready.outputs_data]
  rfl

end Ready

/-- The column that was set, from where bytes go when one of its halves is replaced: the low half is
seen in columns 16 to 31, and the high half where two bytes go. -/
def readColumn : Option (Fin 128) → Option (Fin 128) → Option (Fin 128) → ℕ
  | none, _, _ => 0
  | some low, some high, _ => low - 12 + high
  | some low, none, none => low - 12 + 128
  | some low, none, some next => low - 12 + next + 131

/-- The column that was set is read back. -/
lemma readColumn_eq (col : UInt8) :
    readColumn (glass ((col &&& 0x0f) ||| 0x10)) (glass ((col &&& 0xf0) ||| 0x04))
      (glass (UInt8.ofNat ((((col &&& 0xf0) ||| 0x04).toNat + 1) % 132))) = col.toNat := by
  have hall : ∀ n < 256, readColumn (glass ((UInt8.ofNat n &&& 0x0f) ||| 0x10))
      (glass ((UInt8.ofNat n &&& 0xf0) ||| 0x04))
      (glass (UInt8.ofNat ((((UInt8.ofNat n &&& 0xf0) ||| 0x04).toNat + 1) % 132))) = n := by
    decide +kernel
  have hcol := hall col.toNat col.toNat_lt
  rwa [UInt8.ofNat_toNat] at hcol

/-- In columns 16 to 31 there is glass. -/
lemma isSome_glass (col : UInt8) : (glass ((col &&& 0x0f) ||| 0x10)).isSome = true := by
  have hall : ∀ n < 256, (glass ((UInt8.ofNat n &&& 0x0f) ||| 0x10)).isSome = true := by
    decide +kernel
  have hcol := hall col.toNat col.toNat_lt
  rwa [UInt8.ofNat_toNat] at hcol

/-- Two places that are the same have the same column, and the same page if there are any. -/
lemma map_mk_inj {p q : Fin 8} {a b : Option (Fin 128)} (h : a.map (p, ·) = b.map (q, ·)) :
    a = b ∧ (a.isSome = true → p = q) := by
  cases a with
  | none =>
    cases b with
    | none => exact ⟨rfl, nofun⟩
    | some j => cases h
  | some i =>
    cases b with
    | none => cases h
    | some j =>
      obtain ⟨rfl, rfl⟩ := Prod.mk.inj (Option.some.inj h)
      exact ⟨rfl, fun _ => rfl⟩

/-- The page and the column of a panel are seen where the bytes go. -/
lemma Ready.address_eq {s t : State} (hs : Ready s) (ht : Ready t)
    (h : ∀ bytes, Run.outputs send sendPlace s bytes = Run.outputs send sendPlace t bytes) :
    pageIndex s = pageIndex t ∧ s.col = t.col := by
  have hlow := h [(false, 0x11), (true, 0), (true, 0)]
  have hhigh := h [(false, 0x04), (true, 0), (true, 0)]
  rw [hs.outputs_command _ (command_high (by exact hs.expect) (by decide)),
    ht.outputs_command _ (command_high (by exact ht.expect) (by decide))] at hlow
  rw [hs.outputs_command _ (command_low (by exact hs.expect) (by decide)),
    ht.outputs_command _ (command_low (by exact ht.expect) (by decide))] at hhigh
  simp only [List.cons.injEq, true_and, and_true] at hlow hhigh
  obtain ⟨hlow, hpage⟩ := map_mk_inj hlow.1
  obtain ⟨hhigh, hnext⟩ := hhigh
  refine ⟨hpage (isSome_glass s.col), UInt8.toNat_inj.mp ?_⟩
  have hread := readColumn_eq s.col
  have hread' := readColumn_eq t.col
  rw [← hread, ← hread']
  exact congr (congrArg₂ readColumn hlow (map_mk_inj hhigh).1) (map_mk_inj hnext).1

/-! ## Histories -/

/-- The page is less than 8. -/
def PageInRange (s : State) : Prop := s.page &&& 7 = s.page

/-- A command leaves the page less than 8. -/
lemma PageInRange.command {s : State} (h : PageInRange s) (out : UInt8) :
    PageInRange (command s out) := by
  have hmask : out &&& 7 &&& 7 = out &&& 7 := by
    rw [UInt8.and_assoc]
    rfl
  unfold Panel.command setting
  -- only the page command touches the page
  repeat' refine iteInduction (fun _ => ?_) fun _ => ?_
  all_goals first | exact h | exact hmask

/-- Every event leaves the page less than 8. -/
lemma PageInRange.step {s : State} (h : PageInRange s) (e : Event) : PageInRange (step s e) := by
  cases e with
  | a0 level => exact h
  | cs level => exact h
  | spi out =>
    rw [Panel.step, xfer]
    split
    · exact h
    · split
      · rw [data_eq_withGram]
        exact h
      · exact h.command out

/-- After any events from a reset on the page is less than 8. -/
lemma pageInRange_run (events : List Event) : PageInRange (run reset events) :=
  Run.foldl_of_step (fun _ e h => h.step e) events (rfl : PageInRange reset)

/-- **What the software reset forgets.** Two panels, each after any history, are selected and wait
for no operand. After 0xE2, and whatever is sent then, they report the same and store every byte at
the same place if and only if they had the same page, column and scan directions before it.

**Proof sketch.** 0xE2 leaves only these registers and the display RAM as they were, and the display
RAM is not seen. Conversely, the scan directions are reported, and the page and the column are seen
where the bytes go: half of the column is replaced by a command, and the other half decides. -/
theorem forgets_iff (first second : List Event) (hfirst : Ready (run reset first))
    (hsecond : Ready (run reset second)) :
    Forgets (run reset first) (run reset second) ↔
      (run reset first).page = (run reset second).page ∧
        (run reset first).col = (run reset second).col ∧
        (run reset first).segReverse = (run reset second).segReverse ∧
        (run reset first).comReverse = (run reset second).comReverse := by
  have hpage : (run reset first).page &&& 7 = (run reset first).page := pageInRange_run first
  have hpage' : (run reset second).page &&& 7 = (run reset second).page := pageInRange_run second
  generalize run reset first = s at *
  generalize run reset second = t at *
  have hreset : Ready (softReset s) := by
    rw [hfirst.softReset]
    exact ⟨hfirst.selected, rfl⟩
  have hreset' : Ready (softReset t) := by
    rw [hsecond.softReset]
    exact ⟨hsecond.selected, rfl⟩
  constructor
  · intro h
    have hreport := (h []).1
    obtain ⟨hindex, hcol⟩ := hreset.address_eq hreset' fun bytes => (h bytes).2
    rw [hfirst.softReset, hsecond.softReset] at hreport hindex hcol
    have hval := congrArg Fin.val hindex
    have hmask : s.page &&& 7 = t.page &&& 7 := UInt8.toNat_inj.mp hval
    refine ⟨?_, hcol, congrArg Report.segReverse hreport, congrArg Report.comReverse hreport⟩
    rw [← hpage, ← hpage', hmask]
  · rintro ⟨hpages, hcol, hseg, hcom⟩
    refine SameRegisters.forgets ⟨t.gram, ?_⟩
    rw [hfirst.softReset, hsecond.softReset, State.withGram, hpages, hcol, hseg, hcom,
      hfirst.selected, hsecond.selected]

/-- Two panels at the same page, of which one was inverted and the other dimmed. -/
theorem forgets_after_page : Forgets (run reset [.cs false, .spi 0xb3, .spi 0xa7])
    (run reset [.cs false, .spi 0xb3, .spi 0x81, .spi 0x20]) :=
  (forgets_iff _ _ ⟨by decide, by decide⟩ ⟨by decide, by decide⟩).mpr (by decide)

/-- The scan direction that was set before 0xE2 is reported afterwards. -/
theorem reset_remembers : ¬ ∀ first second : List Event, Ready (run reset first) →
    Ready (run reset second) → Forgets (run reset first) (run reset second) := by
  intro h
  have hforgets := h [.cs false, .spi 0xa1] [.cs false] ⟨by decide, by decide⟩
    ⟨by decide, by decide⟩
  exact absurd (hforgets []).1 (by decide)

end Uvk5.Panel
