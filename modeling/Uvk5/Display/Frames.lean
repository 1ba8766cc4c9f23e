import Uvk5.Display.Pump
import Uvk5.Lib.Run

set_option relaxedAutoImplicit false
set_option autoImplicit false

/-!
# The frames of a panel that changes

The pump reads the display RAM twice in an iteration, once for the pixels and once for the bytes it
compares, and the inversion flag in between. This file says when the picture it stores is that of
the bytes it stores with it, and when it is that of the panel.

## Main definitions

* `Pump.picture` — the picture of some bytes of display RAM.
* `Pump.turn` — the thread goes on, or the guest draws.
* `Pump.round` — the panel changes, and then there is one iteration.

## Main results

* `Pump.encodePng_screen_inj` — different screens have different pictures.
* `Pump.iteration` — what one iteration does while the panel stays as it is.
* `Pump.whole_iff` — the picture is that of the bytes stored with it exactly if the display RAM does
  not change between the two reads of an iteration that stores one.
* `Pump.current_iff` — after an iteration the picture is that of the panel exactly if the inversion
  flag never changes alone between two iterations.
-/

namespace Uvk5.Pump

open Display
open Supervisor (Client)

/-! ## Pictures -/

/-- The display RAM as the panel exports it. -/
def gramBytes (gram : Fin 8 → Fin 128 → UInt8) : List UInt8 :=
  (List.finRange 8).flatMap fun page => (List.finRange 128).map fun col => gram page col

/-- The picture of a status line and a frame, as `unpack` and `_apply_panel` make it. -/
def picture (invert : Bool) (raw : Raw) (scale : ℕ) : Option Png :=
  match unpack raw.1 raw.2 with
  | .error _ => none
  | .ok pixels => some (encodePng (applyPanel invert pixels) scale)

/-- The pixels that are lit. -/
def lit (gram : Fin 8 → Fin 128 → UInt8) (invert : Bool) (y x : ℕ) : Bool :=
  if h : y / 8 < 8 ∧ x < 128 then
    (gram ⟨y / 8, h.1⟩ ⟨x, h.2⟩).toNat.testBit (y % 8) ^^ invert
  else false

/-- What the panel exports decodes to the bytes of its display RAM. -/
lemma decode_getGram (panel : Panel.State) :
    Hex.decode (Panel.getGram panel) = some (gramBytes panel.gram) := Hex.decode_encode _

/-- The pixels made of what the panel exports are those that are lit. -/
lemma panelPixels_lit (panel : Panel.State) (invert : Bool) :
    panelPixels (Panel.getGram panel) invert = .ok (screen (lit panel.gram invert)) :=
  panelPixels_getGram panel invert

/-- The picture of bytes that unpack is made of their pixels. -/
lemma picture_of_unpack {invert : Bool} {status frame : List UInt8} {scale : ℕ} {pixels : Pixels}
    (h : unpack status frame = .ok pixels) :
    picture invert (status, frame) scale = some (encodePng (applyPanel invert pixels) scale) := by
  simp only [picture, h]

/-- The picture of the display RAM. -/
lemma picture_gram (gram : Fin 8 → Fin 128 → UInt8) (invert : Bool) (scale : ℕ) :
    picture invert (split (gramBytes gram)) scale =
      some (encodePng (screen (lit gram invert)) scale) := by
  have hpixels := panelPixels_lit { Panel.reset with gram := gram } invert
  have hlen : (gramBytes gram).length = totalRows * lcdWidth := by
    simp [gramBytes, List.length_flatMap, totalRows, lcdWidth]
  rw [panelPixels, decode_getGram] at hpixels
  dsimp only at hpixels
  rw [if_neg (not_not.mpr hlen), unpack_eq hlen] at hpixels
  rw [split, picture_of_unpack (unpack_eq hlen)]
  exact congrArg (fun pixels => some (encodePng pixels scale)) (Except.ok.inj hpixels)

/-- The first bytes of lines that are repeated. -/
lemma getElem?_replicate_flatten {α : Type} {n : ℕ} (hn : 0 < n) {xs : List α} {i : ℕ}
    (hi : i < xs.length) : (List.replicate n xs).flatten[i]? = xs[i]? := by
  cases n with
  | zero => exact absurd hn (Nat.lt_irrefl 0)
  | succ n => rw [List.replicate_succ, List.flatten_cons, List.getElem?_append_left hi]

/-- Where a pixel is in the lines of its row. -/
lemma getElem?_encodeRow {scale : ℕ} (hscale : 0 < scale) {row : List ℕ} {x : ℕ} {value : ℕ}
    (hvalue : row[x]? = some value) :
    (encodeRow scale row)[1 + x * scale]? = some (if value ≠ 0 then 0x00 else 0xff) := by
  have hlen : ∀ value : ℕ,
      (List.replicate scale (if value ≠ 0 then (0x00 : UInt8) else 0xff)).length = scale :=
    fun _ => List.length_replicate
  have hat := getElem?_flatMap_of_length hlen row x hscale
  rw [Nat.add_zero, hvalue, Option.bind_some, List.getElem?_replicate_of_lt hscale] at hat
  obtain ⟨hlt, -⟩ := List.getElem?_eq_some_iff.mp hat
  rw [encodeRow, getElem?_replicate_flatten hscale (by rw [List.length_cons]; omega), Nat.add_comm,
    List.getElem?_cons_succ, hat]

/-- A row is as long as its pixels, scaled, and its filter byte, as many times as the scale says. -/
lemma length_encodeRow (scale : ℕ) (row : List ℕ) :
    (encodeRow scale row).length = scale * (1 + row.length * scale) := by
  simp [encodeRow, List.length_flatMap, Nat.add_comm]

/-- **Different screens have different pictures**, unless the pictures have no size. -/
theorem encodePng_screen_inj {scale : ℕ} (hscale : 0 < scale) {f g : ℕ → ℕ → Bool}
    (h : encodePng (screen f) scale = encodePng (screen g) scale) {y x : ℕ} (hy : y < lcdHeight)
    (hx : x < lcdWidth) : f y x = g y x := by
  have hlines := congrArg Png.scanlines h
  -- Byte `1 + x * scale` of the first line of row `y`.
  have hbyte : ∀ f : ℕ → ℕ → Bool, ((screen f).flatMap (encodeRow scale))[
      y * (scale * (1 + lcdWidth * scale)) + (1 + x * scale)]? =
      some (if (f y x).toNat ≠ 0 then 0x00 else 0xff) := by
    intro f
    have hrows : (screen f).flatMap (encodeRow scale) =
        (List.range lcdHeight).flatMap fun y => encodeRow scale
          ((List.range lcdWidth).map fun x => (f y x).toNat) := by
      rw [screen, List.flatMap_map]
    have hlen : ∀ y, (encodeRow scale ((List.range lcdWidth).map fun x => (f y x).toNat)).length =
        scale * (1 + lcdWidth * scale) := by
      intro y
      rw [length_encodeRow, List.length_map, List.length_range]
    have hin : 1 + x * scale < scale * (1 + lcdWidth * scale) := by
      have hcol : (x + 1) * scale ≤ lcdWidth * scale := Nat.mul_le_mul_right scale hx
      have hrow : 1 * (1 + lcdWidth * scale) ≤ scale * (1 + lcdWidth * scale) :=
        Nat.mul_le_mul_right _ hscale
      rw [Nat.succ_mul] at hcol
      omega
    rw [hrows, getElem?_flatMap_of_length hlen _ _ hin, List.getElem?_range hy, Option.bind_some]
    exact getElem?_encodeRow hscale (by rw [List.getElem?_map, List.getElem?_range hx]; rfl)
  have hsame := (hbyte f).symm.trans ((congrArg (·[_]?) hlines).trans (hbyte g))
  revert hsame
  cases f y x <;> cases g y x <;> decide

/-- At scale zero a picture is empty, whatever its pixels are. -/
lemma encodePng_zero (pixels : Pixels) : encodePng pixels 0 = ⟨0, 0, []⟩ := by
  simp [encodePng, encodeRow]

/-- Different display RAM has different pictures, unless the pictures have no size. -/
lemma encodePng_lit_inj {scale : ℕ} (hscale : 0 < scale) {gram gram' : Fin 8 → Fin 128 → UInt8}
    {invert : Bool}
    (h : encodePng (screen (lit gram invert)) scale = encodePng (screen (lit gram' invert)) scale) :
    gram = gram' := by
  refine funext fun page => funext fun col => UInt8.toNat_inj.mp (Nat.eq_of_testBit_eq fun i => ?_)
  rcases Nat.lt_or_ge i 8 with hi | hi
  · have hpage : (page.val * 8 + i) / 8 = page.val := by omega
    have hbit : (page.val * 8 + i) % 8 = i := by omega
    have hy : page.val * 8 + i < lcdHeight := by
      have hlt := page.isLt
      rw [lcdHeight, totalRows]
      omega
    have hsame := encodePng_screen_inj hscale h hy col.isLt
    have hin : (page.val * 8 + i) / 8 < 8 ∧ col.val < 128 :=
      ⟨by rw [hpage]; exact page.isLt, col.isLt⟩
    rw [lit, lit, dif_pos hin, dif_pos hin, Bool.xor_left_inj, hbit] at hsame
    simpa only [hpage] using hsame
  · have hlt : ∀ b : UInt8, b.toNat < 2 ^ i := fun b =>
      Nat.lt_of_lt_of_le b.toNat_lt (Nat.pow_le_pow_right (by decide) hi)
    rw [Nat.testBit_lt_two_pow (hlt _), Nat.testBit_lt_two_pow (hlt _)]

/-- A screen and its inverse have different pictures, unless the pictures have no size. -/
lemma encodePng_invert_inj {scale : ℕ} (hscale : 0 < scale) {gram : Fin 8 → Fin 128 → UInt8}
    {invert invert' : Bool}
    (h : encodePng (screen (lit gram invert)) scale = encodePng (screen (lit gram invert')) scale) :
    invert = invert' := by
  have hsame := encodePng_screen_inj hscale h (y := 0) (x := 0) (by decide) (by decide)
  have hin : 0 / 8 < 8 ∧ 0 < 128 := ⟨by decide, by decide⟩
  rw [lit, lit, dif_pos hin, dif_pos hin] at hsame
  exact Bool.xor_right_inj.mp hsame

/-- The status line and the frame give back the bytes they were split from. -/
lemma split_inj {gram gram' : List UInt8} (h : split gram = split gram') : gram = gram' := by
  rw [← List.take_append_drop statusBytes gram, ← List.take_append_drop statusBytes gram']
  exact congrArg₂ (· ++ ·) (congrArg Prod.fst h) (congrArg Prod.snd h)

/-! ## The steps of the thread while the panel answers -/

section Panel

variable {s : State} {g : Grabber} {panel : Panel.State}

/-- An iteration begins with the grabber. -/
lemma advance_idle (hphase : s.phase = .idle) (hg : s.grabber = some g) :
    advance s = { s with phase := .fetched g } := by
  simp [advance, hphase, hg]

/-- Then the thread asks for the display RAM. -/
lemma advance_fetched (hphase : s.phase = .fetched g)
    (hpanel : (s.guest g.client).panel = .ok panel) :
    advance s = { s with phase := .gram g (Panel.getGram panel) } := by
  simp [advance, hphase, hpanel]

/-- Then it asks for the inversion flag. -/
lemma advance_gram {hexed : List Char} (hphase : s.phase = .gram g hexed)
    (hpanel : (s.guest g.client).panel = .ok panel) :
    advance s = { s with phase := .inverted g hexed panel.invert } := by
  simp [advance, hphase, hpanel]

/-- Then it draws the pixels of what it has read. -/
lemma advance_inverted {first : Panel.State} {invert : Bool}
    (hphase : s.phase = .inverted g (Panel.getGram first) invert)
    (hpanel : (s.guest g.client).panel = .ok panel) :
    advance s = { s with
      phase := .drawn g (split (gramBytes first.gram)) (screen (lit first.gram invert)) } := by
  simp [advance, hphase, hpanel, draw, panelPixels_lit, decode_getGram]

/-- Then it asks for the display RAM again, for the bytes it compares. -/
lemma advance_drawn {bytes : Raw} {pixels : Pixels} (hphase : s.phase = .drawn g bytes pixels)
    (hpanel : (s.guest g.client).panel = .ok panel) :
    advance s = { s with
      source := some .panel
      note := none
      phase := .grabbed g bytes (split (gramBytes panel.gram)) pixels } := by
  simp [advance, hphase, hpanel, decode_getGram]

/-- Then it stores the picture. -/
lemma advance_grabbed {bytes current : Raw} {pixels : Pixels}
    (hphase : s.phase = .grabbed g bytes current pixels) :
    advance s = publish s g current pixels := by
  simp [advance, hphase]

/-- The first four steps of an iteration, while the panel stays as it is. -/
lemma advance_four (hphase : s.phase = .idle) (hg : s.grabber = some g)
    (hpanel : (s.guest g.client).panel = .ok panel) :
    advance^[4] s = { s with
      phase := .drawn g (split (gramBytes panel.gram)) (screen (lit panel.gram panel.invert)) } := by
  simp only [Function.iterate_succ, Function.iterate_zero, Function.comp_apply, id_eq]
  rw [advance_idle hphase hg,
    advance_fetched (s := { s with phase := .fetched g }) rfl hpanel,
    advance_gram (s := { s with phase := .gram g (Panel.getGram panel) }) rfl hpanel,
    advance_inverted (s := { s with phase := .inverted g (Panel.getGram panel) panel.invert }) rfl
      hpanel]

/-- **One iteration** while the panel stays as it is: the bytes of the display RAM are compared, and
the picture of the panel is stored if they are new. -/
theorem iteration (hphase : s.phase = .idle) (hg : s.grabber = some g)
    (hpanel : (s.guest g.client).panel = .ok panel) :
    advance^[6] s = publish
      { s with
        source := some .panel
        note := none
        phase := .grabbed g (split (gramBytes panel.gram)) (split (gramBytes panel.gram))
          (screen (lit panel.gram panel.invert)) }
      g (split (gramBytes panel.gram)) (screen (lit panel.gram panel.invert)) := by
  rw [Function.iterate_add_apply advance 2 4, advance_four hphase hg hpanel]
  simp only [Function.iterate_succ, Function.iterate_zero, Function.comp_apply, id_eq]
  rw [advance_drawn (s := { s with
      phase := .drawn g (split (gramBytes panel.gram)) (screen (lit panel.gram panel.invert)) }) rfl
      hpanel, advance_grabbed rfl]

end Panel

/-! ## A guest that draws -/

/-- The guest writes to the display RAM. -/
def Guest.draw (guest : Guest) (gram : Fin 8 → Fin 128 → UInt8) : Guest :=
  { guest with panel := guest.panel.map fun panel => { panel with gram := gram } }

/-- What happens while a guest draws. -/
inductive Turn where
  /-- The thread goes on. -/
  | advance
  /-- The display RAM changes. -/
  | draw (gram : Fin 8 → Fin 128 → UInt8)

/-- One step. -/
def turn (client : Client) (s : State) : Turn → State
  | .advance => step s .advance
  | .draw gram => step s (.guest client ((s.guest client).draw gram))

/-- A pump with a client whose panel answers. -/
def State.watching (client : Client) (panel : Panel.State) (memory : Except String (ℕ → UInt8))
    (frameAddr statusAddr scale : ℕ) : State :=
  .new (some client) frameAddr statusAddr scale fun _ => ⟨.ok panel, memory⟩

/-- The picture is that of the bytes that are stored with it. -/
def Whole (invert : Bool) (s : State) : Prop :=
  ∀ png, s.png = some png → ∃ raw, s.raw = some raw ∧ picture invert raw s.scale = some png

/-- If the step stores a picture, the two reads of the display RAM gave the same. -/
def Untorn (s : State) (t : Turn) : Prop :=
  t = .advance → 0 < s.scale → ∀ g bytes current pixels, Publishes s g bytes current pixels →
    bytes = current

/-- What the thread holds comes from the panel. -/
def Phase.FromPanel (invert : Bool) : Phase → Prop
  | .idle => True
  | .fetched _ => True
  | .gram _ hexed => ∃ panel, hexed = Panel.getGram panel
  | .inverted _ hexed invert' => invert' = invert ∧ ∃ panel, hexed = Panel.getGram panel
  | .drawn _ bytes pixels =>
    ∃ gram, bytes = split (gramBytes gram) ∧ pixels = screen (lit gram invert)
  | .fallback _ => False
  | .saved _ _ => False
  | .grabbed _ bytes current pixels =>
    ∃ gram gram', bytes = split (gramBytes gram) ∧ current = split (gramBytes gram') ∧
      pixels = screen (lit gram invert)

/-- A pump that stays at a client whose panel answers, with one inversion. -/
structure Watches (client : Client) (invert : Bool) (s : State) : Prop where
  /-- The grabber. -/
  grabber : ∃ g, s.grabber = some g ∧ g.client = client
  /-- The thread uses it. -/
  holds : ∀ g ∈ s.phase.grabber, g.client = client
  /-- The panel answers. -/
  panel : ∃ panel, (s.guest client).panel = .ok panel ∧ panel.invert = invert
  /-- What the thread has read. -/
  phase : s.phase.FromPanel invert
  /-- There is a picture as soon as there are bytes. -/
  shown : s.raw.isSome = true → s.png.isSome = true

/-- A guest that draws after the first four steps of an iteration. -/
def tearing (gram : Fin 8 → Fin 128 → UInt8) : List Turn :=
  [.advance, .advance, .advance, .advance, .draw gram, .advance]

/-- What the guest draws then is what the thread compares. -/
lemma run_tearing {s : State} {g : Grabber} {panel : Panel.State} (hphase : s.phase = .idle)
    (hg : s.grabber = some g) (hpanel : (s.guest g.client).panel = .ok panel)
    (gram : Fin 8 → Fin 128 → UInt8) :
    (tearing gram).foldl (turn g.client) s = { s with
      source := some .panel
      note := none
      guest := Function.update s.guest g.client ((s.guest g.client).draw gram)
      phase := .grabbed g (split (gramBytes panel.gram)) (split (gramBytes gram))
        (screen (lit panel.gram panel.invert)) } := by
  have hfour : (tearing gram).foldl (turn g.client) s =
      advance (turn g.client (advance^[4] s) (.draw gram)) := by
    simp only [tearing, List.foldl_cons, List.foldl_nil, turn, step, Function.iterate_succ,
      Function.iterate_zero, Function.comp_apply, id_eq]
  have hdrawn : ((Function.update s.guest g.client ((s.guest g.client).draw gram))
      g.client).panel = .ok { panel with gram := gram } := by
    simp [Guest.draw, hpanel, Except.map]
  rw [hfour, advance_four hphase hg hpanel]
  simp only [turn, step]
  rw [advance_drawn rfl hdrawn]

section Watches

variable {client : Client} {invert : Bool} {s : State}

/-- A pump that has just been put at a client whose panel answers. -/
lemma watches_watching (client : Client) (panel : Panel.State)
    (memory : Except String (ℕ → UInt8)) (frameAddr statusAddr scale : ℕ) :
    Watches client panel.invert (.watching client panel memory frameAddr statusAddr scale) :=
  ⟨⟨_, rfl, rfl⟩, nofun, ⟨panel, rfl, rfl⟩, trivial, nofun⟩

/-- A panel that draws stays one that answers, with the same inversion. -/
lemma Watches.draw (h : Watches client invert s) (gram : Fin 8 → Fin 128 → UInt8) :
    Watches client invert (turn client s (.draw gram)) := by
  obtain ⟨panel, hpanel, hinvert⟩ := h.panel
  refine ⟨h.grabber, h.holds, ⟨{ panel with gram := gram }, ?_, hinvert⟩, h.phase, h.shown⟩
  simp [turn, step, Guest.draw, hpanel, Except.map]

/-- The thread stays on the panel.

**Proof sketch.** By the phase. In each the panel answers, so the thread reads the display RAM,
the settings and the RAM again, and never falls back to the memory of the guest. -/
lemma Watches.fromPanel (h : Watches client invert s) : (advance s).phase.FromPanel invert := by
  obtain ⟨panel, hpanel, hinvert⟩ := h.panel
  obtain ⟨g, hg, -⟩ := h.grabber
  have hphase := h.phase
  have hholds := h.holds
  cases hcase : s.phase with
  | idle =>
    rw [advance_idle hcase hg]
    trivial
  | fetched g =>
    rw [hcase] at hholds
    rw [← hholds g rfl] at hpanel
    rw [advance_fetched hcase hpanel]
    exact ⟨panel, rfl⟩
  | gram g hexed =>
    rw [hcase] at hholds hphase
    rw [← hholds g rfl] at hpanel
    rw [advance_gram hcase hpanel]
    exact ⟨hinvert, hphase⟩
  | inverted g hexed invert' =>
    rw [hcase] at hholds hphase
    obtain ⟨rfl, first, rfl⟩ := hphase
    rw [← hholds g rfl] at hpanel
    rw [advance_inverted hcase hpanel]
    exact ⟨first.gram, rfl, rfl⟩
  | drawn g bytes pixels =>
    rw [hcase] at hholds hphase
    obtain ⟨gram, hbytes, hpixels⟩ := hphase
    rw [← hholds g rfl] at hpanel
    rw [advance_drawn hcase hpanel]
    exact ⟨gram, panel.gram, hbytes, rfl, hpixels⟩
  | fallback g =>
    rw [hcase] at hphase
    exact hphase.elim
  | saved g frame =>
    rw [hcase] at hphase
    exact hphase.elim
  | grabbed g bytes current pixels =>
    rw [advance_grabbed hcase, publish]
    split
    · trivial
    · trivial

/-- A step of the thread leaves the pump at its client. -/
lemma Watches.advance (h : Watches client invert s) : Watches client invert (advance s) := by
  have hframe := frame_advance s
  refine ⟨?_, fun g hg => ?_, ?_, h.fromPanel, fun hraw => ?_⟩
  · rw [hframe.grabber]
    exact h.grabber
  · rcases advance_cases s with hmoves | ⟨g', bytes, current, pixels, -, hstored⟩
    · rcases hmoves.holds with hnone | hsame | ⟨-, htaken⟩
      · rw [hnone] at hg
        cases hg
      · exact h.holds g (hsame ▸ hg)
      · obtain ⟨g', hg', hclient⟩ := h.grabber
        rw [htaken, hg'] at hg
        rwa [← Option.some.inj hg]
    · rw [hstored] at hg
      cases hg
  · rw [hframe.guest]
    exact h.panel
  · rcases advance_cases s with hmoves | ⟨g', bytes, current, pixels, -, hstored⟩
    · rw [hmoves.raw] at hraw
      rw [hmoves.png]
      exact h.shown hraw
    · rw [hstored]
      rfl

/-- A turn of either leaves the pump at its client. -/
lemma Watches.turn (h : Watches client invert s) (t : Turn) :
    Watches client invert (turn client s t) := by
  cases t with
  | advance => exact h.advance
  | draw gram => exact h.draw gram

/-- A run leaves the pump at its client. -/
lemma Watches.run (h : Watches client invert s) (turns : List Turn) :
    Watches client invert (turns.foldl (Pump.turn client) s) := by
  induction turns generalizing s with
  | nil => exact h
  | cons t turns ih => exact ih (h.turn t)

/-- A step of the thread that stores a picture. -/
lemma Watches.stored (h : Watches client invert s) {g : Grabber} {bytes current : Raw}
    {pixels : Pixels} (hpublishes : Publishes s g bytes current pixels) :
    ∃ gram gram', bytes = split (gramBytes gram) ∧ current = split (gramBytes gram') ∧
      (Pump.advance s).raw = some (split (gramBytes gram')) ∧ (Pump.advance s).scale = s.scale ∧
      (Pump.advance s).png = some (encodePng (screen (lit gram invert)) s.scale) := by
  have hphase := h.phase
  rw [hpublishes.1] at hphase
  obtain ⟨gram, gram', hbytes, hcurrent, hpixels⟩ := hphase
  refine ⟨gram, gram', hbytes, hcurrent, ?_⟩
  rw [advance_grabbed hpublishes.1, publish, if_pos hpublishes.2, hcurrent, hpixels]
  exact ⟨rfl, rfl, rfl⟩

/-- A picture stays that of its bytes if the two reads gave the same. -/
lemma whole_turn (h : Watches client invert s) (hwhole : Whole invert s) {t : Turn}
    (ht : Untorn s t) : Whole invert (Pump.turn client s t) := by
  cases t with
  | draw gram => exact hwhole
  | advance =>
    rcases advance_cases s with hmoves | ⟨g, bytes, current, pixels, hpublishes, -⟩
    · intro png hpng
      change (Pump.advance s).png = some png at hpng
      rw [hmoves.png] at hpng
      obtain ⟨raw, hraw, hpicture⟩ := hwhole png hpng
      exact ⟨raw, hmoves.raw.trans hraw, by
        change picture invert raw (Pump.advance s).scale = some png
        rwa [hmoves.scale]⟩
    · obtain ⟨gram, gram', hbytes, hcurrent, hraw, hscale, hpng⟩ := h.stored hpublishes
      intro png hstored
      refine ⟨_, hraw, ?_⟩
      change picture invert _ (Pump.advance s).scale = some png
      rw [hscale, picture_gram, ← hstored]
      refine Eq.trans ?_ hpng.symm
      rcases Nat.eq_zero_or_pos s.scale with hzero | hpos
      · rw [hzero, encodePng_zero, encodePng_zero]
      · have hsame := ht rfl hpos g bytes current pixels hpublishes
        rw [hbytes, hcurrent] at hsame
        have hgram : gramBytes gram = gramBytes gram' := split_inj hsame
        have hpictures := (picture_gram gram' invert s.scale).symm.trans
          ((congrArg (fun bytes => picture invert (split bytes) s.scale) hgram.symm).trans
            (picture_gram gram invert s.scale))
        exact hpictures

/-- A picture of another display RAM than the bytes stored with it is not theirs. -/
lemma not_whole_turn (h : Watches client invert s) {t : Turn} (ht : ¬ Untorn s t) :
    ¬ Whole invert (Pump.turn client s t) := by
  intro hwhole
  refine ht ?_
  rintro rfl hpos g bytes current pixels hpublishes
  obtain ⟨gram, gram', hbytes, hcurrent, hraw, hscale, hpng⟩ := h.stored hpublishes
  obtain ⟨raw, hraw', hpicture⟩ := hwhole _ hpng
  change (Pump.advance s).raw = some raw at hraw'
  change picture invert raw (Pump.advance s).scale = _ at hpicture
  rw [hraw] at hraw'
  obtain rfl := Option.some.inj hraw'
  rw [hscale, picture_gram] at hpicture
  rw [hbytes, hcurrent, encodePng_lit_inj hpos (Option.some.inj hpicture)]

/-- After one more iteration the picture is that of the panel. -/
lemma latest_iteration (h : Watches client invert s) (hwhole : Whole invert s)
    (hidle : s.phase = .idle) {panel : Panel.State} (hpanel : (s.guest client).panel = .ok panel) :
    (Pump.advance^[6] s).latest = picture invert (split (gramBytes panel.gram)) s.scale := by
  obtain ⟨g, hg, hclient⟩ := h.grabber
  obtain ⟨panel', hpanel', hinvert⟩ := h.panel
  obtain rfl := Except.ok.inj (hpanel.symm.trans hpanel')
  rw [← hclient] at hpanel
  rw [iteration hidle hg hpanel, publish]
  split
  · rw [picture_gram, hinvert]
    rfl
  · next hstays =>
    have hraw : s.raw = some (split (gramBytes panel.gram)) := by
      by_contra hne
      exact hstays ⟨by rw [hg]; rfl, hne⟩
    obtain ⟨png, hpng⟩ := Option.isSome_iff_exists.mp (h.shown (by rw [hraw]; rfl))
    obtain ⟨raw, hraw', hpicture⟩ := hwhole png hpng
    obtain rfl := Option.some.inj (hraw.symm.trans hraw')
    exact hpng.trans hpicture.symm

end Watches

/-- **When frames are whole**: while the panel answers and its inversion stays, for every
interleaving of the thread with a guest that draws, every picture is that of the display RAM stored
with it exactly if the two reads of an iteration that stores a picture give the same display RAM.
Then, once the guest stops drawing, one more iteration shows the panel as it is.

**Proof sketch.** The pixels come from the first read and the bytes from the second
(`Watches.stored`), and pictures of different display RAM differ. -/
theorem whole_iff (client : Client) (panel : Panel.State) (memory : Except String (ℕ → UInt8))
    (frameAddr statusAddr scale : ℕ) (turns : List Turn) :
    let s₀ := State.watching client panel memory frameAddr statusAddr scale
    (Run.AllStates (turn client) (Whole panel.invert) s₀ turns ↔
        Run.AllSteps (turn client) Untorn s₀ turns) ∧
      (Run.AllSteps (turn client) Untorn s₀ turns → ∀ s, s = turns.foldl (turn client) s₀ →
        s.phase = .idle → ∀ last, (s.guest client).panel = .ok last →
          (advance^[6] s).latest = picture panel.invert (split (gramBytes last.gram)) s.scale) := by
  intro s₀
  have hstart : Watches client panel.invert s₀ ∧ Whole panel.invert s₀ :=
    ⟨watches_watching client panel memory frameAddr statusAddr scale, nofun⟩
  have hok : ∀ s t, Watches client panel.invert s ∧ Whole panel.invert s → Untorn s t →
      Watches client panel.invert (turn client s t) ∧ Whole panel.invert (turn client s t) :=
    fun s t h ht => ⟨h.1.turn t, whole_turn h.1 h.2 ht⟩
  refine ⟨Run.allStates_iff_allSteps (fun _ h => h.2) hok
    (fun s t h ht => not_whole_turn h.1 ht) turns s₀ hstart, ?_⟩
  rintro huntorn s rfl hidle last hlast
  have hlast' := (Run.allStates_of_allSteps hok turns s₀ hstart huntorn).last
  exact latest_iteration hlast'.1 hlast'.2 hidle hlast

/-- The guest draws between the two reads of the first iteration: the picture that is stored is
blank, the bytes are those of the screen that was drawn. -/
theorem whole_torn :
    ¬ ∀ turns, Run.AllStates (turn (.launched 0)) (Whole false)
      (.watching (.launched 0) Panel.reset (.error "") 0 0 1) turns := by
  intro h
  have hlast := (h (tearing (fun _ _ => 0xff) ++ [.advance])).last
  have hwatches := (watches_watching (.launched 0) Panel.reset (.error "") 0 0 1).run
    (tearing fun _ _ => 0xff)
  have hrun := run_tearing (s := .watching (.launched 0) Panel.reset (.error "") 0 0 1)
    (g := ⟨0, .launched 0, 0, 0⟩) rfl rfl rfl fun _ _ => 0xff
  rw [List.foldl_append, List.foldl_cons, List.foldl_nil, hrun] at hlast
  rw [hrun] at hwatches
  refine not_whole_turn hwatches (fun huntorn => ?_) hlast
  have hsame := split_inj (huntorn rfl Nat.one_pos _ _ _ _ ⟨rfl, rfl, nofun⟩)
  exact absurd (congrArg List.head? hsame) (by decide)

/-! ## A panel that changes between iterations -/

/-- The panel changes. -/
def displays (client : Client) (s : State) (panel : Panel.State) : State :=
  step s (.guest client { s.guest client with panel := .ok panel })

/-- The pump, and the panel as it was in the last iteration. -/
structure Watched where
  /-- The pump. -/
  pump : State
  /-- The panel in the last iteration, if there was one. -/
  last : Option Panel.State

/-- The panel changes, as often as it likes, and then there is one iteration. -/
def round (client : Client) (w : Watched) (panels : List Panel.State) : Watched :=
  let s := panels.foldl (displays client) w.pump
  ⟨advance^[6] s, (s.guest client).panel.toOption⟩

/-- After an iteration, the picture is that of the panel. -/
def Current (client : Client) (w : Watched) : Prop :=
  w.last.isSome = true → ∃ panel, (w.pump.guest client).panel = .ok panel ∧
    w.pump.latest = picture panel.invert (split (gramBytes panel.gram)) w.pump.scale

/-- If the display RAM is what it was in the last iteration, so is the inversion flag. -/
def NotAlone (client : Client) (w : Watched) (panels : List Panel.State) : Prop :=
  0 < w.pump.scale → ∀ last panel, w.last = some last →
    ((panels.foldl (displays client) w.pump).guest client).panel = .ok panel →
    panel.gram = last.gram → panel.invert = last.invert

/-- The pump between two rounds. -/
structure Settled (client : Client) (w : Watched) : Prop where
  /-- The thread is between two iterations. -/
  idle : w.pump.phase = .idle
  /-- The grabber. -/
  grabber : ∃ g, w.pump.grabber = some g ∧ g.client = client
  /-- The panel answers. -/
  panel : ∃ panel, (w.pump.guest client).panel = .ok panel
  /-- Before the first iteration there are no bytes. -/
  none : w.last = none → w.pump.raw = none
  /-- After one, they are those of the panel. -/
  some : ∀ last, w.last = some last →
    (w.pump.guest client).panel = .ok last ∧ w.pump.raw = some (split (gramBytes last.gram))

section Settled

variable {client : Client} {w : Watched}

/-- The bytes of the display RAM tell the display RAM. -/
lemma gramBytes_inj {gram gram' : Fin 8 → Fin 128 → UInt8} (h : gramBytes gram = gramBytes gram') :
    gram = gram' := by
  funext page col
  have hbyte := congrArg (fun bytes => bytes.getD (page * lcdWidth + col) 0) h
  exact (getD_pages gram page col).symm.trans (hbyte.trans (getD_pages gram' page col))

/-- While the panel changes, the pump does not. -/
lemma displays_run (panels : List Panel.State) {s : State} {panel : Panel.State}
    (hpanel : (s.guest client).panel = .ok panel) :
    ∃ panel guest, panels.foldl (displays client) s = { s with guest := guest } ∧
      (guest client).panel = .ok panel := by
  induction panels generalizing s panel with
  | nil => exact ⟨panel, s.guest, rfl, hpanel⟩
  | cons p panels ih =>
    have hnext : ((displays client s p).guest client).panel = .ok p := by
      simp [displays, step]
    obtain ⟨panel', guest, hrun, hlast⟩ := ih hnext
    exact ⟨panel', guest, hrun, hlast⟩

/-- **A round**: the picture of the panel is stored, or the bytes were stored before.

**Proof sketch.** What happens at the panel before the round leaves a panel that answers. Six
steps of the thread are one iteration with it (`iteration`), and the test of `publish` decides
whether the picture is new. -/
lemma round_cases (h : Settled client w) (panels : List Panel.State) :
    ∃ panel, ((panels.foldl (displays client) w.pump).guest client).panel = .ok panel ∧
      Settled client (round client w panels) ∧
      ((round client w panels).pump.guest client).panel = .ok panel ∧
      (round client w panels).last = some panel ∧
      (round client w panels).pump.scale = w.pump.scale ∧
      (w.pump.raw ≠ some (split (gramBytes panel.gram)) ∧ (round client w panels).pump.latest =
          picture panel.invert (split (gramBytes panel.gram)) w.pump.scale ∨
        w.pump.raw = some (split (gramBytes panel.gram)) ∧
          (round client w panels).pump.latest = w.pump.latest) := by
  obtain ⟨p, hp⟩ := h.panel
  obtain ⟨g, hg, rfl⟩ := h.grabber
  obtain ⟨panel, guest, hrun, hpanel⟩ := displays_run panels hp
  have hiteration := iteration (s := { w.pump with guest := guest }) h.idle hg hpanel
  have hround : round g.client w panels =
      ⟨advance^[6] { w.pump with guest := guest }, some panel⟩ := by
    rw [round, hrun, hpanel]
    rfl
  refine ⟨panel, by rw [hrun]; exact hpanel, ?_⟩
  rw [hround, hiteration, publish]
  split
  · next hstores =>
    refine ⟨⟨rfl, ⟨g, hg, rfl⟩, ⟨panel, hpanel⟩, fun hnone => ?_, ?_⟩, hpanel, rfl, rfl,
      .inl ⟨hstores.2, ?_⟩⟩
    · cases hnone
    · intro last hlast
      obtain rfl := Option.some.inj hlast
      exact ⟨hpanel, rfl⟩
    · rw [picture_gram]
      rfl
  · next hstays =>
    have hraw : w.pump.raw = some (split (gramBytes panel.gram)) := by
      by_contra hne
      exact hstays ⟨by rw [hg]; rfl, hne⟩
    refine ⟨⟨rfl, ⟨g, hg, rfl⟩, ⟨panel, hpanel⟩, fun hnone => ?_, ?_⟩, hpanel, rfl, rfl,
      .inr ⟨hraw, rfl⟩⟩
    · cases hnone
    · intro last hlast
      obtain rfl := Option.some.inj hlast
      exact ⟨hpanel, hraw⟩

/-- When the bytes were stored before, the display RAM is that of the last iteration. -/
lemma Settled.last_of_raw (h : Settled client w) {panel : Panel.State}
    (hraw : w.pump.raw = Option.some (split (gramBytes panel.gram))) :
    ∃ last, w.last = Option.some last ∧ (w.pump.guest client).panel = .ok last ∧
      panel.gram = last.gram := by
  cases hlast : w.last with
  | none =>
    rw [h.none hlast] at hraw
    cases hraw
  | some last =>
    obtain ⟨hpanel, hraw'⟩ := h.some last hlast
    have hsame := Option.some.inj (hraw.symm.trans hraw')
    exact ⟨last, rfl, hpanel, gramBytes_inj (split_inj hsame)⟩

/-- A round keeps the picture that of the panel, if the inversion flag is not alone in changing. -/
lemma current_round (h : Settled client w) (hcurrent : Current client w) {panels : List Panel.State}
    (hpanels : NotAlone client w panels) : Current client (round client w panels) := by
  obtain ⟨panel, hfinal, -, hpanel, -, hscale, hshown⟩ := round_cases h panels
  refine fun _ => ⟨panel, hpanel, ?_⟩
  rw [hscale]
  rcases hshown with ⟨-, hnew⟩ | ⟨hraw, hsame⟩
  · exact hnew
  · obtain ⟨last, hlast, hlastPanel, hgram⟩ := h.last_of_raw hraw
    obtain ⟨last', hlast', hpicture⟩ := hcurrent (by rw [hlast]; rfl)
    obtain rfl := Except.ok.inj (hlastPanel.symm.trans hlast')
    rw [hsame, hpicture, hgram, picture_gram, picture_gram]
    rcases Nat.eq_zero_or_pos w.pump.scale with hzero | hpos
    · rw [hzero, encodePng_zero, encodePng_zero]
    · rw [hpanels hpos last panel hlast hfinal hgram]

/-- A round in which the inversion flag alone changes leaves a picture that is not that of the
panel. -/
lemma not_current_round (h : Settled client w) (hcurrent : Current client w)
    {panels : List Panel.State} (hpanels : ¬ NotAlone client w panels) :
    ¬ Current client (round client w panels) := by
  intro hnext
  refine hpanels fun hpos last panel hlast hfinal hgram => ?_
  obtain ⟨panel', hfinal', -, hpanel, hlast', hscale, hshown⟩ := round_cases h panels
  obtain rfl := Except.ok.inj (hfinal.symm.trans hfinal')
  obtain ⟨shown, hshownPanel, hpicture⟩ := hnext (by rw [hlast']; rfl)
  obtain rfl := Except.ok.inj (hpanel.symm.trans hshownPanel)
  obtain ⟨hlastPanel, hraw⟩ := h.some last hlast
  obtain ⟨last', hlastPanel', hlastPicture⟩ := hcurrent (by rw [hlast]; rfl)
  obtain rfl := Except.ok.inj (hlastPanel.symm.trans hlastPanel')
  rcases hshown with ⟨hnew, -⟩ | ⟨-, hsame⟩
  · exact absurd (by rw [hgram]; exact hraw) hnew
  · rw [hscale, hsame, hlastPicture, hgram, picture_gram, picture_gram] at hpicture
    exact (encodePng_invert_inj hpos (Option.some.inj hpicture)).symm

end Settled

/-- **When the picture is that of the panel**: while the panel answers, for every history of its
display RAM and of its inversion flag between iterations, the picture after each iteration is that
of the panel exactly if the inversion flag never changes from one iteration to the next while the
display RAM stays.

**Proof sketch.** The bytes that are compared are those of the display RAM alone. So an iteration
that finds the display RAM of the last one stores nothing (`round_cases`), and the picture keeps the
inversion it had. -/
theorem current_iff (client : Client) (panel : Panel.State) (memory : Except String (ℕ → UInt8))
    (frameAddr statusAddr scale : ℕ) (history : List (List Panel.State)) :
    let w₀ : Watched := ⟨.watching client panel memory frameAddr statusAddr scale, none⟩
    Run.AllStates (round client) (Current client) w₀ history ↔
      Run.AllSteps (round client) (NotAlone client) w₀ history := by
  intro w₀
  have hstart : Settled client w₀ ∧ Current client w₀ :=
    ⟨⟨rfl, ⟨_, rfl, rfl⟩, ⟨panel, rfl⟩, fun _ => rfl, nofun⟩, nofun⟩
  refine Run.allStates_iff_allSteps (I := fun w => Settled client w ∧ Current client w)
    (fun _ h => h.2) (fun w panels h hpanels => ?_)
    (fun w panels h hpanels => not_current_round h.1 h.2 hpanels)
    history w₀ hstart
  obtain ⟨-, -, hsettled, -⟩ := round_cases h.1 panels
  exact ⟨hsettled, current_round h.1 h.2 hpanels⟩

/-- A pump at a panel that is blank. -/
def blank : Watched := ⟨.watching (.launched 0) Panel.reset (.error "") 0 0 1, none⟩

/-- The panel is inverted while the display RAM stays: the picture is not. -/
theorem current_inverted_alone :
    ¬ ∀ history, Run.AllStates (round (.launched 0)) (Current (.launched 0)) blank history := by
  intro h
  have hstart : Settled (.launched 0) blank :=
    ⟨rfl, ⟨_, rfl, rfl⟩, ⟨Panel.reset, rfl⟩, fun _ => rfl, nofun⟩
  obtain ⟨panel, hpanel, hsettled, -, hlast, hscale, -⟩ := round_cases hstart []
  obtain rfl : Panel.reset = panel := Except.ok.inj hpanel
  have halone : ¬ NotAlone (.launched 0) (round (.launched 0) blank [])
      [{ Panel.reset with invert := true }] := by
    intro hnot
    have hchanged := hnot (by rw [hscale]; exact Nat.one_pos) Panel.reset
      { Panel.reset with invert := true } hlast (by simp [displays, step]) rfl
    cases hchanged
  have hfirst := (h [[]]).last
  have hsecond := (h [[], [{ Panel.reset with invert := true }]]).last
  rw [List.foldl_cons, List.foldl_nil] at hfirst
  rw [List.foldl_cons, List.foldl_cons, List.foldl_nil] at hsecond
  exact not_current_round hsettled hfirst halone hsecond

end Uvk5.Pump
