import Mathlib.Data.Nat.Bitwise
import Mathlib.Order.Fin.Basic
import Uvk5.Display.Panel

set_option relaxedAutoImplicit false
set_option autoImplicit false

/-!
# The screen as the host sees it (`tools/uvk5_lcd.py`)

The host reads the panel's display RAM as a string of hex digits and its inversion flag, and unpacks
the bytes, eight pixels high each, to rows of pixels.

## Main definitions

* `Display.unpack` — column-major bytes to rows of pixels.
* `Display.panelPixels` — the screen, from what the controller reports.
* `Display.Item`, `Display.send` — what a driver sends to draw a screen.

## Main results

* `Display.unpack_eq` — the pixels of an unpacked screen.
* `Display.panelPixels_send` — a screen that was sent, in any order of its pages, is what the host
  shows.
-/

namespace Uvk5.Display

open Panel

/-- `LCD_WIDTH`. -/
def lcdWidth : ℕ := 128
/-- `TOTAL_ROWS`. -/
def totalRows : ℕ := 8
/-- `LCD_HEIGHT`. -/
def lcdHeight : ℕ := totalRows * 8
/-- `STATUS_BYTES`. -/
def statusBytes : ℕ := lcdWidth

/-- Rows of pixels. -/
abbrev Pixels := List (List ℕ)

/-- The exceptions `panel_pixels` raises. -/
inductive PixelError where
  /-- `bytes.fromhex` on something else. -/
  | notHex
  /-- The display RAM has another size. -/
  | size (length : ℕ)
  /-- A subscript past the end. -/
  | index
  deriving DecidableEq

/-- `pixels[row][col] = 1`. -/
def setPixel (pixels : Pixels) (row col : ℕ) : Pixels := pixels.modify row fun line => line.set col 1

/-- The eight pixels of one byte. -/
def unpackByte (pixels : Pixels) (page col : ℕ) (byte : UInt8) : Pixels :=
  (List.range 8).foldl (fun pixels bit =>
    if byte.toNat &&& (1 <<< bit) ≠ 0 then setPixel pixels (page * 8 + bit) col else pixels) pixels

/-- The columns of one page. -/
def unpackPage (pixels : Pixels) (page : ℕ) (src : List UInt8) : Except PixelError Pixels :=
  (List.range lcdWidth).foldlM (fun pixels col =>
    match src[col]? with
    | none => .error .index
    | some byte => .ok (unpackByte pixels page col byte)) pixels

/-- `unpack`. -/
def unpack (status frame : List UInt8) : Except PixelError Pixels :=
  (List.range totalRows).foldlM (fun pixels page =>
    unpackPage pixels page
      (if page = 0 then status
        else (frame.drop ((page - 1) * lcdWidth)).take (page * lcdWidth - (page - 1) * lcdWidth)))
    (List.replicate lcdHeight (List.replicate lcdWidth 0))

/-- `_apply_panel`, with the inversion flag the panel reports. -/
def applyPanel (invert : Bool) (pixels : Pixels) : Pixels :=
  if invert then pixels.map fun row => row.map fun value => 1 - value else pixels

/-- `FrameGrabber.panel_pixels`, from the `gram` and `invert` properties of the panel. -/
def panelPixels (hexed : List Char) (invert : Bool) : Except PixelError Pixels :=
  match Hex.decode hexed with
  | none => .error .notHex
  | some gram =>
    if gram.length ≠ totalRows * lcdWidth then .error (.size gram.length)
    else (unpack (gram.take statusBytes) (gram.drop statusBytes)).map (applyPanel invert)

/-! ## Unpacking -/

/-- The screen whose lit pixels are given by `f`. -/
def screen (f : ℕ → ℕ → Bool) : Pixels :=
  (List.range lcdHeight).map fun y => (List.range lcdWidth).map fun x => (f y x).toNat

/-- Screens with the same pixels are the same. -/
lemma screen_congr {f g : ℕ → ℕ → Bool} (h : ∀ y < lcdHeight, ∀ x < lcdWidth, f y x = g y x) :
    screen f = screen g := by
  refine List.map_congr_left fun y hy => List.map_congr_left fun x hx => ?_
  rw [h y (List.mem_range.mp hy) x (List.mem_range.mp hx)]

/-- A pixel that is set is lit besides the others. -/
lemma setPixel_screen (f : ℕ → ℕ → Bool) (row col : ℕ) :
    setPixel (screen f) row col = screen fun y x => decide (y = row ∧ x = col) || f y x := by
  refine List.ext_getElem (by simp [setPixel, screen]) fun y hy hy' => ?_
  simp only [setPixel, screen, List.getElem_modify, List.getElem_map, List.getElem_range]
  split
  · next hrow =>
    refine List.ext_getElem (by simp) fun x hx hx' => ?_
    simp only [List.getElem_set, List.getElem_map, List.getElem_range]
    split
    · next hcol => simp [hrow, hcol]
    · next hcol => simp [Ne.symm hcol]
  · next hrow => simp [Ne.symm hrow]

/-- The eight pixels of one byte are lit where its bits are set. -/
lemma unpackByte_screen (f : ℕ → ℕ → Bool) (page col : ℕ) (byte : UInt8) :
    unpackByte (screen f) page col byte =
      screen fun y x => decide (y / 8 = page ∧ x = col) && byte.toNat.testBit (y % 8) || f y x := by
  have hbits : ∀ n ≤ 8, (List.range n).foldl (fun pixels bit =>
      if byte.toNat &&& (1 <<< bit) ≠ 0 then setPixel pixels (page * 8 + bit) col else pixels)
      (screen f) = screen fun y x =>
        decide (y / 8 = page ∧ x = col ∧ y % 8 < n) && byte.toNat.testBit (y % 8) || f y x := by
    intro n hn
    induction n with
    | zero => exact screen_congr fun y _ x _ => by simp
    | succ n ih =>
      have hbit : byte.toNat &&& (1 <<< n) ≠ 0 ↔ byte.toNat.testBit n = true := by
        rw [Nat.one_shiftLeft, Nat.and_two_pow]
        cases byte.toNat.testBit n <;> simp
      rw [List.range_succ, List.foldl_append, ih (by omega), List.foldl_cons, List.foldl_nil]
      split
      · next hset =>
        rw [setPixel_screen]
        refine screen_congr fun y _ x _ => ?_
        have hrow : y = page * 8 + n ↔ y / 8 = page ∧ y % 8 = n := by omega
        have hlt : y % 8 < n + 1 ↔ y % 8 < n ∨ y % 8 = n := by omega
        simp only [hrow, hlt]
        grind
      · next hclear =>
        refine screen_congr fun y _ x _ => ?_
        have hlt : y % 8 < n + 1 ↔ y % 8 < n ∨ y % 8 = n := by omega
        grind
  rw [unpackByte, hbits 8 le_rfl]
  refine screen_congr fun y _ x _ => ?_
  have hlt : y % 8 < 8 := Nat.mod_lt _ (by decide)
  simp only [hlt, and_true]

/-- The columns of one page. -/
lemma unpackPage_screen (f : ℕ → ℕ → Bool) (page : ℕ) {src : List UInt8}
    (hsrc : src.length = lcdWidth) :
    unpackPage (screen f) page src = .ok (screen fun y x =>
      decide (y / 8 = page) && (src.getD x 0).toNat.testBit (y % 8) || f y x) := by
  have hcols : ∀ n ≤ lcdWidth, (List.range n).foldlM (fun pixels col =>
      match src[col]? with
      | none => .error .index
      | some byte => .ok (unpackByte pixels page col byte)) (screen f) =
      (.ok (screen fun y x =>
        decide (y / 8 = page ∧ x < n) && (src.getD x 0).toNat.testBit (y % 8) || f y x) :
        Except PixelError Pixels) := by
    intro n hn
    induction n with
    | zero => exact congrArg Except.ok (screen_congr fun y _ x _ => by simp)
    | succ n ih =>
      have hget : src[n]? = some (src.getD n 0) := by
        rw [List.getD_eq_getElem _ _ (by omega), List.getElem?_eq_getElem (by omega)]
      rw [List.range_succ, List.foldlM_append, ih (by omega)]
      simp only [bind, Except.bind, List.foldlM_cons, List.foldlM_nil, hget, pure, Except.pure,
        unpackByte_screen]
      refine congrArg Except.ok (screen_congr fun y _ x _ => ?_)
      have hlt : x < n + 1 ↔ x < n ∨ x = n := by omega
      grind
  rw [unpackPage, hcols _ le_rfl]
  refine congrArg Except.ok (screen_congr fun y _ x hx => ?_)
  simp only [hx, and_true]

/-- **The pixels of an unpacked screen**: bit `y % 8` of byte `x` of page `y / 8`.

**Proof sketch.** The pages from the top are unpacked by `unpackPage_screen`; the status line is
page 0 of the display RAM and the frame the seven pages after it, so page `p` is always the 128
bytes from `128 * p` on. -/
theorem unpack_eq {gram : List UInt8} (hlen : gram.length = totalRows * lcdWidth) :
    unpack (gram.take statusBytes) (gram.drop statusBytes) = .ok (screen fun y x =>
      (gram.getD (y / 8 * lcdWidth + x) 0).toNat.testBit (y % 8)) := by
  have hsrc : ∀ page, (if page = 0 then gram.take statusBytes
      else ((gram.drop statusBytes).drop ((page - 1) * lcdWidth)).take
        (page * lcdWidth - (page - 1) * lcdWidth)) =
      (gram.drop (page * lcdWidth)).take lcdWidth := by
    intro page
    cases page with
    | zero => rw [if_pos rfl, Nat.zero_mul, List.drop_zero, statusBytes]
    | succ page =>
      have hat : statusBytes + page * lcdWidth = (page + 1) * lcdWidth := by
        rw [statusBytes, Nat.succ_mul, Nat.add_comm]
      have hwidth : (page + 1) * lcdWidth - page * lcdWidth = lcdWidth := by
        rw [Nat.succ_mul, Nat.add_sub_cancel_left]
      rw [if_neg (Nat.succ_ne_zero page), Nat.add_sub_cancel, List.drop_drop, hat, hwidth]
  have hpages : ∀ n ≤ totalRows, (List.range n).foldlM (fun pixels page => unpackPage pixels page
      ((gram.drop (page * lcdWidth)).take lcdWidth)) (screen fun _ _ => false) =
      .ok (screen fun y x => decide (y / 8 < n) &&
        (gram.getD (y / 8 * lcdWidth + x) 0).toNat.testBit (y % 8)) := by
    intro n hn
    induction n with
    | zero => exact congrArg Except.ok (screen_congr fun y _ x _ => by simp)
    | succ n ih =>
      have hlast : ((gram.drop (n * lcdWidth)).take lcdWidth).length = lcdWidth := by
        rw [List.length_take, List.length_drop, hlen, ← Nat.sub_mul]
        have := Nat.le_mul_of_pos_left lcdWidth (show 0 < totalRows - n by omega)
        omega
      rw [List.range_succ, List.foldlM_append, ih (by omega)]
      simp only [bind, Except.bind, List.foldlM_cons, List.foldlM_nil, pure, Except.pure,
        unpackPage_screen _ n hlast]
      refine congrArg Except.ok (screen_congr fun y _ x hx => ?_)
      have hbyte : ((gram.drop (n * lcdWidth)).take lcdWidth).getD x 0 =
          gram.getD (n * lcdWidth + x) 0 := by
        rw [List.getD_eq_getElem?_getD, List.getElem?_take_of_lt hx, List.getElem?_drop,
          List.getD_eq_getElem?_getD]
      have hlt : y / 8 < n + 1 ↔ y / 8 < n ∨ y / 8 = n := by omega
      rw [hbyte]
      grind
  have hstart : List.replicate lcdHeight (List.replicate lcdWidth 0) =
      screen fun _ _ => false := by
    rw [screen]
    simp
  rw [unpack, hstart]
  simp only [hsrc, hpages _ le_rfl]
  refine congrArg Except.ok (screen_congr fun y hy x _ => ?_)
  have hpage : y / 8 < totalRows := Nat.div_lt_of_lt_mul (by rwa [lcdHeight, Nat.mul_comm] at hy)
  rw [decide_eq_true hpage, Bool.true_and]

/-- Inversion flips every pixel. -/
lemma applyPanel_screen (invert : Bool) (f : ℕ → ℕ → Bool) :
    applyPanel invert (screen f) = screen fun y x => f y x ^^ invert := by
  cases invert with
  | false =>
    rw [applyPanel, if_neg Bool.false_ne_true]
    exact screen_congr fun y _ x _ => (Bool.xor_false _).symm
  | true =>
    rw [applyPanel, if_pos rfl, screen, List.map_map, screen]
    refine List.map_congr_left fun y _ => ?_
    rw [Function.comp_apply, List.map_map]
    refine List.map_congr_left fun x _ => ?_
    rw [Function.comp_apply]
    cases f y x <;> rfl

/-! ## From the panel to the screen -/

/-- Rows of one length after the other. -/
lemma getElem?_flatMap_of_length {α β : Type*} {f : α → List β} {m : ℕ}
    (hf : ∀ a, (f a).length = m) (rows : List α) (i : ℕ) {x : ℕ} (hx : x < m) :
    (rows.flatMap f)[i * m + x]? = rows[i]?.bind fun a => (f a)[x]? := by
  induction rows generalizing i with
  | nil => rfl
  | cons a rows ih =>
    cases i with
    | zero =>
      rw [Nat.zero_mul, Nat.zero_add, List.flatMap_cons, List.getElem?_append_left (by rwa [hf a])]
      rfl
    | succ i =>
      have hat : (i + 1) * m + x - (f a).length = i * m + x := by
        rw [hf a, Nat.succ_mul]
        omega
      rw [List.flatMap_cons, List.getElem?_append_right (by rw [hf a, Nat.succ_mul]; omega), hat, ih]
      rfl

/-- The pages of the display RAM one after the other. -/
lemma getD_pages (g : Fin 8 → Fin 128 → UInt8) (page : Fin 8) (col : Fin 128) :
    ((List.finRange 8).flatMap fun page => (List.finRange 128).map fun col => g page col).getD
      (page * lcdWidth + col) 0 = g page col := by
  have hrow : ∀ page, ((List.finRange 128).map fun col => g page col).length = lcdWidth := by
    intro page
    rw [List.length_map, List.length_finRange, lcdWidth]
  rw [List.getD_eq_getElem?_getD, getElem?_flatMap_of_length hrow _ _ col.isLt]
  simp

/-- **What the host shows is the display RAM**, inverted if the panel is. -/
theorem panelPixels_getGram (s : State) (invert : Bool) :
    panelPixels (getGram s) invert = .ok (screen fun y x =>
      if h : y / 8 < 8 ∧ x < 128 then
        (s.gram ⟨y / 8, h.1⟩ ⟨x, h.2⟩).toNat.testBit (y % 8) ^^ invert
      else false) := by
  have hlen : ((List.finRange 8).flatMap fun page => (List.finRange 128).map fun col =>
      s.gram page col).length = totalRows * lcdWidth := by
    simp [List.length_flatMap, totalRows, lcdWidth]
  rw [panelPixels, getGram, Hex.decode_encode]
  dsimp only
  rw [if_neg (by rw [hlen]; exact fun h => h rfl), unpack_eq hlen]
  refine congrArg Except.ok ((applyPanel_screen invert _).trans (screen_congr fun y hy x hx => ?_))
  have hpage : y / 8 < 8 := Nat.div_lt_of_lt_mul hy
  rw [dif_pos ⟨hpage, hx⟩]
  exact congrArg (fun b : UInt8 => b.toNat.testBit (y % 8) ^^ invert)
    (getD_pages s.gram ⟨y / 8, hpage⟩ ⟨x, hx⟩)

/-- What a driver sends while it draws a screen. -/
inductive Item where
  /-- A page, with the halves of its column address in either order. -/
  | page (page : Fin 8) (highFirst : Bool)
  /-- A contrast command. -/
  | contrast (operand : UInt8)
  deriving DecidableEq

/-- The page an item sends. -/
def Item.page? : Item → Option (Fin 8)
  | .page p _ => some p
  | .contrast _ => none

/-- What goes over the lines for a screen `F`. -/
def send (F : Fin 8 → Fin 128 → UInt8) (items : List Item) : List Event :=
  items.flatMap fun item =>
    match item with
    | .page page highFirst => sendPage page highFirst (F page)
    | .contrast operand => sendContrast operand

/-- What is sent for some items leaves the pages they name in the display RAM and the others as they
were, and does not invert. -/
lemma run_send (F : Fin 8 → Fin 128 → UInt8) (items : List Item) {s : State}
    (hsel : s.selected = true) (hexpect : s.expectContrast = false) :
    (run s (send F items)).invert = s.invert ∧
      (run s (send F items)).gram = fun page =>
        if page ∈ items.filterMap Item.page? then F page else s.gram page := by
  induction items generalizing s with
  | nil => exact ⟨rfl, funext fun page => (if_neg List.not_mem_nil).symm⟩
  | cons item items ih =>
    rw [send, List.flatMap_cons, run_append, ← send]
    cases item with
    | page p highFirst =>
      dsimp only
      rw [run_sendPage p highFirst (F p) hsel hexpect]
      obtain ⟨hinvert, hgram⟩ := ih (s := { s with
        a0 := true
        page := UInt8.ofNat p
        col := 0
        gram := Function.update s.gram p (F p) }) hsel hexpect
      have hcons : (Item.page p highFirst :: items).filterMap Item.page? =
          p :: items.filterMap Item.page? := rfl
      refine ⟨hinvert, hgram.trans (funext fun page => ?_)⟩
      rw [hcons]
      rcases eq_or_ne page p with rfl | hne
      · simp
      · simp [hne]
    | contrast operand =>
      dsimp only
      rw [run_sendContrast operand hsel hexpect]
      exact ih (s := { s with a0 := false, contrast := operand }) hsel hexpect

/-- The pixel in a row and a column. -/
def pixel (pixels : Pixels) (row col : ℕ) : Option ℕ := pixels[row]?.bind fun cells => cells[col]?

/-- **The host shows what was sent**: from every state of a selected panel with no operand pending,
the eight pages of a screen, in any order and with contrast commands between them, are the pixels
the host computes from the exported display RAM, inverted if the panel is; and the operand of a
contrast command never changes the page, the column, the inversion or the display RAM.

**Proof sketch.** `run_send` gives the display RAM: every page is among those that were sent.
`panelPixels_getGram` reads it. -/
theorem panelPixels_send (s : State) (F : Fin 8 → Fin 128 → UInt8) (items : List Item)
    (hsel : s.selected = true) (hexpect : s.expectContrast = false)
    (hpages : (items.filterMap Item.page?).Perm (List.finRange 8)) :
    (∃ pixels,
      panelPixels (getGram (run s (send F items))) (run s (send F items)).invert = .ok pixels ∧
      pixels.length = 64 ∧ (∀ line ∈ pixels, line.length = 128) ∧
      ∀ (y : Fin 64) (x : Fin 128), pixel pixels y x =
        some ((F ⟨y / 8, Nat.div_lt_of_lt_mul y.isLt⟩ x).toNat.testBit (y % 8) ^^
          s.invert).toNat) ∧
    ∀ (t : State) (operand : UInt8), t.a0 = false → t.expectContrast = true →
      (xfer t operand).2.page = t.page ∧ (xfer t operand).2.col = t.col ∧
        (xfer t operand).2.invert = t.invert ∧ (xfer t operand).2.gram = t.gram := by
  refine ⟨?_, xfer_contrast⟩
  obtain ⟨hinvert, hgram⟩ := run_send F items hsel hexpect
  refine ⟨_, panelPixels_getGram _ _, by simp [screen, lcdHeight, totalRows],
    fun line hline => ?_, fun y x => ?_⟩
  · obtain ⟨y, -, rfl⟩ := List.mem_map.mp hline
    rw [List.length_map, List.length_range, lcdWidth]
  · have hsent : ∀ page : Fin 8, page ∈ items.filterMap Item.page? :=
      fun page => hpages.mem_iff.mpr (List.mem_finRange page)
    have hy : y.val < lcdHeight := y.isLt
    have hx : x.val < lcdWidth := x.isLt
    simp only [pixel, screen, List.getElem?_map, List.getElem?_range hy, List.getElem?_range hx,
      Option.map_some, Option.bind_some, hinvert, hgram, hsent, if_true]
    rw [dif_pos ⟨Nat.div_lt_of_lt_mul y.isLt, x.isLt⟩]

/-- The pages from the last to the first, after a contrast command whose operand is the opcode of
the inversion. -/
theorem panelPixels_send_reversed :
    ∃ pixels,
      panelPixels
        (getGram (run (setCs reset false) (send (fun page col => UInt8.ofNat (page + col))
          (.contrast 0xa7 :: (List.finRange 8).reverse.map fun page => .page page true))))
        (run (setCs reset false) (send (fun page col => UInt8.ofNat (page + col))
          (.contrast 0xa7 :: (List.finRange 8).reverse.map fun page => .page page true))).invert =
          .ok pixels ∧
      pixel pixels 10 4 = some 1 := by
  obtain ⟨⟨pixels, hpixels, -, -, hbits⟩, -⟩ := panelPixels_send (setCs reset false)
    (fun page col => UInt8.ofNat (page + col))
    (.contrast 0xa7 :: (List.finRange 8).reverse.map fun page => .page page true) rfl rfl (by decide)
  exact ⟨pixels, hpixels, (hbits 10 4).trans rfl⟩

end Uvk5.Display
