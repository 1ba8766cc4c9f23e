import Mathlib.Algebra.BigOperators.Group.List.Basic
import Uvk5.Display.Frames
import Uvk5.Dma.Bus
import Uvk5.Lib.Png
import Uvk5.Slots.Header

set_option relaxedAutoImplicit false
set_option autoImplicit false

/-!
# What the browser shows (`tools/uvk5_lcd.py`)

The firmware draws a screen page by page, each from a buffer of its own that the DMA controller
sends. The host reads the display RAM back, makes a PNG file of it, and the browser opens that.

## Main definitions

* `Browser.encodePng` — the PNG file of some scanlines.
* `Browser.Transfer`, `Browser.Drawing` — a page the firmware sends, and what it has sent so far.
* `Browser.shown` — the picture of a screen.

## Main results

* `Browser.read_encodePng` — a reader of PNG files finds the pixels, enlarged.
* `Browser.browser_shows` — the browser shows what was in the buffers when they were sent.
-/

namespace Uvk5.Browser

open Dma Display Png

/-! ## The file -/

/-- `struct.pack(">I", n)`, with `none` for `struct.error`. -/
def pack (n : ℕ) : Option (List UInt8) := if n < 2 ^ 32 then some (toBe 4 n) else none

/-- The local function `chunk` of `encode_png`. -/
def chunk (tag payload : List UInt8) : Option (List UInt8) :=
  (pack payload.length).map fun length =>
    length ++ tag ++ payload ++ toBe 4 (Slots.crc32 (tag ++ payload)).toNat

/-- The file that `encode_png` makes of the scanlines, which `compress` compresses. -/
def encodePng (compress : List UInt8 → List UInt8) (p : Pump.Png) : Option (List UInt8) := do
  let width ← pack p.width
  let height ← pack p.height
  let header ← chunk tagHeader (width ++ height ++ [8, 0, 0, 0, 0])
  let data ← chunk tagData (compress p.scanlines)
  let trailer ← chunk tagEnd []
  return signature ++ header ++ data ++ trailer

/-- The file, while its fields have room. -/
lemma encodePng_eq {compress : List UInt8 → List UInt8} {p : Pump.Png} (hwidth : p.width < 2 ^ 32)
    (hheight : p.height < 2 ^ 32) (hdata : (compress p.scanlines).length < 2 ^ 32) :
    encodePng compress p = some (file Slots.crc32 p.width p.height (compress p.scanlines)) := by
  have hpack : ∀ {n : ℕ}, n < 2 ^ 32 → pack n = some (toBe 4 n) := fun h => if_pos h
  have hheader : (toBe 4 p.width ++ toBe 4 p.height ++ [8, 0, 0, 0, 0]).length < 2 ^ 32 := by simp
  have hend : ([] : List UInt8).length < 2 ^ 32 := by decide
  simp only [encodePng, chunk, hpack hwidth, hpack hheight, hpack hheader, hpack hdata, hpack hend,
    Option.map_some, Option.bind_eq_bind, Option.bind_some]
  rfl

/-! ## The lines -/

/-- Each of the first numbers, several times. -/
lemma range_mul {α : Type} (g : ℕ → α) (k n : ℕ) :
    (List.range (n * k)).map (fun i => g (i / k)) =
      (List.range n).flatMap fun i => List.replicate k (g i) := by
  induction n with
  | zero => simp
  | succ n ih =>
    have hlast : (List.range k).map (fun j => g ((n * k + j) / k)) = List.replicate k (g n) := by
      refine List.ext_getElem (by simp) fun j hj _ => ?_
      have hlt : j < k := by simpa using hj
      have hdiv : (n * k + j) / k = n := by
        rw [Nat.mul_comm, Nat.mul_add_div (by omega), Nat.div_eq_of_lt hlt, Nat.add_zero]
      simp [hdiv]
    rw [Nat.succ_mul, List.range_add, List.map_append, ih, List.map_map, List.range_succ,
      List.flatMap_append, List.flatMap_singleton]
    exact congrArg _ hlast

/-- The greys of a screen, enlarged: a lit pixel is black. -/
def shown (f : ℕ → ℕ → Bool) (scale : ℕ) : Picture where
  width := lcdWidth * scale
  height := lcdHeight * scale
  lines := (List.range (lcdHeight * scale)).map fun y =>
    (List.range (lcdWidth * scale)).map fun x => if f (y / scale) (x / scale) then 0x00 else 0xff

/-- One row of pixels is as many lines of the enlarged picture. -/
lemma encodeRow_eq (f : ℕ → Bool) (scale : ℕ) :
    Pump.encodeRow scale ((List.range lcdWidth).map fun x => (f x).toNat) =
      (List.replicate scale ((List.range (lcdWidth * scale)).map fun x =>
        if f (x / scale) then (0x00 : UInt8) else 0xff)).flatMap (0 :: ·) := by
  rw [Pump.encodeRow, List.flatMap_map, List.flatMap_replicate,
    range_mul (fun x => if f x then (0x00 : UInt8) else 0xff)]
  have hpixel : ∀ x, (if (f x).toNat ≠ 0 then (0x00 : UInt8) else 0xff) =
      if f x then 0x00 else 0xff := by
    intro x
    cases f x <;> rfl
  simp only [hpixel]

/-- A line of the file is a line of the screen behind its filter byte. -/
lemma scanlines_screen (f : ℕ → ℕ → Bool) (scale : ℕ) :
    (Pump.encodePng (screen f) scale).scanlines = (shown f scale).lines.flatMap (0 :: ·) := by
  have hlines := range_mul (fun y => (List.range (lcdWidth * scale)).map fun x =>
    if f y (x / scale) then (0x00 : UInt8) else 0xff) scale lcdHeight
  rw [Pump.encodePng, shown, hlines, List.flatMap_assoc, screen, List.flatMap_map]
  exact congrArg (fun g => (List.range lcdHeight).flatMap g)
    (funext fun y => encodeRow_eq (f y) scale)

/-- The lines of a screen, enlarged, and how many there are. -/
lemma length_lines (f : ℕ → ℕ → Bool) (scale : ℕ) :
    (shown f scale).lines.length = lcdHeight * scale ∧
      ∀ line ∈ (shown f scale).lines, line.length = lcdWidth * scale := by
  refine ⟨by simp [shown], fun line hline => ?_⟩
  obtain ⟨y, -, rfl⟩ := List.mem_map.mp hline
  rw [List.length_map, List.length_range]

/-- The lines of a picture as the file has them before they are compressed. -/
def raw (f : ℕ → ℕ → Bool) (scale : ℕ) : List UInt8 := (shown f scale).lines.flatMap (0 :: ·)

/-- **A reader of PNG files finds the pixels** of a screen, enlarged, in its file.

**Proof sketch.** The file has one data chunk, and no filter has changed its lines. -/
theorem read_encodePng {compress : List UInt8 → List UInt8}
    {inflate : List UInt8 → Option (List UInt8)} {f : ℕ → ℕ → Bool} {scale : ℕ}
    (hinflate : inflate (compress (raw f scale)) = some (raw f scale)) (hscale : 0 < scale)
    (hsize : lcdWidth * scale < 2 ^ 31) (hdata : (compress (raw f scale)).length < 2 ^ 32) :
    ∃ bytes, encodePng compress (Pump.encodePng (screen f) scale) = some bytes ∧
      read Slots.crc32 inflate bytes = some (shown f scale) := by
  obtain ⟨hheight, hwidth⟩ := length_lines f scale
  have hscan : (Pump.encodePng (screen f) scale).scanlines = raw f scale := scanlines_screen f scale
  have hw : Size (lcdWidth * scale) := ⟨Nat.mul_pos (by decide) hscale, hsize⟩
  have hh : Size (lcdHeight * scale) := by
    refine ⟨Nat.mul_pos (by decide) hscale, Nat.lt_of_le_of_lt ?_ hsize⟩
    exact Nat.mul_le_mul_right scale (by decide)
  have hbelow : (2 : ℕ) ^ 31 < 2 ^ 32 := by decide
  refine ⟨_, encodePng_eq (hw.2.trans hbelow) (hh.2.trans hbelow) (hscan ▸ hdata), ?_⟩
  rw [hscan]
  exact read_file Slots.crc32 hw (hheight.symm ▸ hh) hheight hwidth hdata hinflate

/-! ## What the firmware sends -/

/-- A page that the firmware sends. -/
structure Transfer where
  /-- What it does before: it fills the buffer, programs the channel and all else. -/
  arm : Soc Device → Soc Device
  /-- The page. -/
  page : Fin 8
  /-- The order of the halves of the column address. -/
  highFirst : Bool
  /-- The channel that sends the buffer. -/
  tx : Fin 7
  /-- The control register that is written to start it. -/
  r : Control
  /-- What is written there. -/
  value : UInt32

/-- The emulator, and what was in the buffers when they were sent. -/
structure Drawing where
  /-- The emulator. -/
  soc : Soc Device
  /-- The last buffer that was sent for each page. -/
  glass : Fin 8 → Fin 128 → UInt8

/-- A page is sent. -/
def Drawing.send (d : Drawing) (t : Transfer) : Drawing where
  soc := sendPage (t.arm d.soc) t.page t.highFirst t.r t.value
  glass := Function.update d.glass t.page fun i =>
    (t.arm d.soc).dma.memory (((t.arm d.soc).dma.ch t.tx).address i)

/-- The firmware has left the panel alone and armed one channel for the page, and what it writes then
starts the transfer. -/
structure Drawing.Ready (d : Drawing) (t : Transfer) : Prop where
  xfer : ((t.arm d.soc).spi 0).xfer = (d.soc.spi 0).xfer
  device : ((t.arm d.soc).spi 0).device = (d.soc.spi 0).device
  armed : Duplex 0 t.tx none 128 (t.arm d.soc).dma.ch
  requests : ((t.arm d.soc).setControl 0 t.r t.value).Requests 0

/-- The panel has what was sent. -/
structure Drawing.Drawn (d : Drawing) (invert : Bool) (p : Panel.State) : Prop where
  xfer : (d.soc.spi 0).xfer = some Device.xfer
  device : (d.soc.spi 0).device = .panel p
  selected : p.selected = true
  expect : p.expectContrast = false
  invert : p.invert = invert
  gram : p.gram = d.glass

/-- A page that is sent is on the panel. -/
lemma Drawing.Drawn.send {d : Drawing} {invert : Bool} {p : Panel.State} (h : d.Drawn invert p)
    {t : Transfer} (ht : d.Ready t) : ∃ q, (d.send t).Drawn invert q := by
  have hxfer : ((t.arm d.soc).spi 0).xfer = some Device.xfer := by rw [ht.xfer, h.xfer]
  have hdevice : ((t.arm d.soc).spi 0).device = .panel p := by rw [ht.device, h.device]
  obtain ⟨hx, hd, -⟩ := sendPage_eq hxfer hdevice h.selected h.expect ht.armed ht.requests t.page
    t.highFirst
  refine ⟨_, hx, hd, h.selected, h.expect, h.invert, ?_⟩
  rw [Drawing.send, h.gram]

/-- Pages that are sent are on the panel. -/
lemma Drawing.Drawn.run (ts : List Transfer) {d : Drawing} {invert : Bool} {p : Panel.State}
    (h : d.Drawn invert p) (hts : Run.AllSteps Drawing.send Drawing.Ready d ts) :
    ∃ q, (ts.foldl Drawing.send d).Drawn invert q := by
  induction ts generalizing d p with
  | nil => exact ⟨p, h⟩
  | cons t ts ih =>
    obtain ⟨q, hq⟩ := h.send hts.1
    exact ih hq hts.2

/-- The lines of what was sent. -/
def Drawing.raw (d : Drawing) (invert : Bool) (scale : ℕ) : List UInt8 :=
  Browser.raw (Pump.lit d.glass invert) scale

/-- **The browser shows what was sent.** The firmware sends pages, in any order and each any number
of times. Before each of them it may do anything that leaves the panel alone and ends with one
channel armed for the page: it may fill a buffer, and program the DMA controller and the control
registers of the SPI controller. The PNG file the host then makes of the display RAM holds,
enlarged, the pixels that were in the buffers when they were sent, and for the pages that were not
sent those that were shown before, inverted if the panel is.

**Proof sketch.** Each transfer leaves the buffer in the display RAM, which the host reads back; a
reader of PNG files undoes what `encode_png` does. -/
theorem browser_shows {s : Soc Device} {p : Panel.State} (hxfer : (s.spi 0).xfer = some Device.xfer)
    (hdevice : (s.spi 0).device = .panel p) (hsel : p.selected = true)
    (hexpect : p.expectContrast = false) (ts : List Transfer)
    (hready : Run.AllSteps Drawing.send Drawing.Ready ⟨s, p.gram⟩ ts)
    {compress : List UInt8 → List UInt8} {inflate : List UInt8 → Option (List UInt8)} {scale : ℕ}
    (hscale : 0 < scale) (hsize : lcdWidth * scale < 2 ^ 31)
    (hdata : (compress ((ts.foldl Drawing.send ⟨s, p.gram⟩).raw p.invert scale)).length < 2 ^ 32)
    (hinflate : inflate (compress ((ts.foldl Drawing.send ⟨s, p.gram⟩).raw p.invert scale)) =
      some ((ts.foldl Drawing.send ⟨s, p.gram⟩).raw p.invert scale)) :
    ∃ q pixels bytes, ((ts.foldl Drawing.send ⟨s, p.gram⟩).soc.spi 0).device = .panel q ∧
      panelPixels (Panel.getGram q) q.invert = .ok pixels ∧
      encodePng compress (Pump.encodePng pixels scale) = some bytes ∧
      read Slots.crc32 inflate bytes = some (shown
        (Pump.lit (ts.foldl Drawing.send ⟨s, p.gram⟩).glass p.invert) scale) := by
  obtain ⟨q, hq⟩ := Drawing.Drawn.run ts ⟨hxfer, hdevice, hsel, hexpect, rfl, rfl⟩ hready
  obtain ⟨bytes, hbytes, hread⟩ := read_encodePng hinflate hscale hsize hdata
  refine ⟨q, _, bytes, hq.device, Pump.panelPixels_lit q q.invert, ?_, hread⟩
  rw [hq.invert, hq.gram]
  exact hbytes

/-! ## A screen -/

/-- `zlib.adler32`. -/
def adler32 (data : List UInt8) : ℕ :=
  let sums := data.foldl (fun sums b =>
    let low := (sums.1 + b.toNat) % 65521
    (low, (sums.2 + low) % 65521)) (1, 0)
  sums.2 * 65536 + sums.1

/-- One block that is not compressed. -/
def store (data : List UInt8) : List UInt8 :=
  [0x78, 0x01, 0x01] ++ Bytes.toLe 2 data.length ++ Bytes.toLe 2 (65535 - data.length) ++ data ++
    toBe 4 (adler32 data)

/-- The data of such a block. -/
def unstore (s : List UInt8) : Option (List UInt8) :=
  some ((s.drop 7).take (Bytes.ofLe (Bytes.slice s 3 5)))

/-- The data of a block that is not compressed are what it was made of. -/
lemma unstore_store {d : List UInt8} (h : d.length < 65536) :
    unstore (store d) = some d := by
  have hfield : Bytes.slice (store d) 3 5 = Bytes.toLe 2 d.length := by
    simp only [store, List.append_assoc]
    exact Bytes.slice_field [0x78, 0x01, 0x01] _ _ rfl (by rw [Bytes.length_toLe]; rfl)
  have hdrop : (store d).drop 7 = d ++ toBe 4 (adler32 d) := by
    rw [store, List.append_assoc _ d]
    exact List.drop_left' (by simp)
  rw [unstore, hfield, Bytes.ofLe_toLe 2 (by omega), hdrop, List.take_left' rfl]

/-- The lines of a picture at scale one take 8256 bytes. -/
lemma length_raw (f : ℕ → ℕ → Bool) : (raw f 1).length = 8256 := by
  obtain ⟨hheight, hwidth⟩ := length_lines f 1
  rw [raw, List.length_flatMap, List.map_congr_left (g := fun _ => 129)]
  · rw [List.map_const', hheight, List.sum_replicate]
    rfl
  · intro line hline
    rw [List.length_cons, hwidth line hline]
    rfl

/-- A block that is not compressed takes eleven bytes more than its data. -/
lemma length_store (data : List UInt8) : (store data).length = 11 + data.length := by
  simp only [store, List.length_append, Bytes.length_toLe, length_toBe, List.length_cons,
    List.length_nil]
  omega

/-- A page that is filled with one byte and sent: the driver clears the requests of the controller
first, and arms its channel anew. -/
def smallTransfer (page : Fin 8) (byte : UInt8) : Transfer where
  arm s :=
    { s.setSpi 0 { s.spi 0 with cr1 := cr1Spe, cr2 := 0 } with
      dma := { smallPanel.dma with memory := fun _ => byte } }
  page := page
  highFirst := true
  tx := 2
  r := .cr2
  value := cr2Txdmaen

/-- The driver is ready to send such a page at any time. -/
lemma ready_smallTransfer (d : Drawing) (page : Fin 8) (byte : UInt8) :
    d.Ready (smallTransfer page byte) where
  xfer := by simp [smallTransfer, Soc.setSpi]
  device := by simp [smallTransfer, Soc.setSpi]
  armed := duplex_smallPanel
  requests := by
    have hrequests : (smallPanel.setControl 0 .cr2 cr2Txdmaen).Requests 0 := by decide
    refine requests_congr ?_ ?_ hrequests
    · simp [smallTransfer, Soc.setSpi, smallPanel]
    · simp [smallTransfer, Soc.setSpi, smallPanel]

/-- The panel before anything is drawn. -/
def blankPanel : Panel.State := { Panel.reset with selected := true }

/-- The panel when these pages have been sent. -/
def smallDrawing (ts : List Transfer) : Drawing :=
  ts.foldl Drawing.send ⟨smallPanel, blankPanel.gram⟩

/-- The browser shows two pages, drawn with different bytes by a driver that clears `TXDMAEN` in
between. -/
theorem browser_shows_small :
    ∃ q pixels bytes, ((smallDrawing [smallTransfer 3 0x55, smallTransfer 4 0xaa]).soc.spi 0).device =
        .panel q ∧
      panelPixels (Panel.getGram q) q.invert = .ok pixels ∧
      encodePng store (Pump.encodePng pixels 1) = some bytes ∧
      read Slots.crc32 unstore bytes = some (shown (Pump.lit
        (smallDrawing [smallTransfer 3 0x55, smallTransfer 4 0xaa]).glass blankPanel.invert) 1) := by
  have hready : Run.AllSteps Drawing.send Drawing.Ready ⟨smallPanel, blankPanel.gram⟩
      [smallTransfer 3 0x55, smallTransfer 4 0xaa] :=
    ⟨ready_smallTransfer _ 3 0x55, ready_smallTransfer _ 4 0xaa, trivial⟩
  generalize hd : smallDrawing [smallTransfer 3 0x55, smallTransfer 4 0xaa] = d
  have hlength := length_raw (Pump.lit d.glass blankPanel.invert)
  have hdata : (store (d.raw blankPanel.invert 1)).length < 2 ^ 32 := by
    rw [length_store, Drawing.raw, hlength]
    decide
  have hinflate := unstore_store (d := d.raw blankPanel.invert 1)
    (by rw [Drawing.raw, hlength]; decide)
  subst hd
  exact browser_shows (s := smallPanel) (p := blankPanel) rfl rfl rfl rfl _ hready (by decide)
    (by decide) hdata hinflate

end Uvk5.Browser
