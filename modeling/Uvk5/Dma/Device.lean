import Uvk5.Lib.Ring

set_option relaxedAutoImplicit false
set_option autoImplicit false

/-!
# The DMA controller and the receive queue of USART1 (`qemu/py32f071.c`)

A chardev supplies bytes to a queue of 256 cells. The guest takes them from the data register, or
lets a DMA channel move them to memory; the channels are served when the guest reads a count.

## Main definitions

* `Dma.Channel`, `Dma.State` — the channels, and the controller with the queue and the memory.
* `Dma.canReceive`, `Dma.receive`, `Dma.readDr` — the queue of USART1.
* `Dma.reset`, `Dma.updateIrq` — the reset, and the level of the interrupt lines.
* `Dma.serviceUsartRx`, `Dma.readCndtr` — moving queued bytes, and the read that causes it.

## Design

The memory is what `address_space_write` changes. The interrupt lines hold the level last driven.
-/

namespace Uvk5.Dma

/-- The queue has cells. -/
scoped instance neZeroCells : NeZero (256 : ℕ) := ⟨by decide⟩

/-- There are channels. -/
scoped instance neZeroChannels : NeZero (7 : ℕ) := ⟨by decide⟩

/-- There are blocks of the SPI. -/
scoped instance neZeroBlocks : NeZero (2 : ℕ) := ⟨by decide⟩

/-- `PY32_USART1_BASE`. -/
def usart1Base : UInt32 := 0x40013800

/-- `DMA_CCR_EN`. -/
def ccrEn : UInt32 := (1 : UInt32) <<< 0
/-- `DMA_CCR_TCIE`. -/
def ccrTcie : UInt32 := (1 : UInt32) <<< 1
/-- `DMA_CCR_DIR`: from memory. -/
def ccrDir : UInt32 := (1 : UInt32) <<< 4
/-- `DMA_CCR_CIRC`. -/
def ccrCirc : UInt32 := (1 : UInt32) <<< 5
/-- `DMA_CCR_MINC`. -/
def ccrMinc : UInt32 := (1 : UInt32) <<< 7

/-- `DMA_FLAG_GIF`. -/
def flagGif (ch : Fin 7) : UInt32 := (1 : UInt32) <<< (UInt32.ofNat ch * 4)
/-- `DMA_FLAG_TCIF`. -/
def flagTcif (ch : Fin 7) : UInt32 := (1 : UInt32) <<< (UInt32.ofNat ch * 4 + 1)

/-- `PY32DmaChannel`. -/
structure Channel where
  /-- The configuration. -/
  ccr : UInt32
  /-- How many bytes are left. -/
  cndtr : UInt32
  /-- The peripheral address. -/
  cpar : UInt32
  /-- The memory address. -/
  cmar : UInt32
  /-- The length the guest programmed. -/
  total : UInt32

/-- `PY32DmaState`, with the receive queue of USART1 and the guest's memory. -/
structure State where
  /-- The flags. -/
  isr : UInt32
  /-- The channels. -/
  ch : Fin 7 → Channel
  /-- The line of channels 1 to 3. -/
  irq123 : Bool
  /-- The line of channels 4 to 7. -/
  irq4567 : Bool
  /-- `rx_fifo`, `rx_head` and `rx_tail` of USART1. -/
  usart1 : Ring UInt8 256
  /-- The guest's memory. -/
  memory : UInt32 → UInt8

/-! ## The receive queue -/

/-- `py32_stub_can_receive`. -/
def canReceive (r : Ring UInt8 256) : ℕ := 256 - 1 - r.count

/-- `py32_stub_receive`, which stops at the first byte without room. -/
def receive (r : Ring UInt8 256) : List UInt8 → Ring UInt8 256
  | [] => r
  | b :: buf => if r.head + 1 = r.tail then r else receive (r.push b) buf

/-- A read of the data register: take a byte, and 0 if there is none. -/
def readDr (s : State) : UInt8 × State :=
  match s.usart1.pop with
  | none => (0, s)
  | some (byte, r) => (byte, { s with usart1 := r })

/-! ## The channels -/

/-- `py32_dma_reset`. -/
def reset (s : State) : State := { s with isr := 0, ch := fun _ => ⟨0, 0, 0, 0, 0⟩ }

/-- `py32_dma_update_irq`. -/
def updateIrq (s : State) : State :=
  let active : Fin 7 → Bool := fun ch =>
    (s.ch ch).ccr &&& ccrTcie ≠ 0 ∧ s.isr &&& flagTcif ch ≠ 0
  { s with
    irq123 := (List.finRange 7).any fun ch => ch.val < 3 && active ch
    irq4567 := (List.finRange 7).any fun ch => 3 ≤ ch.val && active ch }

/-- The channel is enabled, moves from USART1 to memory and has a length. -/
def Channel.serves (c : Channel) : Bool :=
  c.ccr &&& ccrEn ≠ 0 ∧ c.ccr &&& ccrDir = 0 ∧ c.cpar &&& ~~~0x3ff = usart1Base ∧ c.total ≠ 0

/-- Where the next byte goes. -/
def Channel.dest (c : Channel) : UInt32 :=
  c.cmar + if c.ccr &&& ccrMinc ≠ 0 then c.total - c.cndtr else 0

/-- The channel after a byte, and whether it stops: a circular one starts again when it is through,
another one is disabled. -/
def Channel.advance (c : Channel) : Channel × Bool :=
  let c := if c.cndtr > 0 then { c with cndtr := c.cndtr - 1 } else c
  if c.cndtr = 0 then
    if c.ccr &&& ccrCirc ≠ 0 then ({ c with cndtr := c.total }, false)
    else ({ c with ccr := c.ccr &&& ~~~ccrEn }, true)
  else (c, false)

/-- A byte a channel moved, and where to. -/
structure Transfer where
  /-- The address. -/
  address : UInt32
  /-- The byte. -/
  byte : UInt8
  deriving DecidableEq

/-- The loop of `py32_dma_service_usart_rx` over the queue, which holds at most 255 bytes. -/
def serviceLoop : ℕ → Channel → Ring UInt8 256 → List Transfer × Channel × Ring UInt8 256
  | 0, c, r => ([], c, r)
  | fuel + 1, c, r =>
    match r.pop with
    | none => ([], c, r)
    | some (byte, r) =>
      let (next, stop) := c.advance
      if stop then ([⟨c.dest, byte⟩], next, r)
      else
        let (transfers, last, r) := serviceLoop fuel next r
        (⟨c.dest, byte⟩ :: transfers, last, r)

/-- The memory after some transfers. -/
def store (memory : UInt32 → UInt8) (transfers : List Transfer) : UInt32 → UInt8 :=
  transfers.foldl (fun memory t => Function.update memory t.address t.byte) memory

/-- Serve one channel. -/
def serviceChannel (s : State) (ch : Fin 7) : List Transfer × State :=
  if (s.ch ch).serves then
    let (transfers, c, r) := serviceLoop 256 (s.ch ch) s.usart1
    (transfers, updateIrq { s with
      ch := Function.update s.ch ch c
      usart1 := r
      memory := store s.memory transfers
      isr := s.isr ||| flagGif ch })
  else ([], s)

/-- Serve the channels of a list in turn. -/
def serviceChannels : List (Fin 7) → State → List Transfer × State
  | [], s => ([], s)
  | ch :: chs, s =>
    let (first, s) := serviceChannel s ch
    let (rest, s) := serviceChannels chs s
    (first ++ rest, s)

/-- `py32_dma_service_usart_rx`. -/
def serviceUsartRx (s : State) : List Transfer × State := serviceChannels (List.finRange 7) s

/-- A read of the count of a channel: the value, and what was moved before it was answered. -/
def readCndtr (s : State) (ch : Fin 7) : UInt32 × List Transfer × State :=
  let (transfers, s) := serviceUsartRx s
  ((s.ch ch).cndtr, transfers, s)

/-! ## One byte -/

/-- A channel counts down. -/
lemma advance_of_one_lt {c : Channel} (h : 1 < c.cndtr.toNat) :
    c.advance = ({ c with cndtr := c.cndtr - 1 }, false) := by
  have hpos : c.cndtr > 0 := UInt32.lt_iff_toNat_lt.mpr (Nat.lt_trans Nat.zero_lt_one h)
  have hmore : c.cndtr - 1 ≠ 0 := by
    intro hzero
    have hsub := UInt32.toNat_sub_of_le c.cndtr 1 (UInt32.le_iff_toNat_le.mpr (Nat.le_of_lt h))
    rw [hzero, UInt32.toNat_zero, UInt32.toNat_one] at hsub
    omega
  rw [Channel.advance]
  simp only [if_pos hpos, if_neg hmore]

/-- The count is zero after the last byte, or without one. -/
lemma count_through {c : Channel} (h : c.cndtr.toNat ≤ 1) :
    (if c.cndtr > 0 then { c with cndtr := c.cndtr - 1 } else c) = { c with cndtr := 0 } := by
  have hcases : c.cndtr = 0 ∨ c.cndtr = 1 := by
    rw [← UInt32.toNat_inj, ← UInt32.toNat_inj, UInt32.toNat_zero, UInt32.toNat_one]
    omega
  rcases hcases with hzero | hone
  · rw [hzero, if_neg (by decide), ← hzero]
  · rw [hone, if_pos (by decide)]
    rfl

/-- A circular channel begins again at the end of its buffer. -/
lemma advance_circular {c : Channel} (h : c.cndtr.toNat ≤ 1) (hcirc : c.ccr &&& ccrCirc ≠ 0) :
    c.advance = ({ c with cndtr := c.total }, false) := by
  rw [Channel.advance]
  simp only [count_through h]
  exact if_pos hcirc

/-- Any other channel stops there. -/
lemma advance_oneShot {c : Channel} (h : c.cndtr.toNat ≤ 1) (hcirc : c.ccr &&& ccrCirc = 0) :
    c.advance = ({ c with cndtr := 0, ccr := c.ccr &&& ~~~ccrEn }, true) := by
  rw [Channel.advance]
  simp only [count_through h]
  exact if_neg (not_not.mpr hcirc)

/-- What serving any channel keeps, serving all of them keeps. -/
lemma serviceUsartRx_keeps {I : State → Prop} (hserve : ∀ s i, I s → I (serviceChannel s i).2)
    {s : State} (h : I s) : I (serviceUsartRx s).2 := by
  rw [serviceUsartRx]
  generalize List.finRange 7 = l
  induction l generalizing s with
  | nil => exact h
  | cons i l ih =>
    rw [serviceChannels]
    exact ih (hserve s i h)

end Uvk5.Dma
