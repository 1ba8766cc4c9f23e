import Uvk5.Dma.Device
import Uvk5.Lib.Run

set_option relaxedAutoImplicit false
set_option autoImplicit false

/-!
# The SPI controllers and their DMA requests (`qemu/py32f071.c`)

A controller clocks a byte through the device at it when its data register is written. With
`SPE` and `TXDMAEN` set it asks the DMA controller instead, which then clocks the bytes of the
channels armed for it, within the register write.

## Main definitions

* `Dma.Spi`, `Dma.Soc` — a controller with its device, and both of them with the DMA controller.
* `Dma.runForSpi` — a whole transfer.
* `Dma.writeSpi`, `Dma.readSpi`, `Dma.writeDma`, `Dma.readDma` — the registers.
* `Dma.polled` — the same bytes through the data register.

## Main results

* `Dma.runForSpi_eq` — what a transfer does to the memory, the device and the channels.
* `Dma.duplex_eq_polled` — the write that completes the request moves what the loop over the data
  register moves, and no later request moves more until a channel is programmed.

## Design

The state of the device is what `xfer_opaque` points at; its transfer function has no access to
the guest's memory. The memory is RAM at every address a channel is given.
-/

namespace Uvk5.Dma

/-- `SPI_SR_RXNE`. -/
def srRxne : UInt32 := (1 : UInt32) <<< 0
/-- `SPI_SR_TXE`. -/
def srTxe : UInt32 := (1 : UInt32) <<< 1
/-- `SPI_SR_BSY`. -/
def srBsy : UInt32 := (1 : UInt32) <<< 7
/-- `SPI_CR1_SPE`. -/
def cr1Spe : UInt32 := (1 : UInt32) <<< 6
/-- `SPI_CR2_TXDMAEN`. -/
def cr2Txdmaen : UInt32 := (1 : UInt32) <<< 1

/-- `PY32_SPI1_BASE`. -/
def spi1Base : UInt32 := 0x40013000
/-- `PY32_SPI2_BASE`. -/
def spi2Base : UInt32 := 0x40003800

/-- `PY32SpiState`, with the state of the device. -/
structure Spi (δ : Type) where
  /-- `CR1`. -/
  cr1 : UInt32
  /-- `CR2`. -/
  cr2 : UInt32
  /-- `SR`. -/
  sr : UInt32
  /-- The byte received last. -/
  rx : UInt8
  /-- `xfer`. -/
  xfer : Option (δ → UInt8 → UInt8 × δ)
  /-- What `xfer_opaque` points at. -/
  device : δ

/-- The two SPI controllers and the DMA controller. -/
structure Soc (δ : Type) where
  /-- SPI1 and SPI2. -/
  spi : Fin 2 → Spi δ
  /-- DMA1. -/
  dma : State

variable {δ : Type}

/-- `py32_spi_xfer_byte`. -/
def Spi.xferByte (p : Spi δ) (out : UInt8) : UInt8 × Spi δ :=
  match p.xfer with
  | none => (0xff, p)
  | some xfer =>
    let (byte, device) := xfer p.device out
    (byte, { p with device := device })

/-- Replace a controller. -/
def Soc.setSpi (s : Soc δ) (k : Fin 2) (p : Spi δ) : Soc δ :=
  { s with spi := Function.update s.spi k p }

/-- `address_space_write` of one byte. -/
def Soc.setByte (s : Soc δ) (address : UInt32) (byte : UInt8) : Soc δ :=
  { s with dma := { s.dma with memory := Function.update s.dma.memory address byte } }

/-! ## The transfer -/

/-- `py32_dma_spi_for`. -/
def spiFor (paddr : UInt32) : Option (Fin 2) :=
  if paddr &&& ~~~0x3ff = spi1Base then some 0
  else if paddr &&& ~~~0x3ff = spi2Base then some 1
  else none

/-- The channel is enabled for a controller and has bytes left. -/
def Channel.ArmedFor (c : Channel) (k : Fin 2) : Prop :=
  c.ccr &&& ccrEn ≠ 0 ∧ c.cndtr ≠ 0 ∧ spiFor c.cpar = some k

instance (c : Channel) (k : Fin 2) : Decidable (c.ArmedFor k) := inferInstanceAs (Decidable (_ ∧ _))

/-- The channel reads from memory. -/
def Channel.FromMemory (c : Channel) : Prop := c.ccr &&& ccrDir ≠ 0

instance (c : Channel) : Decidable c.FromMemory := inferInstanceAs (Decidable (_ ≠ _))

/-- The address after a byte. -/
def Channel.advanceAddress (c : Channel) (address : UInt32) : UInt32 :=
  if c.ccr &&& ccrMinc ≠ 0 then address + 1 else address

/-- The search of `py32_dma_run_for_spi`: the last armed channel of each direction. -/
def findChannels (ch : Fin 7 → Channel) (k : Fin 2) : Option (Fin 7) × Option (Fin 7) :=
  (List.finRange 7).foldl (fun (tx, rx) i =>
    if ¬ (ch i).ArmedFor k then (tx, rx)
    else if (ch i).FromMemory then (some i, rx)
    else (tx, some i)) (none, none)

/-- The loop of `py32_dma_run_for_spi`. The channels do not change in it; a direction without a
channel sends `0xff` or drops what comes. -/
def transferLoop (k : Fin 2) (tx rx : Option Channel) :
    ℕ → UInt32 → UInt32 → Soc δ → Soc δ
  | 0, _, _, s => s
  | count + 1, txAddr, rxAddr, s =>
    let out := if tx.isSome then s.dma.memory txAddr else 0xff
    let (byte, p) := (s.spi k).xferByte out
    let s := s.setSpi k p
    let s := if rx.isSome then s.setByte rxAddr byte else s
    transferLoop k tx rx count (tx.elim txAddr (·.advanceAddress txAddr))
      (rx.elim rxAddr (·.advanceAddress rxAddr)) s

/-- The end of `py32_dma_run_for_spi` for one channel. -/
def finishChannel (s : State) (i : Fin 7) : State :=
  { s with
    ch := Function.update s.ch i { s.ch i with cndtr := 0 }
    isr := s.isr ||| (flagTcif i ||| flagGif i) }

/-- The end of `py32_dma_run_for_spi`. -/
def finish (tx rx : Option (Fin 7)) (s : State) : State :=
  updateIrq ((List.finRange 7).foldl
    (fun s i => if some i = tx ∨ some i = rx then finishChannel s i else s) s)

/-- `py32_dma_run_for_spi`. -/
def runForSpi (k : Fin 2) (s : Soc δ) : Soc δ :=
  let (tx, rx) := findChannels s.dma.ch k
  if tx = none ∧ rx = none then s
  else
    let txCh := tx.map s.dma.ch
    let rxCh := rx.map s.dma.ch
    let count := match txCh with
      | some c => c.cndtr
      | none => rxCh.elim 0 Channel.cndtr
    let s := transferLoop k txCh rxCh count.toNat (txCh.elim 0 Channel.cmar)
      (rxCh.elim 0 Channel.cmar) s
    { s with dma := finish tx rx s.dma }

/-! ## The registers -/

/-- `SPE` and `TXDMAEN` are set. -/
def Soc.Requests (k : Fin 2) (s : Soc δ) : Prop :=
  (s.spi k).cr1 &&& cr1Spe ≠ 0 ∧ (s.spi k).cr2 &&& cr2Txdmaen ≠ 0

instance (k : Fin 2) (s : Soc δ) : Decidable (s.Requests k) := inferInstanceAs (Decidable (_ ∧ _))

/-- The request to the DMA controller. -/
def kick (k : Fin 2) (s : Soc δ) : Soc δ := if s.Requests k then runForSpi k s else s

/-- A write to the data register. -/
def Spi.writeDr (p : Spi δ) (value : UInt8) : Spi δ :=
  let (byte, p) := p.xferByte value
  { p with rx := byte, sr := (p.sr ||| (srRxne ||| srTxe)) &&& ~~~srBsy }

/-- A read of the data register. -/
def Spi.readDr (p : Spi δ) : UInt8 × Spi δ := (p.rx, { p with sr := p.sr &&& ~~~srRxne })

/-- `py32_spi_write`. -/
def writeSpi (k : Fin 2) (addr : ℕ) (value : UInt32) (s : Soc δ) : Soc δ :=
  match addr with
  | 0x00 => kick k (s.setSpi k { s.spi k with cr1 := value })
  | 0x04 => kick k (s.setSpi k { s.spi k with cr2 := value })
  | 0x08 => s.setSpi k { s.spi k with sr := (value &&& ~~~srTxe) ||| srTxe }
  | 0x0c => s.setSpi k ((s.spi k).writeDr value.toUInt8)
  | _ => s

/-- `py32_spi_read`. -/
def readSpi (k : Fin 2) (addr : ℕ) (s : Soc δ) : UInt32 × Soc δ :=
  match addr with
  | 0x00 => ((s.spi k).cr1, s)
  | 0x04 => ((s.spi k).cr2, s)
  | 0x08 => ((s.spi k).sr, s)
  | 0x0c => ((s.spi k).readDr.1.toUInt32, s.setSpi k (s.spi k).readDr.2)
  | _ => (0, s)

/-- The register of a channel at an address of the DMA controller. -/
def channelRegister (addr : ℕ) : Option (Fin 7 × ℕ) :=
  if h : 0x08 ≤ addr ∧ (addr - 0x08) / 0x14 < 7 then
    some (⟨(addr - 0x08) / 0x14, h.2⟩, (addr - 0x08) % 0x14)
  else none

/-- Replace a channel. -/
def State.setChannel (s : State) (i : Fin 7) (c : Channel) : State :=
  { s with ch := Function.update s.ch i c }

/-- A channel that is set. -/
lemma setChannel_self (s : State) (i : Fin 7) (c : Channel) : (s.setChannel i c).ch i = c :=
  Function.update_self ..

/-- The channels that are not set. -/
lemma setChannel_of_ne (s : State) {i j : Fin 7} (c : Channel) (h : j ≠ i) :
    (s.setChannel i c).ch j = s.ch j :=
  Function.update_of_ne h ..

/-- `py32_dma_write`. -/
def writeDma (addr : ℕ) (value : UInt32) (s : State) : State :=
  if addr = 0x04 then updateIrq { s with isr := s.isr &&& ~~~value }
  else match channelRegister addr with
    | some (i, 0x00) => s.setChannel i { s.ch i with ccr := value }
    | some (i, 0x04) => s.setChannel i { s.ch i with cndtr := value, total := value }
    | some (i, 0x08) => s.setChannel i { s.ch i with cpar := value }
    | some (i, 0x0c) => s.setChannel i { s.ch i with cmar := value }
    | _ => s

/-- `py32_dma_read`. -/
def readDma (addr : ℕ) (s : State) : UInt32 × State :=
  if addr = 0x00 then (s.isr, s)
  else match channelRegister addr with
    | some (i, 0x00) => ((s.ch i).ccr, s)
    | some (i, 0x04) => let (value, _, s) := readCndtr s i; (value, s)
    | some (i, 0x08) => ((s.ch i).cpar, s)
    | some (i, 0x0c) => ((s.ch i).cmar, s)
    | _ => (0, s)

section Keeps

variable {I : State → Prop}

/-- What serving any channel keeps, a read of a register keeps. -/
lemma readDma_keeps (hserve : ∀ s i, I s → I (serviceChannel s i).2) {s : State} (h : I s)
    (addr : ℕ) : I (readDma addr s).2 := by
  rw [readDma]
  split
  · exact h
  · split
    · exact h
    · exact serviceUsartRx_keeps hserve h
    · exact h
    · exact h
    · exact h

/-- What a transfer keeps, a write to a register of a controller keeps. -/
lemma writeSpi_keeps (hrun : ∀ k (s : Soc δ), I s.dma → I (runForSpi k s).dma) {s : Soc δ}
    (h : I s.dma) (k : Fin 2) (addr : ℕ) (value : UInt32) : I (writeSpi k addr value s).dma := by
  have hkick : ∀ s : Soc δ, I s.dma → I (kick k s).dma := by
    intro s hs
    rw [kick]
    split
    · exact hrun k s hs
    · exact hs
  unfold writeSpi
  split
  · refine hkick _ ?_
    exact h
  · refine hkick _ ?_
    exact h
  · exact h
  · exact h
  · exact h

end Keeps

/-! ## The same bytes through the data register -/

/-- The address of the byte of a number. -/
def Channel.address (c : Channel) (i : ℕ) : UInt32 :=
  c.cmar + if c.ccr &&& ccrMinc ≠ 0 then UInt32.ofNat i else 0

/-- Write the byte to the data register, and store the one that is read back. -/
def pollByte (k : Fin 2) (tx : Channel) (rx : Option Channel) (s : Soc δ) (i : ℕ) : Soc δ :=
  let s := writeSpi k 0x0c (s.dma.memory (tx.address i)).toUInt32 s
  let (value, s) := readSpi k 0x0c s
  match rx with
  | some c => s.setByte (c.address i) value.toUInt8
  | none => s

/-- The polled transfer of `n` bytes. -/
def polled (k : Fin 2) (tx : Channel) (rx : Option Channel) (n : ℕ) (s : Soc δ) : Soc δ :=
  (List.range n).foldl (pollByte k tx rx) s

/-! ## A transfer -/

/-- One channel from memory and at most one to memory are armed for a controller, with the same
count, and no other channel is. -/
structure Duplex (k : Fin 2) (tx : Fin 7) (rx : Option (Fin 7)) (n : UInt32)
    (ch : Fin 7 → Channel) : Prop where
  /-- The channel from memory. -/
  sends : (ch tx).ArmedFor k ∧ (ch tx).FromMemory ∧ (ch tx).cndtr = n
  /-- The channel to memory. -/
  collects : ∀ i, rx = some i → (ch i).ArmedFor k ∧ ¬ (ch i).FromMemory ∧ (ch i).cndtr = n
  /-- There is no other. -/
  only : ∀ i, (ch i).ArmedFor k → i = tx ∨ rx = some i

section Duplex

variable {k : Fin 2} {tx : Fin 7} {rx : Option (Fin 7)} {n : UInt32} {ch : Fin 7 → Channel}

/-- The search, from any point on. -/
lemma Duplex.foldl_find (h : Duplex k tx rx n ch) (l : List (Fin 7))
    (acc : Option (Fin 7) × Option (Fin 7)) :
    l.foldl (fun (acc : Option (Fin 7) × Option (Fin 7)) i =>
      if ¬ (ch i).ArmedFor k then (acc.1, acc.2)
      else if (ch i).FromMemory then (some i, acc.2)
      else (acc.1, some i)) acc =
      (if tx ∈ l then some tx else acc.1, if ∃ i ∈ l, rx = some i then rx else acc.2) := by
  induction l generalizing acc with
  | nil => simp
  | cons i l ih =>
    rw [List.foldl_cons, ih]
    by_cases harmed : (ch i).ArmedFor k
    · rw [if_neg (not_not.mpr harmed)]
      by_cases hfrom : (ch i).FromMemory
      · have htx : i = tx := (h.only i harmed).resolve_right fun hrx => (h.collects i hrx).2.1 hfrom
        have hrx : rx ≠ some i := fun hrx => (h.collects i hrx).2.1 hfrom
        rw [if_pos hfrom, htx]
        subst htx
        simp [hrx]
      · have hrx : rx = some i := (h.only i harmed).resolve_left fun htx =>
          hfrom (htx ▸ h.sends.2.1)
        have htx : tx ≠ i := fun htx => hfrom (htx ▸ h.sends.2.1)
        rw [if_neg hfrom]
        simp [hrx, htx]
    · rw [if_pos harmed]
      have htx : tx ≠ i := fun htx => harmed (htx ▸ h.sends.1)
      have hrx : rx ≠ some i := fun hrx => harmed (h.collects i hrx).1
      simp [htx, hrx]

/-- The controller finds the two channels. -/
lemma Duplex.findChannels (h : Duplex k tx rx n ch) : findChannels ch k = (some tx, rx) := by
  rw [Dma.findChannels]
  refine (h.foldl_find (List.finRange 7) (none, none)).trans ?_
  cases hrx : rx with
  | none => simp
  | some i => simp

end Duplex

/-- The memory, and the device at a controller, are the same. -/
structure SameBus (k : Fin 2) (s s' : Soc δ) : Prop where
  memory : s.dma.memory = s'.dma.memory
  xfer : (s.spi k).xfer = (s'.spi k).xfer
  device : (s.spi k).device = (s'.spi k).device

/-- A byte through the transfer function: the byte that comes back, and the device. -/
lemma xferByte_congr {p p' : Spi δ} (hxfer : p.xfer = p'.xfer) (hdevice : p.device = p'.device)
    (out : UInt8) : (p.xferByte out).1 = (p'.xferByte out).1 ∧
      (p.xferByte out).2.xfer = (p'.xferByte out).2.xfer ∧
      (p.xferByte out).2.device = (p'.xferByte out).2.device := by
  rw [Spi.xferByte, Spi.xferByte, ← hxfer, ← hdevice]
  cases hp : p.xfer with
  | none => exact ⟨rfl, hxfer, hdevice⟩
  | some xfer => exact ⟨rfl, rfl, rfl⟩

/-- The first byte is at the address the channel was given. -/
lemma address_zero (c : Channel) : c.address 0 = c.cmar := by
  rw [Channel.address]
  split
  · exact UInt32.add_zero _
  · exact UInt32.add_zero _

/-- The address goes on from byte to byte. -/
lemma advanceAddress_address (c : Channel) (i : ℕ) :
    c.advanceAddress (c.address i) = c.address (i + 1) := by
  rw [Channel.advanceAddress, Channel.address, Channel.address]
  split
  · rw [UInt32.add_assoc, UInt32.ofNat_add]
    rfl
  · rfl

/-- One byte of the loop of the DMA controller. -/
def transferByte (k : Fin 2) (tx rx : Option Channel) (s : Soc δ) (i : ℕ) : Soc δ :=
  let out := if tx.isSome then s.dma.memory (tx.elim 0 (·.address i)) else 0xff
  let (byte, p) := (s.spi k).xferByte out
  let s := s.setSpi k p
  if rx.isSome then s.setByte (rx.elim 0 (·.address i)) byte else s

/-- The loop, by the numbers of the bytes. -/
lemma transferLoop_eq (k : Fin 2) (tx rx : Option Channel) (count i : ℕ) (s : Soc δ) :
    transferLoop k tx rx count (tx.elim 0 (·.address i)) (rx.elim 0 (·.address i)) s =
      (List.range' i count).foldl (transferByte k tx rx) s := by
  induction count generalizing i s with
  | zero => rfl
  | succ count ih =>
    have hstep : ∀ c : Option Channel, c.elim (c.elim 0 (·.address i))
        (·.advanceAddress (c.elim 0 (·.address i))) = c.elim 0 (·.address (i + 1)) := by
      intro c
      cases c with
      | none => rfl
      | some c => exact advanceAddress_address c i
    rw [transferLoop, hstep, hstep, List.range'_succ, List.foldl_cons]
    exact ih (i + 1) (transferByte k tx rx s i)

/-- A byte of the DMA controller is a byte of the polled loop. -/
lemma sameBus_byte {k : Fin 2} {tx : Channel} {rx : Option Channel} {s s' : Soc δ}
    (h : SameBus k s s') (i : ℕ) :
    SameBus k (transferByte k (some tx) rx s i) (pollByte k tx rx s' i) := by
  obtain ⟨hbyte, hxfer, hdevice⟩ := xferByte_congr h.xfer h.device (s'.dma.memory (tx.address i))
  have hvalue : ∀ b : UInt8, b.toUInt32.toUInt8 = b := fun b => UInt8.toUInt8_toUInt32 b
  rw [transferByte, pollByte, readSpi, writeSpi]
  dsimp only [Option.elim]
  rw [hvalue, if_pos (show (some tx).isSome = true from rfl), h.memory]
  cases rx with
  | none =>
    refine ⟨h.memory, ?_, ?_⟩
    · simpa [Soc.setSpi, Spi.writeDr, Spi.readDr] using hxfer
    · simpa [Soc.setSpi, Spi.writeDr, Spi.readDr] using hdevice
  | some c =>
    refine ⟨?_, ?_, ?_⟩
    · simp [Soc.setSpi, Soc.setByte, Spi.writeDr, Spi.readDr, hbyte, h.memory]
    · simpa [Soc.setSpi, Soc.setByte, Spi.writeDr, Spi.readDr] using hxfer
    · simpa [Soc.setSpi, Soc.setByte, Spi.writeDr, Spi.readDr] using hdevice

/-- **The loop of the DMA controller** moves what the polled loop moves. -/
theorem sameBus_polled (k : Fin 2) (tx : Channel) (rx : Option Channel) (n : ℕ) {s s' : Soc δ}
    (h : SameBus k s s') :
    SameBus k (transferLoop k (some tx) rx n tx.cmar (rx.elim 0 Channel.cmar) s)
      (polled k tx rx n s') := by
  have hloop := transferLoop_eq k (some tx) rx n 0 s
  simp only [address_zero, Option.elim_some] at hloop
  rw [hloop, polled, List.range_eq_range']
  exact Run.related_foldl (R := SameBus k) (fun _ _ i h => sameBus_byte h i) _ h

/-- The loop leaves the channels. -/
lemma transferLoop_ch (k : Fin 2) (tx rx : Option Channel) (n : ℕ) (txAddr rxAddr : UInt32)
    (s : Soc δ) : (transferLoop k tx rx n txAddr rxAddr s).dma.ch = s.dma.ch := by
  induction n generalizing txAddr rxAddr s with
  | zero => rfl
  | succ n ih =>
    rw [transferLoop]
    refine (ih ..).trans ?_
    split <;> rfl

/-! ## The end of a transfer -/

/-- The channels when some of them are through. -/
lemma foldl_finish_ch (tx rx : Option (Fin 7)) (l : List (Fin 7)) (s : State) (i : Fin 7) :
    (l.foldl (fun s i => if some i = tx ∨ some i = rx then finishChannel s i else s) s).ch i =
      if i ∈ l ∧ (some i = tx ∨ some i = rx) then { s.ch i with cndtr := 0 } else s.ch i := by
  induction l generalizing s with
  | nil => simp
  | cons j l ih =>
    rw [List.foldl_cons, ih]
    by_cases hj : some j = tx ∨ some j = rx
    · rw [if_pos hj]
      by_cases hij : i = j
      · subst hij
        simp [hj, finishChannel]
      · simp [hij, finishChannel]
    · rw [if_neg hj]
      by_cases hij : i = j
      · subst hij
        simp [hj]
      · simp [hij]

/-- At the end of a transfer its channels have no count left, and the others are as they were. -/
lemma finish_ch (tx rx : Option (Fin 7)) (s : State) (i : Fin 7) :
    (finish tx rx s).ch i = if some i = tx ∨ some i = rx then { s.ch i with cndtr := 0 }
      else s.ch i := by
  rw [finish, updateIrq]
  refine (foldl_finish_ch tx rx (List.finRange 7) s i).trans ?_
  simp

/-- Every channel has a completion flag. -/
lemma flagTcif_ne_zero (i : Fin 7) : flagTcif i ≠ 0 := by
  revert i
  decide

/-- A flag that is set in either word is set in both together. -/
lemma or_and_ne_zero {a b f : UInt32} (h : a &&& f ≠ 0 ∨ b &&& f ≠ 0) : (a ||| b) &&& f ≠ 0 := by
  have hdistrib : (a ||| b) &&& f = (a &&& f) ||| (b &&& f) :=
    UInt32.toBitVec_inj.1 BitVec.and_or_distrib_right
  rw [hdistrib, Ne, UInt32.or_eq_zero_iff]
  rintro ⟨ha, hb⟩
  exact h.elim (· ha) (· hb)

/-- A channel of the transfer has its completion flag set once its turn has come. -/
lemma foldl_finish_tcif {tx rx : Option (Fin 7)} {i : Fin 7} (hi : some i = tx ∨ some i = rx)
    (l : List (Fin 7)) (s : State) (h : i ∈ l ∨ s.isr &&& flagTcif i ≠ 0) :
    (l.foldl (fun s i => if some i = tx ∨ some i = rx then finishChannel s i else s) s).isr &&&
      flagTcif i ≠ 0 := by
  induction l generalizing s with
  | nil => exact h.resolve_left (List.not_mem_nil)
  | cons j l ih =>
    rw [List.foldl_cons]
    apply ih
    rcases h with hmem | hset
    · rcases List.mem_cons.mp hmem with rfl | hmem
      · right
        rw [if_pos hi, finishChannel]
        refine or_and_ne_zero (.inr (or_and_ne_zero (.inl ?_)))
        rw [UInt32.and_self]
        exact flagTcif_ne_zero i
      · exact .inl hmem
    · right
      split
      · exact or_and_ne_zero (.inl hset)
      · exact hset

/-- At the end of a transfer the completion flags of its channels are set. -/
lemma finish_tcif {tx rx : Option (Fin 7)} {i : Fin 7} (hi : some i = tx ∨ some i = rx)
    (s : State) :
    (finish tx rx s).isr &&& flagTcif i ≠ 0 := by
  rw [finish, updateIrq]
  exact foldl_finish_tcif hi _ s (.inl (List.mem_finRange i))

/-! ## Requests without an armed channel -/

/-- No channel is armed for a controller. -/
def Unarmed (k : Fin 2) (s : State) : Prop := ∀ i, ¬ (s.ch i).ArmedFor k

/-- The controller finds no channel if none is armed. -/
lemma Unarmed.findChannels {k : Fin 2} {s : State} (h : Unarmed k s) :
    findChannels s.ch k = (none, none) := by
  rw [Dma.findChannels]
  generalize List.finRange 7 = l
  induction l with
  | nil => rfl
  | cons i l ih =>
    rw [List.foldl_cons]
    dsimp only
    rw [if_pos (h i)]
    exact ih

/-- A request does nothing then. -/
lemma Unarmed.runForSpi {k : Fin 2} {s : Soc δ} (h : Unarmed k s.dma) : runForSpi k s = s := by
  rw [Dma.runForSpi, h.findChannels]
  exact if_pos ⟨rfl, rfl⟩

/-- The memory when the transfer is over. -/
lemma finish_memory (tx rx : Option (Fin 7)) (s : State) :
    (finish tx rx s).memory = s.memory := by
  rw [finish, updateIrq]
  generalize List.finRange 7 = l
  induction l generalizing s with
  | nil => rfl
  | cons i l ih =>
    rw [List.foldl_cons]
    refine (ih _).trans ?_
    split <;> rfl

/-- The run of two armed channels. -/
lemma Duplex.runForSpi {k : Fin 2} {tx : Fin 7} {rx : Option (Fin 7)} {n : UInt32} {s : Soc δ}
    (h : Duplex k tx rx n s.dma.ch) : runForSpi k s =
      let s := transferLoop k (some (s.dma.ch tx)) (rx.map s.dma.ch) n.toNat (s.dma.ch tx).cmar
        ((rx.map s.dma.ch).elim 0 Channel.cmar) s
      { s with dma := finish (some tx) rx s.dma } := by
  rw [Dma.runForSpi, h.findChannels, ← h.sends.2.2]
  exact if_neg (by simp)

/-- **A transfer.** The memory and the device are those of the polled loop, and the channels are
through. -/
theorem runForSpi_eq {k : Fin 2} {tx : Fin 7} {rx : Option (Fin 7)} {n : UInt32} {s s' : Soc δ}
    (h : Duplex k tx rx n s.dma.ch) (hbus : SameBus k s s') :
    SameBus k (runForSpi k s) (polled k (s.dma.ch tx) (rx.map s.dma.ch) n.toNat s') ∧
      (∀ i, i = tx ∨ rx = some i → ((runForSpi k s).dma.ch i).cndtr = 0 ∧
        (runForSpi k s).dma.isr &&& flagTcif i ≠ 0) ∧
      Unarmed k (runForSpi k s).dma := by
  have hloop := sameBus_polled k (s.dma.ch tx) (rx.map s.dma.ch) n.toNat hbus
  rw [h.runForSpi]
  dsimp only
  refine ⟨⟨?_, hloop.xfer, hloop.device⟩, fun i hi => ?_, fun i => ?_⟩
  · rw [← hloop.memory]
    exact finish_memory ..
  · have hi' : some i = some tx ∨ some i = rx := hi.imp (congrArg some) Eq.symm
    refine ⟨?_, finish_tcif hi' _⟩
    rw [finish_ch, if_pos hi']
  · rw [finish_ch, transferLoop_ch]
    split
    · rintro ⟨-, hcount, -⟩
      exact hcount rfl
    · rename_i hother
      intro harmed
      exact hother ((h.only i harmed).imp (congrArg some) Eq.symm)

/-! ## Later accesses -/

/-- A control register of an SPI controller. -/
inductive Control where
  /-- `CR1`. -/
  | cr1
  /-- `CR2`. -/
  | cr2
  deriving DecidableEq

/-- Its address. -/
def Control.addr : Control → ℕ
  | .cr1 => 0x00
  | .cr2 => 0x04

/-- Only set the register. -/
def Soc.setControl (s : Soc δ) (k : Fin 2) (r : Control) (value : UInt32) : Soc δ :=
  s.setSpi k (match r with
    | .cr1 => { s.spi k with cr1 := value }
    | .cr2 => { s.spi k with cr2 := value })

/-- What may happen later. -/
inductive Access (δ : Type) where
  /-- A write to a register of an SPI controller. -/
  | writeSpi (k : Fin 2) (addr : ℕ) (value : UInt32)
  /-- A read of such a register. -/
  | readSpi (k : Fin 2) (addr : ℕ)
  /-- A write to a register of the DMA controller. -/
  | writeDma (addr : ℕ) (value : UInt32)
  /-- A read of such a register. -/
  | readDma (addr : ℕ)
  /-- USART1 receives bytes. -/
  | receive (bytes : List UInt8)
  /-- The data register of USART1 is read. -/
  | readUsart
  /-- The guest writes a byte of its memory. -/
  | store (address : UInt32) (byte : UInt8)
  /-- The device changes otherwise, by its chip select for example. -/
  | device (k : Fin 2) (device : δ)

/-- One step. -/
def Soc.step (s : Soc δ) : Access δ → Soc δ
  | .writeSpi k addr value => Dma.writeSpi k addr value s
  | .readSpi k addr => (Dma.readSpi k addr s).2
  | .writeDma addr value => { s with dma := Dma.writeDma addr value s.dma }
  | .readDma addr => { s with dma := (Dma.readDma addr s.dma).2 }
  | .receive bytes => { s with dma := { s.dma with usart1 := Dma.receive s.dma.usart1 bytes } }
  | .readUsart => { s with dma := (Dma.readDr s.dma).2 }
  | .store address byte => s.setByte address byte
  | .device k device => s.setSpi k { s.spi k with device := device }

/-- The access writes a count. -/
def WritesCount : Access δ → Prop
  | .writeDma addr _ => ∃ i, channelRegister addr = some (i, 0x04)
  | _ => False

/-- The access programs a channel: it writes a count, or it writes the configuration or the
peripheral address of a channel that has a count. -/
def Programs (s : Soc δ) : Access δ → Prop
  | .writeDma addr _ => ∃ i, channelRegister addr = some (i, 0x04) ∨
      ((channelRegister addr = some (i, 0x00) ∨ channelRegister addr = some (i, 0x08)) ∧
        (s.dma.ch i).cndtr ≠ 0)
  | _ => False

section Unarmed

variable {k : Fin 2}

/-- Channels that are as they were, or cannot be armed now. -/
lemma Unarmed.of_ch {s s' : State} (h : Unarmed k s)
    (hch : ∀ i, s'.ch i = s.ch i ∨ ¬ (s'.ch i).ArmedFor k) : Unarmed k s' := by
  intro i
  rcases hch i with hsame | hnot
  · rw [hsame]
    exact h i
  · exact hnot

/-- A channel without a count is not armed. -/
lemma not_armedFor_of_cndtr {c : Channel} (h : c.cndtr = 0) : ¬ c.ArmedFor k :=
  fun harmed => harmed.2.1 h

/-- A request of any controller only takes counts to zero. -/
lemma unarmed_runForSpi {s : Soc δ} (h : Unarmed k s.dma) (j : Fin 2) :
    Unarmed k (runForSpi j s).dma := by
  rw [runForSpi]
  dsimp only
  split
  · exact h
  · refine h.of_ch fun i => ?_
    dsimp only
    rw [finish_ch, transferLoop_ch]
    split
    · exact .inr (not_armedFor_of_cndtr rfl)
    · exact .inl rfl

/-- Reading a register of a controller leaves the channels. -/
lemma readSpi_dma (j : Fin 2) (addr : ℕ) (s : Soc δ) : (readSpi j addr s).2.dma = s.dma := by
  unfold readSpi
  split <;> rfl

/-- A channel written with a count of zero, or without a change to what arms it. -/
lemma Unarmed.setChannel {s : State} (h : Unarmed k s) {i : Fin 7} {c : Channel}
    (hc : ¬ c.ArmedFor k) : Unarmed k (s.setChannel i c) := by
  refine h.of_ch fun j => ?_
  by_cases hj : j = i
  · subst hj
    rw [setChannel_self]
    exact .inr hc
  · rw [setChannel_of_ne _ _ hj]
    exact .inl rfl

/-- A write that programs no channel arms none. -/
lemma unarmed_writeDma {s : Soc δ} (h : Unarmed k s.dma) {addr : ℕ} {value : UInt32}
    (hprograms : ¬ Programs s (.writeDma addr value)) : Unarmed k (writeDma addr value s.dma) := by
  rw [Programs] at hprograms
  push Not at hprograms
  rw [writeDma]
  split
  · exact h
  · split
    · rename_i i hregister
      refine h.setChannel (not_armedFor_of_cndtr ?_)
      exact (hprograms i).2 (.inl hregister)
    · rename_i i hregister
      exact absurd hregister (hprograms i).1
    · rename_i i hregister
      refine h.setChannel (not_armedFor_of_cndtr ?_)
      exact (hprograms i).2 (.inr hregister)
    · exact h.setChannel fun harmed => h _ harmed
    · exact h

/-- Moving a byte leaves the peripheral address. -/
lemma advance_cpar (c : Channel) : c.advance.1.cpar = c.cpar := by
  rcases Nat.lt_or_ge 1 c.cndtr.toNat with hmore | hlast
  · rw [advance_of_one_lt hmore]
  · by_cases hcirc : c.ccr &&& ccrCirc = 0
    · rw [advance_oneShot hlast hcirc]
    · rw [advance_circular hlast hcirc]

/-- Serving a channel leaves its peripheral address. -/
lemma serviceLoop_cpar (fuel : ℕ) (c : Channel) (r : Ring UInt8 256) :
    (serviceLoop fuel c r).2.1.cpar = c.cpar := by
  induction fuel generalizing c r with
  | zero => rfl
  | succ fuel ih =>
    rw [serviceLoop]
    split
    · rfl
    · dsimp only
      split
      · exact advance_cpar c
      · exact (ih ..).trans (advance_cpar c)

/-- A channel of USART1 is not one of an SPI controller. -/
lemma spiFor_of_serves {c : Channel} (h : c.serves = true) : spiFor c.cpar = none := by
  rw [Channel.serves, decide_eq_true_iff] at h
  rw [spiFor, h.2.2.1]
  decide

/-- Serving a channel of the serial port arms none. -/
lemma unarmed_serviceChannel {s : State} (h : Unarmed k s) (i : Fin 7) :
    Unarmed k (serviceChannel s i).2 := by
  rw [serviceChannel]
  split
  · rename_i hserves
    have hset : Unarmed k (s.setChannel i (serviceLoop 256 (s.ch i) s.usart1).2.1) := by
      refine h.setChannel fun harmed => ?_
      have hfor := harmed.2.2
      rw [serviceLoop_cpar, spiFor_of_serves hserves] at hfor
      cases hfor
    exact hset
  · exact h

/-- **An access that does not program a channel** does not arm one. -/
theorem unarmed_step {s : Soc δ} (h : Unarmed k s.dma) {a : Access δ} (ha : ¬ Programs s a) :
    Unarmed k (s.step a).dma := by
  cases a with
  | writeSpi j addr value =>
    exact writeSpi_keeps (I := Unarmed k) (fun j _ h => unarmed_runForSpi h j) h j addr value
  | readSpi j addr =>
    rw [Soc.step, readSpi_dma]
    exact h
  | writeDma addr value => exact unarmed_writeDma h ha
  | readDma addr =>
    exact readDma_keeps (I := Unarmed k) (fun _ i h => unarmed_serviceChannel h i) h addr
  | receive bytes => exact h
  | readUsart =>
    rw [Soc.step, readDr]
    split
    · exact h
    · exact h
  | store address byte => exact h
  | device j device => exact h

end Unarmed

/-- A write to a control register stores the value, and then a transfer may start. -/
lemma writeSpi_control (k : Fin 2) (r : Control) (value : UInt32) (s : Soc δ) :
    writeSpi k r.addr value s = kick k (s.setControl k r value) := by
  cases r <;> rfl

/-- Setting a register does not touch the bus. -/
lemma sameBus_setControl (k : Fin 2) (r : Control) (value : UInt32) (s : Soc δ) :
    SameBus k (s.setControl k r value) s := by
  cases r with
  | cr1 => exact ⟨rfl, by simp [Soc.setControl, Soc.setSpi], by simp [Soc.setControl, Soc.setSpi]⟩
  | cr2 => exact ⟨rfl, by simp [Soc.setControl, Soc.setSpi], by simp [Soc.setControl, Soc.setSpi]⟩

/-- A write to a control register while no channel is armed only sets the register. -/
lemma Unarmed.writeSpi {k : Fin 2} {s : Soc δ} (h : Unarmed k s.dma) (r : Control)
    (value : UInt32) : writeSpi k r.addr value s = s.setControl k r value := by
  have hset : Unarmed k (s.setControl k r value).dma := h
  rw [writeSpi_control, kick]
  split
  · exact hset.runForSpi
  · rfl

/-- **A DMA transfer is the polled transfer, once.** One channel from memory, and perhaps one to
memory, are armed for a controller with the same count. Then the write to `CR1` or `CR2` after which
`SPE` and `TXDMAEN` are set leaves the memory and the device as the loop over the data register
does, and the channels with count 0 and `TCIF`. From then on a write to a control register of this
controller does nothing else than set it, as long as no count is written and no channel that has a
count is given another configuration or peripheral address.

**Proof sketch.** The loop of the controller and the polled loop agree byte by byte on the memory
and the device, whatever overlaps. Afterwards no channel is armed, and only an access that programs
one can change that. -/
theorem duplex_eq_polled {k : Fin 2} {tx : Fin 7} {rx : Option (Fin 7)} {n : UInt32} {s : Soc δ}
    (harmed : Duplex k tx rx n s.dma.ch) (r : Control) (value : UInt32)
    (hrequests : (s.setControl k r value).Requests k) :
    SameBus k (writeSpi k r.addr value s)
        (polled k (s.dma.ch tx) (rx.map s.dma.ch) n.toNat s) ∧
      (∀ i, i = tx ∨ rx = some i → ((writeSpi k r.addr value s).dma.ch i).cndtr = 0 ∧
        (writeSpi k r.addr value s).dma.isr &&& flagTcif i ≠ 0) ∧
      ∀ accesses : List (Access δ),
        Run.AllSteps Soc.step (fun s a => ¬ Programs s a) (writeSpi k r.addr value s) accesses →
        ∀ (r' : Control) (value' : UInt32),
          writeSpi k r'.addr value' (accesses.foldl Soc.step (writeSpi k r.addr value s)) =
            (accesses.foldl Soc.step (writeSpi k r.addr value s)).setControl k r' value' := by
  have hch : Duplex k tx rx n (s.setControl k r value).dma.ch := harmed
  obtain ⟨hbus, hdone, hunarmed⟩ := runForSpi_eq hch (sameBus_setControl k r value s)
  have hwrite : writeSpi k r.addr value s = runForSpi k (s.setControl k r value) := by
    rw [writeSpi_control, kick, if_pos hrequests]
  rw [hwrite]
  refine ⟨hbus, hdone, fun accesses haccesses r' value' => Unarmed.writeSpi ?_ r' value'⟩
  exact (Run.allStates_of_allSteps (I := fun s : Soc δ => Unarmed k s.dma)
    (fun _ _ h ha => unarmed_step h ha) accesses _ hunarmed haccesses).last

/-- A device that counts the bytes it is sent. -/
def counter : Spi ℕ := ⟨cr1Spe, 0, srTxe, 0xff, some fun bytes _ => (0xff, bytes + 1), 0⟩

/-- Two channels are armed for SPI1, and a third one has a count but is not enabled. -/
def staleCount : Soc ℕ where
  spi := fun _ => counter
  dma :=
    { isr := 0
      ch := fun i =>
        if i = 4 then ⟨ccrEn ||| ccrDir ||| ccrMinc, 2, 0x4001300c, 0x20000000, 2⟩
        else if i = 3 then ⟨ccrEn ||| ccrMinc, 2, 0x4001300c, 0x20000100, 2⟩
        else if i = 0 then ⟨ccrDir, 1, 0x4001300c, 0x20000000, 1⟩
        else ⟨0, 0, 0, 0, 0⟩
      irq123 := false
      irq4567 := false
      usart1 := ⟨fun _ => 0, 0, 0⟩
      memory := fun _ => 0 }

/-- The two channels of the example, one from memory and one to memory. -/
lemma duplex_staleCount : Duplex 0 4 (some 3) 2 staleCount.dma.ch where
  sends := by decide
  collects i hi := by
    cases hi
    decide
  only := by decide

/-- Two channels move two bytes, once. -/
theorem duplex_staleCount_once :
    SameBus 0 (writeSpi 0 0x04 cr2Txdmaen staleCount)
        (polled 0 (staleCount.dma.ch 4) (some (staleCount.dma.ch 3)) 2 staleCount) ∧
      ((writeSpi 0 0x04 cr2Txdmaen staleCount).spi 0).device = 2 :=
  ⟨(duplex_eq_polled duplex_staleCount .cr2 cr2Txdmaen (by decide)).1, by decide +kernel⟩

/-- Once the two bytes are moved, the third channel is enabled; the next write to `CR2` moves
another byte, and no count has been written. -/
theorem stale_count_moves_again :
    ¬ ∀ (k : Fin 2) (tx : Fin 7) (rx : Option (Fin 7)) (n : UInt32) (s : Soc ℕ),
      Duplex k tx rx n s.dma.ch → ∀ (r : Control) (value : UInt32),
        (s.setControl k r value).Requests k →
        ∀ accesses : List (Access ℕ), (∀ a ∈ accesses, ¬ WritesCount a) →
        ∀ (r' : Control) (value' : UInt32),
          writeSpi k r'.addr value' (accesses.foldl Soc.step (writeSpi k r.addr value s)) =
            (accesses.foldl Soc.step (writeSpi k r.addr value s)).setControl k r' value' := by
  intro h
  have hsame := h 0 4 (some 3) 2 staleCount duplex_staleCount .cr2 cr2Txdmaen (by decide)
    [.writeDma 0x08 (ccrEn ||| ccrDir)] (by simp [WritesCount, channelRegister]) .cr2 cr2Txdmaen
  have hdevice := congrArg (fun s => (s.spi 0).device) hsame
  exact absurd hdevice (by decide +kernel)

end Uvk5.Dma
