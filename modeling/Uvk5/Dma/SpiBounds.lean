import Uvk5.Dma.Spi

set_option relaxedAutoImplicit false
set_option autoImplicit false

/-!
# Where an SPI transfer writes (`qemu/py32f071.c`)

A transfer clocks as many bytes as the channel from memory counts, and stores what comes back
through the channel to memory. Nothing compares the two counts.

## Main definitions

* `Dma.loggedRun` — a transfer, with the list of what it writes.
* `Dma.Transmits`, `Dma.Receives` — the channels that are served.
* `Dma.InBuffer`, `Dma.TransferInBounds` — writing into the buffer of the channel only.

## Main results

* `Dma.loggedRun_snd`, `Dma.runForSpi_memory` — the list is what the transfer writes.
* `Dma.findChannels_fst`, `Dma.findChannels_snd` — the search finds the last armed channels.
* `Dma.transferInBounds_iff` — when a transfer stays in the buffer.
-/

namespace Uvk5.Dma

variable {δ : Type}

/-- One of the `n` addresses from `base` on, which go on at 0. -/
def InBuffer (base n address : UInt32) : Prop := address - base < n

instance (base n address : UInt32) : Decidable (InBuffer base n address) :=
  inferInstanceAs (Decidable (_ < _))

/-! ## The writes -/

/-- The loop of `py32_dma_run_for_spi`, with what it writes. -/
def loggedLoop (k : Fin 2) (tx rx : Option Channel) :
    ℕ → UInt32 → UInt32 → Soc δ → List Transfer × Soc δ
  | 0, _, _, s => ([], s)
  | count + 1, txAddr, rxAddr, s =>
    let out := if tx.isSome then s.dma.memory txAddr else 0xff
    let (byte, p) := (s.spi k).xferByte out
    let s := s.setSpi k p
    let s := if rx.isSome then s.setByte rxAddr byte else s
    let (log, s) := loggedLoop k tx rx count (tx.elim txAddr (·.advanceAddress txAddr))
      (rx.elim rxAddr (·.advanceAddress rxAddr)) s
    (if rx.isSome then ⟨rxAddr, byte⟩ :: log else log, s)

/-- `py32_dma_run_for_spi`, with what it writes. -/
def loggedRun (k : Fin 2) (s : Soc δ) : List Transfer × Soc δ :=
  let (tx, rx) := findChannels s.dma.ch k
  if tx = none ∧ rx = none then ([], s)
  else
    let txCh := tx.map s.dma.ch
    let rxCh := rx.map s.dma.ch
    let count := match txCh with
      | some c => c.cndtr
      | none => rxCh.elim 0 Channel.cndtr
    let (log, s) := loggedLoop k txCh rxCh count.toNat (txCh.elim 0 Channel.cmar)
      (rxCh.elim 0 Channel.cmar) s
    (log, { s with dma := finish tx rx s.dma })

/-- Noting what is written changes nothing of the loop. -/
lemma loggedLoop_snd (k : Fin 2) (tx rx : Option Channel) (count : ℕ) (txAddr rxAddr : UInt32)
    (s : Soc δ) :
    (loggedLoop k tx rx count txAddr rxAddr s).2 = transferLoop k tx rx count txAddr rxAddr s := by
  induction count generalizing txAddr rxAddr s with
  | zero => rfl
  | succ count ih =>
    rw [loggedLoop, transferLoop]
    exact ih ..

/-- The list changes nothing. -/
lemma loggedRun_snd (k : Fin 2) (s : Soc δ) : (loggedRun k s).2 = runForSpi k s := by
  rw [loggedRun, runForSpi]
  obtain ⟨tx, rx⟩ := findChannels s.dma.ch k
  dsimp only
  split
  · rfl
  · exact congrArg (fun t : Soc δ => ({ t with dma := finish tx rx t.dma } : Soc δ))
      (loggedLoop_snd ..)

/-- The memory is what the loop writes, over what was there. -/
lemma loggedLoop_memory (k : Fin 2) (tx rx : Option Channel) (count : ℕ) (txAddr rxAddr : UInt32)
    (s : Soc δ) : (loggedLoop k tx rx count txAddr rxAddr s).2.dma.memory =
      store s.dma.memory (loggedLoop k tx rx count txAddr rxAddr s).1 := by
  induction count generalizing txAddr rxAddr s with
  | zero => rfl
  | succ count ih =>
    rw [loggedLoop]
    refine (ih ..).trans ?_
    cases rx with
    | none => rfl
    | some c => rfl

/-- The memory after a transfer is what the list says. -/
lemma runForSpi_memory (k : Fin 2) (s : Soc δ) :
    (runForSpi k s).dma.memory = store s.dma.memory (loggedRun k s).1 := by
  rw [← loggedRun_snd, loggedRun]
  dsimp only
  split
  · rfl
  · exact (finish_memory ..).trans (loggedLoop_memory ..)

/-- Without a channel to memory nothing is written. -/
lemma loggedLoop_none (k : Fin 2) (tx : Option Channel) (count : ℕ) (txAddr rxAddr : UInt32)
    (s : Soc δ) : (loggedLoop k tx none count txAddr rxAddr s).1 = [] := by
  induction count generalizing txAddr rxAddr s with
  | zero => rfl
  | succ count ih =>
    rw [loggedLoop]
    exact ih ..

/-- The addresses of the writes follow each other. -/
lemma loggedLoop_addresses (k : Fin 2) (tx : Option Channel) (c : Channel) (count i : ℕ)
    (txAddr : UInt32) (s : Soc δ) :
    (loggedLoop k tx (some c) count txAddr (c.address i) s).1.map Transfer.address =
      (List.range' i count).map c.address := by
  induction count generalizing i txAddr s with
  | zero => rfl
  | succ count ih =>
    rw [loggedLoop, List.range'_succ, List.map_cons]
    simp only [Option.isSome_some, if_true, List.map_cons, Option.elim_some,
      advanceAddress_address]
    rw [ih]

/-! ## The channels -/

/-- The last one with a property. -/
def LastOf (p : Fin 7 → Prop) (i : Fin 7) : Prop := p i ∧ ∀ j, i < j → ¬ p j

/-- The channel from memory that a transfer serves. -/
def Transmits (ch : Fin 7 → Channel) (k : Fin 2) : Fin 7 → Prop :=
  LastOf fun i => (ch i).ArmedFor k ∧ (ch i).FromMemory

/-- The channel to memory that a transfer serves. -/
def Receives (ch : Fin 7 → Channel) (k : Fin 2) : Fin 7 → Prop :=
  LastOf fun i => (ch i).ArmedFor k ∧ ¬ (ch i).FromMemory

/-- A search that overwrites what it has found ends with the last match.

**Proof sketch.** Induction from the end of the list. The last element is found if it matches,
since it is the greatest; otherwise it changes nothing. -/
lemma foldl_eq_some_iff {α : Type} [LinearOrder α] (p : α → Prop) [DecidablePred p] {l : List α}
    (hsorted : l.Pairwise (· < ·)) (i : α) :
    l.foldl (fun found j => if p j then some j else found) none = some i ↔
      i ∈ l ∧ p i ∧ ∀ j ∈ l, i < j → ¬ p j := by
  induction l using List.reverseRecOn with
  | nil => simp
  | append_singleton l a ih =>
    rw [List.pairwise_append] at hsorted
    obtain ⟨hl, -, hbelow⟩ := hsorted
    have hlt : ∀ j ∈ l, j < a := fun j hj => hbelow j hj a (List.mem_singleton_self a)
    rw [List.foldl_append, List.foldl_cons, List.foldl_nil]
    by_cases ha : p a
    · rw [if_pos ha]
      constructor
      · rintro ⟨⟩
        refine ⟨by simp, ha, fun j hj hgt => ?_⟩
        rcases List.mem_append.mp hj with hj | hj
        · exact absurd hgt (lt_asymm (hlt j hj))
        · exact absurd (List.mem_singleton.mp hj) hgt.ne'
      · rintro ⟨hi, -, hlast⟩
        rcases List.mem_append.mp hi with hi | hi
        · exact absurd ha (hlast a (by simp) (hlt i hi))
        · rw [List.mem_singleton.mp hi]
    · rw [if_neg ha, ih hl]
      constructor
      · rintro ⟨hi, hp, hlast⟩
        refine ⟨List.mem_append_left _ hi, hp, fun j hj hgt => ?_⟩
        rcases List.mem_append.mp hj with hj | hj
        · exact hlast j hj hgt
        · rw [List.mem_singleton.mp hj]
          exact ha
      · rintro ⟨hi, hp, hlast⟩
        refine ⟨?_, hp, fun j hj => hlast j (List.mem_append_left _ hj)⟩
        rcases List.mem_append.mp hi with hi | hi
        · exact hi
        · rw [List.mem_singleton.mp hi] at hp
          exact absurd hp ha

/-- The search finds the last channel with the property. -/
lemma foldl_finRange_iff (p : Fin 7 → Prop) [DecidablePred p] (i : Fin 7) :
    (List.finRange 7).foldl (fun found j => if p j then some j else found) none = some i ↔
      LastOf p i := by
  rw [foldl_eq_some_iff p (List.pairwise_lt_finRange 7)]
  simp [LastOf]

section Search

variable (ch : Fin 7 → Channel) (k : Fin 2)

/-- The channel from memory that is found. -/
lemma findChannels_fst (i : Fin 7) : (findChannels ch k).1 = some i ↔ Transmits ch k i := by
  rw [Transmits, ← foldl_finRange_iff, findChannels]
  refine Eq.congr_left (List.foldl_hom Prod.fst fun found j => ?_).symm
  by_cases harmed : (ch j).ArmedFor k
  · by_cases hfrom : (ch j).FromMemory
    · simp [harmed, hfrom]
    · simp [harmed, hfrom]
  · simp [harmed]

/-- The channel to memory that is found. -/
lemma findChannels_snd (i : Fin 7) : (findChannels ch k).2 = some i ↔ Receives ch k i := by
  rw [Receives, ← foldl_finRange_iff, findChannels]
  refine Eq.congr_left (List.foldl_hom Prod.snd fun found j => ?_).symm
  by_cases harmed : (ch j).ArmedFor k
  · by_cases hfrom : (ch j).FromMemory
    · simp [harmed, hfrom]
    · simp [harmed, hfrom]
  · simp [harmed]

end Search

/-! ## The buffer -/

/-- The transfer writes only into the buffer of the channel to memory that it serves, and serves no
channel without a count. -/
def TransferInBounds (k : Fin 2) (s : Soc δ) : Prop :=
  (∀ t ∈ (loggedRun k s).1, ∃ i, Receives s.dma.ch k i ∧
    InBuffer (s.dma.ch i).cmar (s.dma.ch i).cndtr t.address) ∧
  ∀ i, (findChannels s.dma.ch k).1 = some i ∨ (findChannels s.dma.ch k).2 = some i →
    (s.dma.ch i).cndtr ≠ 0

/-- `n` bytes stay in a buffer exactly if it is long enough or they all go to its first place. -/
lemma address_inBuffer_iff {c : Channel} (hc : c.cndtr ≠ 0) {n : ℕ} (hn : n < 2 ^ 32) :
    (∀ i < n, InBuffer c.cmar c.cndtr (c.address i)) ↔
      c.ccr &&& ccrMinc = 0 ∨ n ≤ c.cndtr.toNat := by
  have hpos : 0 < c.cndtr.toNat :=
    Nat.pos_of_ne_zero fun h => hc (UInt32.toNat_inj.mp h)
  by_cases hminc : c.ccr &&& ccrMinc = 0
  · have hsame : ∀ i, c.address i = c.cmar := by
      intro i
      rw [Channel.address, if_neg (not_not.mpr hminc), UInt32.add_zero]
    refine iff_of_true (fun i _ => ?_) (.inl hminc)
    rw [InBuffer, hsame, UInt32.sub_self]
    exact UInt32.lt_iff_toNat_lt.mpr hpos
  · have hoffset : ∀ i, c.address i - c.cmar = UInt32.ofNat i := by
      intro i
      rw [Channel.address, if_pos hminc, UInt32.add_comm, UInt32.add_sub_cancel]
    have hinside : ∀ i < n, InBuffer c.cmar c.cndtr (c.address i) ↔ i < c.cndtr.toNat := by
      intro i hi
      rw [InBuffer, hoffset, UInt32.lt_iff_toNat_lt,
        UInt32.toNat_ofNat_of_lt' (show i < UInt32.size from Nat.lt_trans hi hn)]
    constructor
    · intro h
      refine .inr (Nat.le_of_not_lt fun hlong => ?_)
      exact Nat.lt_irrefl _ ((hinside _ hlong).mp (h _ hlong))
    · rintro (hzero | hle) i hi
      · exact absurd hzero hminc
      · exact (hinside i hi).mpr (Nat.lt_of_lt_of_le hi hle)

/-- The writes of a loop stay in the buffer of the channel. -/
lemma loggedLoop_inBuffer_iff (k : Fin 2) (tx : Option Channel) {c : Channel} (hc : c.cndtr ≠ 0)
    {n : ℕ} (hn : n < 2 ^ 32) (txAddr : UInt32) (s : Soc δ) :
    (∀ t ∈ (loggedLoop k tx (some c) n txAddr c.cmar s).1,
        InBuffer c.cmar c.cndtr t.address) ↔
      c.ccr &&& ccrMinc = 0 ∨ n ≤ c.cndtr.toNat := by
  have haddresses := loggedLoop_addresses k tx c n 0 txAddr s
  rw [address_zero] at haddresses
  rw [← address_inBuffer_iff hc hn, ← List.forall_mem_map, haddresses, List.forall_mem_map,
    List.range'_eq_map_range]
  simp

/-- **When a transfer stays in the buffer.** Whatever the channels hold, every write goes to the
buffer of the channel to memory that is served, and no channel without a count is served, exactly if
the channel from memory, when there is one too, counts at most as many bytes, or the channel to
memory does not move its address.

**Proof sketch.** The loop runs as often as the channel from memory says, or the one to memory if it
is alone, and its `i`-th write goes `i` bytes behind the first one. -/
theorem transferInBounds_iff (k : Fin 2) (s : Soc δ) :
    TransferInBounds k s ↔ ∀ i j, Transmits s.dma.ch k i → Receives s.dma.ch k j →
      (s.dma.ch j).ccr &&& ccrMinc = 0 ∨ (s.dma.ch i).cndtr ≤ (s.dma.ch j).cndtr := by
  have hfst := findChannels_fst s.dma.ch k
  have hsnd := findChannels_snd s.dma.ch k
  have hcounts : ∀ i, (findChannels s.dma.ch k).1 = some i ∨ (findChannels s.dma.ch k).2 = some i →
      (s.dma.ch i).cndtr ≠ 0 := by
    rintro i (hi | hi)
    · exact ((hfst i).mp hi).1.1.2.1
    · exact ((hsnd i).mp hi).1.1.2.1
  rw [TransferInBounds, and_iff_left hcounts, loggedRun]
  generalize hfound : findChannels s.dma.ch k = found at *
  obtain ⟨tx, rx⟩ := found
  dsimp only at *
  cases rx with
  | none =>
    refine iff_of_true ?_ fun i j _ hj => absurd ((hsnd j).mpr hj) nofun
    split
    · exact List.forall_mem_nil _
    · rw [Option.map_none, loggedLoop_none]
      exact List.forall_mem_nil _
  | some j =>
    have hj : Receives s.dma.ch k j := (hsnd j).mp rfl
    have honly : ∀ j', Receives s.dma.ch k j' ↔ j' = j := fun j' => by
      rw [← hsnd j', Option.some_inj, eq_comm]
    have hcount := hj.1.1.2.1
    rw [if_neg (by simp)]
    simp only [honly, exists_eq_left, Option.map_some, Option.elim_some]
    rw [loggedLoop_inBuffer_iff k _ hcount (UInt32.toNat_lt _)]
    cases tx with
    | none =>
      refine iff_of_true (.inr le_rfl) fun i _ hi => absurd ((hfst i).mpr hi) nofun
    | some i =>
      have hi : ∀ i', Transmits s.dma.ch k i' ↔ i' = i := fun i' => by
        rw [← hfst i', Option.some_inj, eq_comm]
      simp only [hi, Option.map_some, UInt32.le_iff_toNat_le]
      constructor
      · rintro h _ _ rfl rfl
        exact h
      · exact fun h => h i j rfl rfl

/-- Four bytes are sent, and one is to be received. -/
def shortReceive : Soc ℕ where
  spi := fun _ => counter
  dma := { staleCount.dma with
    ch := fun i =>
      if i = 4 then ⟨ccrEn ||| ccrDir ||| ccrMinc, 4, 0x4001300c, 0x20000000, 4⟩
      else if i = 3 then ⟨ccrEn ||| ccrMinc, 1, 0x4001300c, 0x20000100, 1⟩
      else ⟨0, 0, 0, 0, 0⟩ }

/-- Three bytes go behind a buffer of one byte. -/
theorem short_receive_overrun : ¬ ∀ (k : Fin 2) (s : Soc ℕ), TransferInBounds k s := by
  intro h
  obtain ⟨i, hi, hin⟩ := (h 0 shortReceive).1 ⟨0x20000101, 0xff⟩ (by decide +kernel)
  have hthree : i = 3 := Option.some_inj.mp
    (((findChannels_snd _ _ i).mpr hi).symm.trans (by decide +kernel))
  subst hthree
  exact absurd hin (by decide +kernel)

end Uvk5.Dma
