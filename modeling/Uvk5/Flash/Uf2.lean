import Uvk5.Lib.Overlay
import Uvk5.Lib.Proc

set_option relaxedAutoImplicit false
set_option autoImplicit false

/-!
# UF2 files in a flash image (`tools/make_flash.py`)

A UF2 file is a sequence of blocks of 512 bytes, each with the address of its payload. The payloads
are placed in a flash image one after the other; a block that is not well formed ends the program.

## Main definitions

* `Uf2.Block`, `Uf2.blocks` — what is read of a block, and the blocks of a file.
* `Uf2.applyUf2` — `apply_uf2`.

## Main results

* `Uf2.applyUf2_ok_iff` — when it returns.
* `Uf2.applyUf2_law` — the image keeps its length, and each byte is that of the last block that
  covers it.
-/

namespace Uvk5.Uf2

open Bytes

/-- `UF2_MAGIC0`. -/
def uf2Magic0 : ℕ := 0x0A324655
/-- `UF2_MAGIC1`. -/
def uf2Magic1 : ℕ := 0x9E5D5157
/-- `UF2_MAGIC_END`. -/
def uf2MagicEnd : ℕ := 0x0AB16F30

/-- The `SystemExit` of `apply_uf2`. -/
inductive Uf2Error where
  /-- `"not a UF2 image (size is not a multiple of 512)"`. -/
  | notUf2
  /-- `"bad UF2 magic at block ..."`. -/
  | badMagic (block : ℕ)
  /-- `"block ... claims ... payload bytes"`. -/
  | tooLong (block plen : ℕ)
  /-- `"block ... writes ..., past the end of the ...-byte flash"`. -/
  | pastEnd (block addr last length : ℕ)
  deriving DecidableEq

/-- What is read of a block. -/
structure Block where
  /-- `m0`. -/
  m0 : ℕ
  /-- `m1`. -/
  m1 : ℕ
  /-- `mend`. -/
  mend : ℕ
  /-- `addr`. -/
  addr : ℕ
  /-- `plen`. -/
  plen : ℕ
  /-- The bytes that are written. -/
  payload : List UInt8
  deriving DecidableEq

/-- The block at an offset. -/
def blockAt (data : List UInt8) (i : ℕ) : Block :=
  let plen := ofLe (slice data (i + 16) (i + 20))
  { m0 := ofLe (slice data i (i + 4))
    m1 := ofLe (slice data (i + 4) (i + 8))
    mend := ofLe (slice data (i + 508) (i + 512))
    addr := ofLe (slice data (i + 12) (i + 16))
    plen := plen
    payload := slice data (i + 32) (i + 32 + plen) }

/-- One turn of the loop of `apply_uf2`. -/
def applyBlock (data : List UInt8) (block : ℕ) : Proc (List UInt8) Uf2Error Unit := fun image =>
  let b := blockAt data (512 * block)
  if b.m0 ≠ uf2Magic0 ∨ b.m1 ≠ uf2Magic1 ∨ b.mend ≠ uf2MagicEnd then
    (.error (.badMagic block), image)
  else if b.plen > 476 then (.error (.tooLong block b.plen), image)
  else if b.addr + b.plen > image.length then
    (.error (.pastEnd block b.addr (b.addr + b.plen) image.length), image)
  else (.ok (), assign image b.addr (b.addr + b.plen) b.payload)

/-- `apply_uf2`. -/
def applyUf2 (data : List UInt8) : Proc (List UInt8) Uf2Error Unit :=
  if data.length % 512 ≠ 0 then Proc.raise .notUf2
  else Proc.forEach (applyBlock data) (List.range (data.length / 512))

/-- The blocks of a file. -/
def blocks (data : List UInt8) : List Block :=
  (List.range (data.length / 512)).map fun block => blockAt data (512 * block)

/-- The block writes to an address. -/
def Block.Covers (b : Block) (i : ℕ) : Prop := b.addr ≤ i ∧ i < b.addr + b.plen

instance (b : Block) (i : ℕ) : Decidable (b.Covers i) :=
  inferInstanceAs (Decidable (_ ∧ _))

/-- The last block that writes to an address. -/
def lastCovering (bs : List Block) (i : ℕ) : Option Block := bs.reverse.find? (·.Covers i)

/-! ## One block -/

/-- A block that is placed in an image of some size. -/
def Block.Fits (size : ℕ) (b : Block) : Prop :=
  b.m0 = uf2Magic0 ∧ b.m1 = uf2Magic1 ∧ b.mend = uf2MagicEnd ∧ b.plen ≤ 476 ∧
    b.addr + b.plen ≤ size

/-- What a block writes. -/
def Block.patch (b : Block) : ℕ → Option UInt8 := placed b.addr b.payload

/-- The payload of a block of the file is as long as the block says, if it is not too long. -/
lemma length_payload {data : List UInt8} {block : ℕ} (hblock : block < data.length / 512)
    (hplen : (blockAt data (512 * block)).plen ≤ 476) :
    (blockAt data (512 * block)).payload.length = (blockAt data (512 * block)).plen := by
  have hpayload : (blockAt data (512 * block)).payload = slice data (512 * block + 32)
      (512 * block + 32 + (blockAt data (512 * block)).plen) := rfl
  rw [hpayload, length_slice]
  omega

/-- **A block is placed**, or is refused before anything is written. -/
lemma applyBlock_cases {data : List UInt8} (image : List UInt8) {block : ℕ}
    (hblock : block < data.length / 512) :
    ((blockAt data (512 * block)).Fits image.length ∧
        applyBlock data block image =
          (.ok (), overlay (blockAt data (512 * block)).patch image)) ∨
      (¬ (blockAt data (512 * block)).Fits image.length ∧
        ∃ e, applyBlock data block image = (.error e, image)) := by
  rw [applyBlock]
  split
  · next hmagic => exact .inr ⟨fun h => hmagic.elim (· h.1) (·.elim (· h.2.1) (· h.2.2.1)), _, rfl⟩
  next hmagic =>
  split
  · next hplen => exact .inr ⟨fun h => absurd h.2.2.2.1 (Nat.not_le.mpr hplen), _, rfl⟩
  next hplen =>
  split
  · next hend => exact .inr ⟨fun h => absurd h.2.2.2.2 (Nat.not_le.mpr hend), _, rfl⟩
  next hend =>
  have hlength := length_payload hblock (Nat.not_lt.mp hplen)
  push Not at hmagic
  refine .inl ⟨⟨hmagic.1, hmagic.2.1, hmagic.2.2, Nat.not_lt.mp hplen, Nat.not_lt.mp hend⟩, ?_⟩
  rw [← hlength, assign_eq_overlay (by omega)]
  rfl

/-! ## All blocks -/

/-- The loop places all blocks, or raises; the image keeps its length. -/
lemma forEach_applyBlock {data : List UInt8} (ks : List ℕ) (hks : ∀ k ∈ ks, k < data.length / 512)
    (image : List UInt8) :
    ((∀ k ∈ ks, (blockAt data (512 * k)).Fits image.length) ∧
        Proc.forEach (applyBlock data) ks image =
          (.ok (), overlay (lastOf (ks.map fun k => (blockAt data (512 * k)).patch)) image)) ∨
      (¬ (∀ k ∈ ks, (blockAt data (512 * k)).Fits image.length) ∧
        ∃ e image', Proc.forEach (applyBlock data) ks image = (.error e, image') ∧
          image'.length = image.length) := by
  induction ks generalizing image with
  | nil =>
    refine .inl ⟨nofun, ?_⟩
    rw [List.map_nil, ← foldl_overlay]
    rfl
  | cons k ks ih =>
    obtain ⟨hk, hrest⟩ := List.forall_mem_cons.mp hks
    rw [Proc.forEach, List.map_cons, ← foldl_overlay, List.foldl_cons, foldl_overlay]
    rcases applyBlock_cases image hk with ⟨hfits, hrun⟩ | ⟨hfits, e, hrun⟩
    · rw [Proc.bind_of_ok hrun]
      have hlater := ih hrest (overlay (blockAt data (512 * k)).patch image)
      rw [length_overlay] at hlater
      rcases hlater with ⟨hall, hrun'⟩ | ⟨hnot, hrun'⟩
      · exact .inl ⟨List.forall_mem_cons.mpr ⟨hfits, hall⟩, hrun'⟩
      · exact .inr ⟨fun h => hnot (List.forall_mem_cons.mp h).2, hrun'⟩
    · rw [Proc.bind_of_error hrun]
      exact .inr ⟨fun h => hfits (List.forall_mem_cons.mp h).1, e, image, rfl, rfl⟩

/-- The file places all its blocks, or raises; the image keeps its length. -/
lemma applyUf2_cases (data image : List UInt8) :
    ((data.length % 512 = 0 ∧ ∀ b ∈ blocks data, b.Fits image.length) ∧
        applyUf2 data image =
          (.ok (), overlay (lastOf ((blocks data).map Block.patch)) image)) ∨
      (¬ (data.length % 512 = 0 ∧ ∀ b ∈ blocks data, b.Fits image.length) ∧
        ∃ e image', applyUf2 data image = (.error e, image') ∧ image'.length = image.length) := by
  rw [applyUf2]
  split
  · next hlen => exact .inr ⟨fun h => hlen h.1, .notUf2, image, rfl, rfl⟩
  next hlen =>
  have hall : (∀ b ∈ blocks data, b.Fits image.length) ↔
      ∀ k ∈ List.range (data.length / 512), (blockAt data (512 * k)).Fits image.length :=
    List.forall_mem_map
  rw [hall, blocks, List.map_map, and_iff_right (not_not.mp hlen)]
  exact forEach_applyBlock _ (fun k hk => List.mem_range.mp hk) image

/-- **When `apply_uf2` returns**: the file is a whole number of blocks, and every one of them is
well formed and lies in the image. -/
theorem applyUf2_ok_iff (data image : List UInt8) :
    (applyUf2 data image).1 = .ok () ↔
      data.length % 512 = 0 ∧ ∀ b ∈ blocks data, b.Fits image.length := by
  rcases applyUf2_cases data image with ⟨hfits, hrun⟩ | ⟨hnot, e, image', hrun, -⟩
  · rw [hrun]
    exact iff_of_true rfl hfits
  · rw [hrun]
    exact iff_of_false nofun hnot

/-- What is found is a block of the list, and it covers the address. -/
lemma mem_of_lastCovering {bs : List Block} {i : ℕ} {b : Block} (h : lastCovering bs i = some b) :
    b ∈ bs ∧ b.Covers i :=
  ⟨List.mem_reverse.mp (List.mem_of_find?_eq_some h), by simpa using List.find?_some h⟩

/-- What the last block says is what the last block that covers the address says. -/
lemma lastOf_patch {bs : List Block} (hlength : ∀ b ∈ bs, b.payload.length = b.plen) (i : ℕ) :
    lastOf (bs.map Block.patch) i =
      (lastCovering bs i).bind fun b => b.payload[i - b.addr]? := by
  induction bs with
  | nil => rfl
  | cons b bs ih =>
    obtain ⟨hb, hrest⟩ := List.forall_mem_cons.mp hlength
    rw [List.map_cons, lastOf, ih hrest, lastCovering, lastCovering, List.reverse_cons,
      List.find?_append]
    cases hlater : bs.reverse.find? (·.Covers i) with
    | some c =>
      obtain ⟨hmem, hc⟩ := mem_of_lastCovering hlater
      have hin : i - c.addr < c.payload.length := by
        rw [hrest c hmem]
        obtain ⟨hlow, hhigh⟩ := hc
        omega
      rw [Option.bind_some, Option.some_or, Option.bind_some, List.getElem?_eq_getElem hin,
        Option.some_or]
    | none =>
      rw [Option.bind_none, Option.none_or, Option.none_or, Block.patch, placed]
      by_cases hc : b.Covers i
      · rw [if_pos hc.1, List.find?_singleton, if_pos (decide_eq_true hc), Option.bind_some]
      · have hout : placed b.addr b.payload i = none := by
          refine placed_eq_none_iff.mpr ?_
          rw [hb]
          by_contra hin
          exact hc ⟨by omega, by omega⟩
        rw [placed] at hout
        rw [hout, List.find?_singleton, if_neg (by simpa using hc), Option.bind_none]

/-- Two blocks have no address in common. -/
def Block.Disjoint (b c : Block) : Prop := ∀ i, ¬ (b.Covers i ∧ c.Covers i)

/-- Blocks that have no address in common write to different places. -/
lemma apart_patch {b c : Block} (hb : b.payload.length = b.plen) (hc : c.payload.length = c.plen)
    (h : b.Disjoint c) : Apart b.patch c.patch := by
  intro i
  rw [Block.patch, Block.patch, placed_eq_none_iff, placed_eq_none_iff, hb, hc]
  by_contra hboth
  exact h i ⟨⟨by omega, by omega⟩, by omega, by omega⟩

/-- **The law of `apply_uf2`.** The image keeps its length, whatever the file is. If nothing is
raised, every block lies in the image, each byte is that of the last block that covers its address,
or the one that was there, and if no two blocks have an address in common, a file with the same
blocks in another order leaves the same image.

**Proof sketch.** `applyUf2_cases`: either it raises, and the length is as before, or every block
fits and the image is the overlay of the blocks in the order of the file. In an overlay the last
block at an address wins, and blocks that are apart commute. -/
theorem applyUf2_law (data image : List UInt8) :
    (applyUf2 data image).2.length = image.length ∧
      ((applyUf2 data image).1 = .ok () →
        (∀ b ∈ blocks data, b.addr + b.plen ≤ image.length) ∧
        (∀ i, (applyUf2 data image).2[i]? =
          match lastCovering (blocks data) i with
          | some b => b.payload[i - b.addr]?
          | none => image[i]?) ∧
        ((blocks data).Pairwise Block.Disjoint → ∀ data', data'.length % 512 = 0 →
          (blocks data).Perm (blocks data') → applyUf2 data' image = applyUf2 data image)) := by
  rcases applyUf2_cases data image with ⟨⟨hlen, hfits⟩, hrun⟩ | ⟨-, e, image', hrun, hlength⟩
  swap
  · rw [hrun]
    exact ⟨hlength, nofun⟩
  have hlength : ∀ b ∈ blocks data, b.payload.length = b.plen := by
    intro b hb
    obtain ⟨k, hk, rfl⟩ := List.mem_map.mp hb
    exact length_payload (List.mem_range.mp hk) (hfits _ hb).2.2.2.1
  rw [hrun]
  refine ⟨length_overlay .., fun _ => ⟨fun b hb => (hfits b hb).2.2.2.2, fun i => ?_, ?_⟩⟩
  · rw [getElem?_overlay, lastOf_patch hlength]
    cases hlast : lastCovering (blocks data) i with
    | none => exact Option.map_id'
    | some b =>
      obtain ⟨hmem, hlow, hhigh⟩ := mem_of_lastCovering hlast
      have hend := (hfits b hmem).2.2.2.2
      have hin : i - b.addr < b.payload.length := by
        rw [hlength b hmem]
        omega
      rw [Option.bind_some, List.getElem?_eq_getElem hin,
        List.getElem?_eq_getElem (show i < image.length by omega)]
      exact (List.getElem?_eq_getElem hin).symm
  · intro hdisjoint data' hlen' hperm
    have hfits' : ∀ b ∈ blocks data', b.Fits image.length := fun b hb =>
      hfits b (hperm.mem_iff.mpr hb)
    have hapart : ((blocks data).map Block.patch).Pairwise Apart := by
      refine List.pairwise_map.mpr (List.Pairwise.imp_of_mem ?_ hdisjoint)
      exact fun hb hc h => apart_patch (hlength _ hb) (hlength _ hc) h
    rcases applyUf2_cases data' image with ⟨-, hrun'⟩ | ⟨hnot, -⟩
    · rw [hrun', ← foldl_overlay, ← foldl_overlay,
        foldl_overlay_perm (hperm.map Block.patch) hapart]
    · exact absurd ⟨hlen', hfits'⟩ hnot

end Uvk5.Uf2
