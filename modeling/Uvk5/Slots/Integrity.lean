import Uvk5.Lib.Crc
import Uvk5.Slots.Packing

set_option relaxedAutoImplicit false
set_option autoImplicit false

/-!
# Damage to stored images (`tools/uvk5_slots.py`, `tools/uvk5_apps.py`)

A firmware slot and an app are stored with the CRC-32 of their bytes. Damage to at most four bytes
in a row, whatever they become, changes the CRC: the slot is then listed with `crc_ok` false, and
the app is refused.

## Main results

* `Slots.crc32_ne_of_burst` — what the CRC-32 sees.
* `Slots.readSlot_of_damaged` — a damaged firmware slot.
* `Apps.parse_of_damaged` — a damaged app.
-/

namespace Uvk5.Slots

open Bytes Crc

/-- The polynomial of the CRC-32, the lowest coefficient at the high end. -/
def crc32Poly : BitVec 32 := 0xEDB88320#32

/-- The polynomial has its highest coefficient. -/
lemma crc32Poly_msb : crc32Poly.msb = true := by decide

/-- The register behind the CRC-32. -/
def crc32Register : Register 32 UInt8 := lsbBytes crc32Poly crc32Poly_msb

/-- A bit of the checksum is a shift of the register. -/
lemma toBitVec_crc32Bit (c : UInt32) : (crc32Bit c).toBitVec = lsbShift crc32Poly c.toBitVec := by
  have hlow : c &&& 1 ≠ 0 ↔ c.toBitVec.getLsbD 0 = true := by
    have hand : (c &&& 1).toBitVec = (BitVec.ofBool (c.toBitVec.getLsbD 0)).setWidth 32 := by
      rw [UInt32.toBitVec_and]
      exact BitVec.and_one_eq_setWidth_ofBool_getLsbD
    rw [Ne, ← UInt32.toBitVec_inj, hand]
    cases c.toBitVec.getLsbD 0 with
    | false => simp
    | true => simp
  unfold crc32Bit lsbShift
  split
  · next hset =>
    rw [if_pos (hlow.mp hset), UInt32.toBitVec_xor]
    rfl
  · next hclear =>
    rw [if_neg (mt hlow.mpr hclear)]
    rfl

/-- A byte of the checksum is a symbol for the register. -/
lemma toBitVec_crc32Byte (c : UInt32) (b : UInt8) :
    (crc32Byte c b).toBitVec = crc32Register.shift (c.toBitVec ^^^ crc32Register.symbol b) := by
  have hbits : ∀ k d, (crc32Bit^[k] d).toBitVec = (lsbShift crc32Poly)^[k] d.toBitVec := by
    intro k d
    induction k generalizing d with
    | zero => rfl
    | succ k ih =>
      rw [Function.iterate_succ_apply, ih, toBitVec_crc32Bit, Function.iterate_succ_apply]
  exact hbits 8 _

/-- The checksum of some bytes is what the register makes of them. -/
lemma toBitVec_foldl_crc32Byte (c : UInt32) (l : List UInt8) :
    (l.foldl crc32Byte c).toBitVec = crc32Register.feed c.toBitVec l := by
  induction l generalizing c with
  | nil => rfl
  | cons b l ih => rw [List.foldl_cons, ih, toBitVec_crc32Byte, Register.feed_cons]

/-- The CRC-32 sees an error within four bytes. -/
theorem crc32_ne_of_burst {i j : ℕ} {a b : List UInt8} (h : Burst 4 i j a b) :
    crc32 a ≠ crc32 b := by
  intro heq
  rw [crc32, crc32, UInt32.xor_left_inj, ← UInt32.toBitVec_inj, toBitVec_foldl_crc32Byte,
    toBitVec_foldl_crc32Byte] at heq
  exact (lsbWindow crc32Poly crc32Poly_msb (by decide)).feed_ne_of_burst _ h heq

/-- **A damaged firmware slot**: when up to four bytes in a row of an intact image change, the
slot is listed as before, but with `crc_ok` false.

**Proof sketch.** The change begins after the header, so the fields and the tests that come from
them are as before; and two images that differ by a burst of four bytes have different checksums. -/
theorem readSlot_of_damaged {buf buf' : List UInt8} {slot : ℤ} {header : SlotHeader}
    {image : List UInt8} (h : readSlot buf slot = .ok (some (header, image)))
    (hok : header.crcOk = true)
    (hdamage : Burst 4 (header.base + slotImageOffset)
      (header.base + slotImageOffset + header.imageSize) buf buf') :
    ∃ image', readSlot buf' slot = .ok (some ({ header with crcOk := false }, image')) := by
  rw [readSlot] at h
  cases hbase : slotBase slot with
  | none =>
    rw [hbase] at h
    cases h
  | some base =>
    rw [hbase] at h
    dsimp only at h
    split at h
    · cases h
    · next hroom =>
      split at h
      · cases h
      · next hcommitted =>
        obtain ⟨rfl, rfl⟩ := Prod.mk.inj (Option.some.inj (Except.ok.inj h))
        dsimp only at hok hdamage
        have hheader : ∀ i k, k ≤ 48 →
            slice buf' (base + i) (base + k) = slice buf (base + i) (base + k) := by
          intro i k hk
          refine hdamage.slice_eq ?_
          simp only [slotImageOffset]
          omega
        have hmagic : slice buf' base (base + 4) = slice buf base (base + 4) :=
          hheader 0 4 (by decide)
        have hcrc := crc32_ne_of_burst hdamage.slice
        have hbad : ((crc32 (slice buf' (base + slotImageOffset) (base + slotImageOffset +
            ofLe (slice buf (base + 8) (base + 12))))).toNat ==
              ofLe (slice buf (base + 12) (base + 16))) = false := by
          rw [← beq_iff_eq.mp hok, beq_eq_false_iff_ne]
          exact fun heq => hcrc (UInt32.toNat_inj.mp heq).symm
        rw [readSlot, hbase]
        dsimp only
        rw [if_neg (hdamage.length_eq ▸ hroom), hmagic, hheader 4 6 (by decide),
          hheader 6 8 (by decide), hheader 8 12 (by decide), hheader 12 16 (by decide),
          hheader 16 32 (by decide), hheader 32 48 (by decide), if_neg hcommitted, hbad]
        exact ⟨_, rfl⟩

/-- A flash image with a firmware of two bytes in slot 1. -/
def smallFlash : List UInt8 :=
  overlay (written 0x40000 ((buildHeader [0xde, 0xad] "fw" "1.0").getD []) [0xde, 0xad])
    (List.replicate flashSize 0xff)

/-- The small flash carries an image of two bytes in slot 1. -/
lemma carries_smallFlash : Carries smallFlash
    (written 0x40000 ((buildHeader [0xde, 0xad] "fw" "1.0").getD []) [0xde, 0xad]) := by
  refine carries_overlay fun i hi => ?_
  have hheader : buildHeader [0xde, 0xad] "fw" "1.0" =
      some ((buildHeader [0xde, 0xad] "fw" "1.0").getD []) := rfl
  have hhead := length_buildHeader hheader
  rw [written, Ne, Option.or_eq_none_iff, placed_eq_none_iff, placed_eq_none_iff, hhead] at hi
  simp only [slotImageOffset, List.length_cons, List.length_nil] at hi
  rw [List.length_replicate, flashSize]
  omega

/-- One bit of the small image is damaged: the slot is read, and its checksum is wrong. -/
theorem readSlot_of_damaged_byte :
    ∃ image', readSlot (smallFlash.set 0x41001 0xac) 1 = .ok (some
      ({ writtenHeader 1 0x40000 [0xde, 0xad] "fw" "1.0" with crcOk := false }, image')) := by
  have hlength : flashSize ≤ smallFlash.length := by
    rw [smallFlash, length_overlay, List.length_replicate]
  have hread : readSlot smallFlash 1 =
      .ok (some (writtenHeader 1 0x40000 [0xde, 0xad] "fw" "1.0", [0xde, 0xad])) :=
    readSlot_of_written rfl rfl hlength carries_smallFlash
  have hbyte : smallFlash[0x41001]? = some 0xad := carries_smallFlash _ _ rfl
  exact readSlot_of_damaged hread rfl
    (.of_set hbyte (by decide) (by decide) (by decide) (by decide))

end Uvk5.Slots

namespace Uvk5.Apps

open Bytes Slots Crc

/-- The CRC-32 of the code in a package with so many bytes of code. -/
def codeCrc (blob : List UInt8) (codeSize : ℕ) : ℕ :=
  (crc32 (slice blob hdrSize (hdrSize + codeSize))).toNat

/-- **A damaged app** is refused: when up to four bytes in a row of its code change, the header is
as before, and its CRC is not that of the code.

**Proof sketch.** The change begins after the header, so every test of `parse` but that of the
checksum turns out as before; and two texts that differ by a burst of four bytes have different
checksums. -/
theorem parse_of_damaged {blob blob' : List UInt8} {info : AppInfo}
    (h : parse blob true = .ok info)
    (hdamage : Burst 4 hdrSize (hdrSize + info.codeSize) blob blob') :
    codeCrc blob' info.codeSize ≠ info.crc32 ∧
      parse blob' true = .error (.crc (codeCrc blob' info.codeSize) info.crc32) := by
  obtain ⟨hinfo, -, -, -⟩ := parse_strict h
  have hfield : ∀ {i k}, k ≤ hdrSize → slice blob' i k = slice blob i k :=
    fun hk => hdamage.slice_eq hk
  have hheader : headerInfo blob' = headerInfo blob := by
    unfold headerInfo
    simp (disch := decide) only [hfield]
  subst hinfo
  have hcrc := crc32_ne_of_burst hdamage.slice
  rw [parse] at h ⊢
  dsimp only at h ⊢
  rw [hheader, ← hdamage.length_eq]
  -- Every test but the one of the CRC turns out as it did.
  split at h
  · cases h
  · next hlong =>
    rw [if_neg hlong]
    split at h
    · cases h
    · next hmagic =>
      rw [Bool.not_true, if_neg Bool.false_ne_true] at h
      rw [if_neg hmagic, Bool.not_true, if_neg Bool.false_ne_true]
      split at h
      · cases h
      · next hversion =>
        rw [if_neg hversion]
        split at h
        · cases h
        · next hsize =>
          rw [if_neg hsize]
          split at h
          · cases h
          · next hheld =>
            rw [if_neg hheld]
            split at h
            · cases h
            · next hequal =>
              have hactual : codeCrc blob' (headerInfo blob).codeSize ≠
                  (headerInfo blob).crc32 := by
                rw [codeCrc, ← not_not.mp hequal]
                exact fun heq => hcrc (UInt32.toNat_inj.mp heq).symm
              rw [codeCrc] at hactual ⊢
              rw [if_pos hactual]
              exact ⟨hactual, rfl⟩

/-- So `install` refuses it with the two checksums, that of the header and that of the damaged code,
which differ, and leaves the flash image alone, whether or not it is told to overwrite.

**Proof sketch.** `install` parses the package before it looks at the image. -/
theorem install_of_damaged {blob blob' : List UInt8} {info : AppInfo}
    (h : parse blob true = .ok info)
    (hdamage : Burst 4 hdrSize (hdrSize + info.codeSize) blob blob') (slot : ℤ) (force : Bool)
    (image : List UInt8) :
    codeCrc blob' info.codeSize ≠ info.crc32 ∧ install slot blob' force image =
      (.error (.crc (codeCrc blob' info.codeSize) info.crc32), image) := by
  obtain ⟨hdiffer, hparse⟩ := parse_of_damaged h hdamage
  refine ⟨hdiffer, ?_⟩
  rw [install, hparse]
  rfl

/-- An app with four bytes of code, one of them damaged. -/
theorem install_of_damaged_beam :
    codeCrc (beamBlob.set 65 0xff) 4 ≠ 0x8bb98613 ∧
      install 3 (beamBlob.set 65 0xff) false smallFlash =
        (.error (.crc (codeCrc (beamBlob.set 65 0xff) 4) 0x8bb98613), smallFlash) := by
  have hparse : parse beamBlob true = .ok (headerInfo beamBlob) := by decide +kernel
  have hbyte : beamBlob[65]? = some 1 := by decide
  exact install_of_damaged hparse
    (.of_set hbyte (by decide) (by decide) (by decide) (by decide)) 3 false smallFlash

end Uvk5.Apps
