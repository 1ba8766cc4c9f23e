import Uvk5.Lib.Crc
import Uvk5.Serial.Framing

set_option relaxedAutoImplicit false
set_option autoImplicit false

/-!
# What the checksum of a frame sees (`tools/uvk5_serial_flash.py`)

The checksum of a message is a CRC-16 with the polynomial `x^16 + x^12 + x^5 + 1`. It sees every
error within two bytes in a row, and every error in an odd number of bits.

## Main results

* `Serial.parity_crc16Xmodem` — the checksum has the parity of the message.
* `Serial.crc16Xmodem_ne` — the errors that are always seen.
-/

namespace Uvk5.Serial

open Crc

/-- The polynomial of `crc16_xmodem`, without its highest term. -/
def crc16Poly : BitVec 16 := 0x1021#16

/-- The polynomial has its lowest coefficient. -/
lemma crc16Poly_low : crc16Poly.getLsbD 0 = true := by decide

/-- The register behind `crc16_xmodem`. -/
def crc16Register : Register 16 UInt8 := msbBytes crc16Poly crc16Poly_low

/-- A bit of the checksum is a shift of the register. -/
lemma toBitVec_crc16Bit (c : UInt16) : (crc16Bit c).toBitVec = msbShift crc16Poly c.toBitVec := by
  have hhigh : c &&& 0x8000 ≠ 0 ↔ c.toBitVec.msb = true := by
    have hand : (c &&& 0x8000).toBitVec =
        if c.toBitVec.getLsbD 15 then BitVec.twoPow 16 15 else 0#16 := by
      rw [UInt16.toBitVec_and]
      exact BitVec.and_twoPow c.toBitVec 15
    rw [Ne, ← UInt16.toBitVec_inj, hand, BitVec.msb_eq_getLsbD_last]
    cases c.toBitVec.getLsbD 15 with
    | false => simp
    | true => simp
  unfold crc16Bit msbShift
  split
  · next hset =>
    rw [if_pos (hhigh.mp hset), UInt16.toBitVec_xor]
    rfl
  · next hclear =>
    rw [if_neg (mt hhigh.mpr hclear)]
    rfl

/-- A byte of the checksum is a symbol for the register. -/
lemma toBitVec_crc16Byte (c : UInt16) (b : UInt8) :
    (crc16Byte c b).toBitVec = crc16Register.shift (c.toBitVec ^^^ crc16Register.symbol b) := by
  have hbits : ∀ k d, (crc16Bit^[k] d).toBitVec = (msbShift crc16Poly)^[k] d.toBitVec := by
    intro k d
    induction k generalizing d with
    | zero => rfl
    | succ k ih =>
      rw [Function.iterate_succ_apply, ih, toBitVec_crc16Bit, Function.iterate_succ_apply]
  exact hbits 8 _

/-- The checksum is what the register makes of the bytes. -/
lemma toBitVec_crc16Xmodem (data : List UInt8) :
    (crc16Xmodem data).toBitVec = crc16Register.feed 0 data := by
  have hfold : ∀ c : UInt16,
      (data.foldl crc16Byte c).toBitVec = crc16Register.feed c.toBitVec data := by
    intro c
    induction data generalizing c with
    | nil => rfl
    | cons b data ih => rw [List.foldl_cons, ih, toBitVec_crc16Byte, Register.feed_cons]
  exact hfold 0

/-- Whether the number of bits set in a message is odd. -/
def oddBits (data : List UInt8) : Bool := data.foldl (fun odd b => odd ^^ parity b.toBitVec) false

/-- **The checksum has the parity of the message.** -/
theorem parity_crc16Xmodem (data : List UInt8) :
    parity (crc16Xmodem data).toBitVec = oddBits data := by
  have hshift : ∀ x, parity (crc16Register.shift x) = parity x := by
    intro x
    have hiterate : ∀ k y, parity ((msbShift crc16Poly)^[k] y) = parity y := by
      intro k y
      induction k generalizing y with
      | zero => rfl
      | succ k ih => rw [Function.iterate_succ_apply, ih, parity_msbShift (by decide)]
    exact hiterate 8 x
  have hsymbol : ∀ b : UInt8, parity (crc16Register.symbol b) = parity b.toBitVec := by
    intro b
    have hbelow : parityBelow (b.toBitVec.setWidth 16) 8 = parityBelow b.toBitVec 8 :=
      parityBelow_setWidth b.toBitVec (by decide)
    exact (parityBelow_shiftLeft (b.toBitVec.setWidth 16) (by decide)).trans hbelow
  rw [toBitVec_crc16Xmodem, crc16Register.feed_conserved parity_xor hshift]
  simp only [hsymbol]
  rfl

/-- **The errors that are always seen**: one within two bytes in a row, and one in an odd number of
bits.

**Proof sketch.** The register is linear, and a burst that fits into it leaves it at something
else than 0. The polynomial has an even number of terms, so the parity of the register is that of
the message. -/
theorem crc16Xmodem_ne {i j : ℕ} {a b : List UInt8}
    (h : Burst 2 i j a b ∨ oddBits a ≠ oddBits b) : crc16Xmodem a ≠ crc16Xmodem b := by
  intro heq
  rcases h with hburst | hodd
  · have hfeed : crc16Register.feed 0 a = crc16Register.feed 0 b := by
      rw [← toBitVec_crc16Xmodem, heq, toBitVec_crc16Xmodem]
    exact (msbWindow crc16Poly crc16Poly_low (by decide)).feed_ne_of_burst 0 hburst hfeed
  · rw [← parity_crc16Xmodem, heq, parity_crc16Xmodem] at hodd
    exact hodd rfl

/-- Two bytes of a message are damaged, and its checksum changes. -/
theorem crc16Xmodem_ne_small : crc16Xmodem [0x14, 0x05, 0x00, 0x00] ≠
    crc16Xmodem [0x14, 0x06, 0x01, 0x00] := by
  refine crc16Xmodem_ne (i := 0) (j := 4) (.inl ?_)
  exact ⟨[0x14], [0x05, 0x00], [0x06, 0x01], [0x00], rfl, by decide, by decide, by decide,
    by decide, rfl, rfl⟩

end Uvk5.Serial
