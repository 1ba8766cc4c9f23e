import Mathlib.Logic.Function.Iterate
import Uvk5.Lib.Bytes

set_option relaxedAutoImplicit false
set_option autoImplicit false

/-!
# Cyclic redundancy checks

A register takes the symbols of a text one after the other: each is added to its value, bit by bit
and without carries, and the sum is shifted. The shift is linear and loses nothing, so two texts
that differ in a short stretch only leave different values.

## Main definitions

* `Crc.Register`, `Crc.Register.feed` — a register, and a text fed to it.
* `Crc.Window` — how far back in the text the value of the register reaches.
* `Crc.Burst` — a text with an error in a short stretch.
* `Crc.lsbShift`, `Crc.msbShift` — division by a polynomial, from the low end and from the high end.

## Main results

* `Crc.Register.feed_eq` — a short text only enters through its sum.
* `Crc.Window.feed_ne_of_burst` — a short error is always seen.
* `Crc.Register.feed_conserved` — what the shift conserves is the sum over the text.
-/

namespace Uvk5.Crc

variable {w : ℕ} {α : Type}

/-! ## Registers -/

/-- A register of `w` bits. -/
structure Register (w : ℕ) (α : Type) where
  /-- The shift. -/
  shift : BitVec w → BitVec w
  /-- What a symbol adds. -/
  symbol : α → BitVec w
  /-- The shift is linear. -/
  shift_xor : ∀ x y, shift (x ^^^ y) = shift x ^^^ shift y
  /-- Nothing is lost. -/
  eq_zero_of_shift : ∀ x, shift x = 0 → x = 0

namespace Register

variable (r : Register w α)

/-- A text is fed to the register. -/
def feed (c : BitVec w) (l : List α) : BitVec w :=
  l.foldl (fun c a => r.shift (c ^^^ r.symbol a)) c

/-- The first symbol goes into the register before the rest. -/
@[simp] lemma feed_cons (c : BitVec w) (a : α) (l : List α) :
    r.feed c (a :: l) = r.feed (r.shift (c ^^^ r.symbol a)) l := rfl

/-- A text goes into the register before the one behind it. -/
lemma feed_append (c : BitVec w) (l k : List α) : r.feed c (l ++ k) = r.feed (r.feed c l) k :=
  List.foldl_append

/-- Different registers shift to different ones. -/
lemma shift_injective : Function.Injective r.shift := by
  intro x y h
  have hzero : r.shift (x ^^^ y) = 0 := by
    rw [r.shift_xor, h]
    exact BitVec.xor_self
  exact BitVec.xor_eq_zero_iff.mp (r.eq_zero_of_shift _ hzero)

/-- Behind different values the same text leaves different values. -/
lemma feed_injective (l : List α) : Function.Injective (r.feed · l) := by
  induction l with
  | nil => exact fun _ _ h => h
  | cons a l ih =>
    intro c d h
    have hshift : r.shift (c ^^^ r.symbol a) = r.shift (d ^^^ r.symbol a) := ih h
    exact (BitVec.xor_left_inj _).mp (r.shift_injective hshift)

/-- **What the shift conserves** is the sum of what it is of the symbols. -/
theorem feed_conserved {φ : BitVec w → Bool} (hxor : ∀ x y, φ (x ^^^ y) = (φ x ^^ φ y))
    (hshift : ∀ x, φ (r.shift x) = φ x) (c : BitVec w) (l : List α) :
    φ (r.feed c l) = l.foldl (fun b a => b ^^ φ (r.symbol a)) (φ c) := by
  induction l generalizing c with
  | nil => rfl
  | cons a l ih => rw [feed_cons, ih, hshift, hxor, List.foldl_cons]

end Register

/-! ## Windows -/

/-- The last `n` symbols can be read off the value of the register. -/
structure Window (r : Register w α) (n : ℕ) where
  /-- A value is moved back by one symbol. -/
  back : BitVec w → BitVec w
  /-- The value of a text of some symbols. -/
  Fits : ℕ → BitVec w → Prop
  fits_zero : Fits 0 0
  fits_cons : ∀ {k x} (a : α), k < n → Fits k x → Fits (k + 1) (r.symbol a ^^^ back x)
  shift_back : ∀ {k x}, k < n → Fits k x → r.shift (back x) = x
  cons_inj : ∀ {k x y} {a b : α}, k < n → Fits k x → Fits k y →
    r.symbol a ^^^ back x = r.symbol b ^^^ back y → a = b ∧ x = y

namespace Window

variable {r : Register w α} {n : ℕ} (W : Window r n)

/-- The sum of a text, each symbol at its place. -/
def pack : List α → BitVec w
  | [] => 0
  | a :: l => r.symbol a ^^^ W.back (pack l)

/-- What a text that fits the window is packed to fits its length. -/
lemma fits_pack {l : List α} (h : l.length ≤ n) : W.Fits l.length (W.pack l) := by
  induction l with
  | nil => exact W.fits_zero
  | cons a l ih => exact W.fits_cons a h (ih (Nat.le_of_succ_le h))

/-- **A short text enters through its sum.** -/
theorem feed_eq (c : BitVec w) {l : List α} (h : l.length ≤ n) :
    r.feed c l = r.shift^[l.length] (c ^^^ W.pack l) := by
  induction l generalizing c with
  | nil => exact BitVec.xor_zero.symm
  | cons a l ih =>
    have hl : l.length ≤ n := Nat.le_of_succ_le h
    rw [Register.feed_cons, ih _ hl, List.length_cons, Function.iterate_succ_apply, pack,
      ← BitVec.xor_assoc, r.shift_xor (c ^^^ r.symbol a), W.shift_back h (W.fits_pack hl)]

/-- Texts that fit the window and are packed to the same are the same. -/
lemma pack_inj {l k : List α} (hlength : l.length = k.length) (h : l.length ≤ n)
    (hpack : W.pack l = W.pack k) : l = k := by
  induction l generalizing k with
  | nil => exact (List.length_eq_zero_iff.mp hlength.symm).symm
  | cons a l ih =>
    cases k with
    | nil => cases hlength
    | cons b k =>
      have hlength' : l.length = k.length := Nat.succ.inj hlength
      have hl : l.length ≤ n := Nat.le_of_succ_le h
      have hfits : W.Fits l.length (W.pack k) := hlength' ▸ W.fits_pack (hlength' ▸ hl)
      obtain ⟨rfl, hrest⟩ := W.cons_inj h (W.fits_pack hl) hfits hpack
      rw [ih hlength' hl hrest]

end Window

/-! ## Errors -/

/-- The second text is the first with an error within `n` symbols in a row, all of them between the
offsets `i` and `j`. -/
def Burst (n i j : ℕ) (a b : List α) : Prop :=
  ∃ p l l' s, l.length = l'.length ∧ l.length ≤ n ∧ l ≠ l' ∧ i ≤ p.length ∧
    p.length + l.length ≤ j ∧ a = p ++ (l ++ s) ∧ b = p ++ (l' ++ s)

namespace Burst

variable {n i j : ℕ}

/-- A burst changes no length. -/
lemma length_eq {a b : List α} (h : Burst n i j a b) : a.length = b.length := by
  obtain ⟨p, l, l', s, hlength, -, -, -, -, rfl, rfl⟩ := h
  simp only [List.length_append, hlength]

/-- The slice it lies in has the error. -/
lemma slice {a b : List UInt8} (h : Burst n i j a b) :
    Burst n 0 (j - i) (Bytes.slice a i j) (Bytes.slice b i j) := by
  obtain ⟨p, l, l', s, hlength, hl, hne, hi, hj, rfl, rfl⟩ := h
  refine ⟨p.drop i, l, l', s.take (j - p.length - l.length), hlength, hl, hne, Nat.zero_le _, ?_,
    ?_, ?_⟩
  · rw [List.length_drop]
    omega
  · rw [Bytes.slice, List.drop_append_of_le_length hi, List.take_append, List.take_append,
      List.take_of_length_le (by rw [List.length_drop]; omega),
      List.take_of_length_le (by rw [List.length_drop]; omega), List.length_drop]
    congr 3
    omega
  · rw [Bytes.slice, List.drop_append_of_le_length hi, List.take_append, List.take_append,
      List.take_of_length_le (by rw [List.length_drop]; omega),
      List.take_of_length_le (by rw [List.length_drop]; omega), List.length_drop, hlength]
    congr 3
    omega

/-- One symbol that changes. -/
lemma of_set {l : List α} {a b : α} {k : ℕ} (ha : l[k]? = some a) (hab : a ≠ b) (hn : 0 < n)
    (hi : i ≤ k) (hj : k < j) : Burst n i j l (l.set k b) := by
  have hk : k < l.length := (List.getElem?_eq_some_iff.mp ha).1
  have hget : l[k] = a := (List.getElem?_eq_some_iff.mp ha).2
  refine ⟨l.take k, [a], [b], l.drop (k + 1), rfl, hn, by simpa using hab, ?_, ?_, ?_, ?_⟩
  · rw [List.length_take]
    omega
  · rw [List.length_take, List.length_singleton]
    omega
  · rw [List.singleton_append, ← hget, ← List.drop_eq_getElem_cons hk, List.take_append_drop]
  · rw [List.set_eq_take_append_cons_drop, if_pos hk, List.singleton_append]

/-- A slice in front of it is as before. -/
lemma slice_eq {a b : List UInt8} (h : Burst n i j a b) {m k : ℕ} (hk : k ≤ i) :
    Bytes.slice b m k = Bytes.slice a m k := by
  obtain ⟨p, l, l', s, -, -, -, hi, -, rfl, rfl⟩ := h
  have hin : k ≤ p.length := Nat.le_trans hk hi
  rw [Bytes.slice_append_left _ hin, Bytes.slice_append_left _ hin]

end Burst

/-- **A short error is always seen.**

**Proof sketch.** The text before the error leaves some value. The two stretches enter through their
sums, which are different, and the shift keeps them apart, as the text behind does. -/
theorem Window.feed_ne_of_burst {r : Register w α} {n : ℕ} (W : Window r n) (c : BitVec w)
    {i j : ℕ} {a b : List α} (h : Burst n i j a b) : r.feed c a ≠ r.feed c b := by
  obtain ⟨p, l, l', s, hlength, hl, hne, -, -, rfl, rfl⟩ := h
  intro heq
  rw [Register.feed_append, Register.feed_append, Register.feed_append, Register.feed_append] at heq
  have hmiddle : r.feed (r.feed c p) l = r.feed (r.feed c p) l' := r.feed_injective s heq
  have hl' : l'.length ≤ n := by rwa [← hlength]
  rw [W.feed_eq _ hl, W.feed_eq _ hl', ← hlength] at hmiddle
  have hsum := r.shift_injective.iterate l.length hmiddle
  exact hne (W.pack_inj hlength hl ((BitVec.xor_right_inj _).mp hsum))

/-! ## Division by a polynomial -/

/-- One bit, from the low end: the highest coefficient of `p` is left out. -/
def lsbShift (p x : BitVec w) : BitVec w := if x.getLsbD 0 then (x >>> 1) ^^^ p else x >>> 1

/-- One bit, from the high end. -/
def msbShift (p x : BitVec w) : BitVec w := if x.msb then (x <<< 1) ^^^ p else x <<< 1

/-- What is added to both cancels. -/
lemma xor_xor_cancel (a b p : BitVec w) : (a ^^^ p) ^^^ (b ^^^ p) = a ^^^ b := by
  rw [BitVec.xor_comm b p, BitVec.xor_assoc, ← BitVec.xor_assoc p, BitVec.xor_self,
    BitVec.zero_xor]

/-- Shifting is linear. -/
lemma lsbShift_xor (p x y : BitVec w) : lsbShift p (x ^^^ y) = lsbShift p x ^^^ lsbShift p y := by
  unfold lsbShift
  rw [BitVec.getLsbD_xor, BitVec.ushiftRight_xor_distrib]
  cases x.getLsbD 0 with
  | false =>
    cases y.getLsbD 0 with
    | false => simp
    | true => simp [BitVec.xor_assoc]
  | true =>
    cases y.getLsbD 0 with
    | false => simp [BitVec.xor_assoc, BitVec.xor_comm p]
    | true => simp [xor_xor_cancel]

/-- Shifting is linear from the high end, too. -/
lemma msbShift_xor (p x y : BitVec w) : msbShift p (x ^^^ y) = msbShift p x ^^^ msbShift p y := by
  unfold msbShift
  rw [BitVec.msb_xor, BitVec.shiftLeft_xor_distrib]
  cases x.msb with
  | false =>
    cases y.msb with
    | false => simp
    | true => simp [BitVec.xor_assoc]
  | true =>
    cases y.msb with
    | false => simp [BitVec.xor_assoc, BitVec.xor_comm p]
    | true => simp [xor_xor_cancel]

/-- Nothing is lost if the lowest coefficient of the polynomial is not 0. -/
lemma eq_zero_of_lsbShift {p x : BitVec w} (hp : p.msb = true) (h : lsbShift p x = 0) : x = 0 := by
  have hw : 0 < w := by
    rcases Nat.eq_zero_or_pos w with rfl | hw
    · simp [BitVec.msb, BitVec.getMsbD] at hp
    · exact hw
  have hlow : x.getLsbD 0 = false := by
    by_contra hone
    rw [lsbShift, if_pos (by simpa using hone)] at h
    have htop := congrArg BitVec.msb h
    rw [BitVec.msb_xor, hp, BitVec.msb_ushiftRight] at htop
    simp at htop
  rw [lsbShift, if_neg (by simp [hlow])] at h
  refine BitVec.eq_of_getLsbD_eq fun i _ => ?_
  cases i with
  | zero => simpa using hlow
  | succ i =>
    have hbit := congrArg (·.getLsbD i) h
    simpa [BitVec.getLsbD_ushiftRight, Nat.add_comm] using hbit

/-- Only zero shifts to zero, if the lowest coefficient is there. -/
lemma eq_zero_of_msbShift {p x : BitVec w} (hp : p.getLsbD 0 = true) (h : msbShift p x = 0) :
    x = 0 := by
  have htop : x.msb = false := by
    by_contra hone
    rw [msbShift, if_pos (by simpa using hone)] at h
    have hlow := congrArg (·.getLsbD 0) h
    simp [hp] at hlow
  rw [msbShift, if_neg (by simp [htop])] at h
  refine BitVec.eq_of_getLsbD_eq fun i hi => ?_
  rcases Nat.lt_or_ge (i + 1) w with hin | hout
  · have hbit : (x <<< 1).getLsbD (i + 1) = (0 : BitVec w).getLsbD (i + 1) :=
      congrArg (BitVec.getLsbD · (i + 1)) h
    simp only [BitVec.getLsbD_shiftLeft, hin, decide_true, Bool.true_and,
      Nat.add_sub_cancel] at hbit
    simpa using hbit
  · obtain rfl : i = w - 1 := by omega
    rw [BitVec.msb_eq_getLsbD_last] at htop
    simpa using htop

/-- A shift back is undone as long as no bit is pushed out. -/
lemma lsbShift_iterate_shiftLeft (p : BitVec w) {x : BitVec w} {k : ℕ}
    (h : ∀ i, w ≤ i + k → x.getLsbD i = false) : (lsbShift p)^[k] (x <<< k) = x := by
  induction k with
  | zero => simp
  | succ k ih =>
    have hlow : (x <<< (k + 1)).getLsbD 0 = false := by simp [BitVec.getLsbD_shiftLeft]
    have hback : (x <<< (k + 1)) >>> 1 = x <<< k := by
      refine BitVec.eq_of_getLsbD_eq fun i hi => ?_
      rw [BitVec.getLsbD_ushiftRight, BitVec.getLsbD_shiftLeft, BitVec.getLsbD_shiftLeft]
      rcases Nat.lt_or_ge (1 + i) w with hin | hout
      · have hsub : 1 + i - (k + 1) = i - k := by omega
        have hlt : 1 + i < k + 1 ↔ i < k := by omega
        simp [hin, hi, hsub, hlt]
      · have hzero : x.getLsbD (i - k) = false := h _ (by omega)
        simp [Nat.not_lt.mpr hout, hzero]
    rw [Function.iterate_succ_apply, lsbShift, if_neg (by simp [hlow]), hback]
    exact ih fun i hi => h i (by omega)

/-- Shifting back what was shifted out as zeros. -/
lemma msbShift_iterate_ushiftRight (p : BitVec w) {x : BitVec w} {k : ℕ}
    (h : ∀ i < k, x.getLsbD i = false) : (msbShift p)^[k] (x >>> k) = x := by
  induction k with
  | zero => simp
  | succ k ih =>
    have htop : (x >>> (k + 1)).msb = false := by simp [BitVec.msb_ushiftRight]
    have hback : (x >>> (k + 1)) <<< 1 = x >>> k := by
      refine BitVec.eq_of_getLsbD_eq fun i hi => ?_
      rw [BitVec.getLsbD_ushiftRight, BitVec.getLsbD_shiftLeft, BitVec.getLsbD_ushiftRight]
      cases i with
      | zero => simpa using (h k (Nat.lt_succ_self k)).symm
      | succ i =>
        have hsum : k + 1 + i = k + (i + 1) := by omega
        simp [hi, hsum]
    rw [Function.iterate_succ_apply, msbShift, if_neg (by simp [htop]), hback]
    exact ih fun i hi => h i (by omega)

section Iterate

variable {f : BitVec w → BitVec w} (k : ℕ)

/-- What is linear is so however often it is done. -/
lemma iterate_xor (hxor : ∀ x y, f (x ^^^ y) = f x ^^^ f y) (x y : BitVec w) :
    f^[k] (x ^^^ y) = f^[k] x ^^^ f^[k] y := by
  induction k generalizing x y with
  | zero => rfl
  | succ k ih => rw [Function.iterate_succ_apply, hxor, ih, Function.iterate_succ_apply,
      Function.iterate_succ_apply]

/-- What takes only zero to zero does so however often it is done. -/
lemma eq_zero_of_iterate (hzero : ∀ x, f x = 0 → x = 0) {x : BitVec w} (h : f^[k] x = 0) :
    x = 0 := by
  induction k generalizing x with
  | zero => exact h
  | succ k ih => exact hzero x (ih h)

end Iterate

/-! ## Parity -/

/-- Whether the number of bits set below `k` is odd. -/
def parityBelow (x : BitVec w) : ℕ → Bool
  | 0 => false
  | k + 1 => parityBelow x k ^^ x.getLsbD k

/-- Whether the number of bits set is odd. -/
def parity (x : BitVec w) : Bool := parityBelow x w

/-- The parity of a sum, below a bit. -/
lemma parityBelow_xor (x y : BitVec w) (k : ℕ) :
    parityBelow (x ^^^ y) k = (parityBelow x k ^^ parityBelow y k) := by
  induction k with
  | zero => rfl
  | succ k ih =>
    simp only [parityBelow, ih, BitVec.getLsbD_xor, Bool.xor_assoc]
    rw [Bool.xor_left_comm (x.getLsbD k)]

/-- The parity of a sum. -/
lemma parity_xor (x y : BitVec w) : parity (x ^^^ y) = (parity x ^^ parity y) :=
  parityBelow_xor x y w

/-- The parity below a bit does not depend on the width. -/
lemma parityBelow_setWidth (x : BitVec w) {v k : ℕ} (h : k ≤ v) :
    parityBelow (x.setWidth v) k = parityBelow x k := by
  induction k with
  | zero => rfl
  | succ k ih =>
    have hin : k < v := h
    simp [parityBelow, ih (Nat.le_of_succ_le h), hin]

/-- What is shifted in does not count. -/
lemma parityBelow_shiftLeft (x : BitVec w) {n k : ℕ} (h : k + n ≤ w) :
    parityBelow (x <<< n) (k + n) = parityBelow x k := by
  have hlow : ∀ m ≤ n, parityBelow (x <<< n) m = false := by
    intro m hm
    induction m with
    | zero => rfl
    | succ m ih =>
      have hlt : m < n := hm
      simp [parityBelow, ih (Nat.le_of_succ_le hm), BitVec.getLsbD_shiftLeft, hlt]
  induction k with
  | zero =>
    rw [Nat.zero_add]
    exact hlow n (Nat.le_refl n)
  | succ k ih =>
    have hin : k + n < w := by omega
    rw [Nat.succ_add, parityBelow, ih (by omega), parityBelow, BitVec.getLsbD_shiftLeft]
    simp [hin]

/-- A polynomial with an odd number of terms below its highest one conserves the parity. -/
lemma parity_msbShift {p : BitVec w} (hp : parity p = true) (x : BitVec w) :
    parity (msbShift p x) = parity x := by
  cases w with
  | zero => cases hp
  | succ m =>
    have hsplit : parity x = (parity (x <<< 1) ^^ x.msb) := by
      unfold parity
      rw [parityBelow_shiftLeft x (Nat.le_refl _), parityBelow, BitVec.msb_eq_getLsbD_last,
        Nat.add_sub_cancel]
    unfold msbShift
    cases htop : x.msb with
    | false => simp [hsplit, htop]
    | true => simp [hsplit, htop, parity_xor, hp]

/-! ## Bytes -/

/-- Bytes with the low bit first. -/
def lsbBytes (p : BitVec w) (hp : p.msb = true) : Register w UInt8 where
  shift := (lsbShift p)^[8]
  symbol b := b.toBitVec.setWidth w
  shift_xor := iterate_xor 8 (lsbShift_xor p)
  eq_zero_of_shift _ := eq_zero_of_iterate 8 fun _ => eq_zero_of_lsbShift hp

/-- Bytes with the high bit first. -/
def msbBytes (p : BitVec w) (hp : p.getLsbD 0 = true) : Register w UInt8 where
  shift := (msbShift p)^[8]
  symbol b := b.toBitVec.setWidth w <<< (w - 8)
  shift_xor := iterate_xor 8 (msbShift_xor p)
  eq_zero_of_shift _ := eq_zero_of_iterate 8 fun _ => eq_zero_of_msbShift hp

/-- Bytes with the same bits are the same. -/
lemma eq_of_toBitVec_getLsbD {a b : UInt8}
    (h : ∀ i < 8, a.toBitVec.getLsbD i = b.toBitVec.getLsbD i) : a = b :=
  UInt8.toBitVec_inj.mp (BitVec.eq_of_getLsbD_eq fun i hi => h i hi)

/-- As many bytes as fit the register can be read off it. -/
def lsbWindow (p : BitVec w) (hp : p.msb = true) {n : ℕ} (hn : 8 * n ≤ w) :
    Window (lsbBytes p hp) n where
  back x := x <<< 8
  Fits k x := ∀ i, 8 * k ≤ i → x.getLsbD i = false
  fits_zero _ _ := BitVec.getLsbD_zero
  fits_cons {k x} a hk h i hi := by
    have hx : x.getLsbD (i - 8) = false := h (i - 8) (by omega)
    have ha : a.toBitVec.getLsbD i = false := BitVec.getLsbD_of_ge _ _ (by omega)
    simp [lsbBytes, BitVec.getLsbD_shiftLeft, BitVec.getLsbD_setWidth, hx, ha]
  shift_back {k x} hk h := lsbShift_iterate_shiftLeft p fun i hi => h i (by omega)
  cons_inj {k x y a b} hk hx hy h := by
    have hbit : ∀ i < w,
        (a.toBitVec.getLsbD i ^^ (!decide (i < 8) && x.getLsbD (i - 8))) =
          (b.toBitVec.getLsbD i ^^ (!decide (i < 8) && y.getLsbD (i - 8))) := by
      intro i hi
      have hbits := congrArg (BitVec.getLsbD · i) h
      simp only [lsbBytes, BitVec.getLsbD_xor, BitVec.getLsbD_shiftLeft, BitVec.getLsbD_setWidth,
        hi, decide_true, Bool.true_and] at hbits
      exact hbits
    refine ⟨eq_of_toBitVec_getLsbD fun i hi => ?_, BitVec.eq_of_getLsbD_eq fun i hi => ?_⟩
    · simpa [hi] using hbit i (by omega)
    · rcases Nat.lt_or_ge (i + 8) w with hin | hout
      · have ha : a.toBitVec.getLsbD (i + 8) = false := BitVec.getLsbD_of_ge _ _ (by omega)
        have hb : b.toBitVec.getLsbD (i + 8) = false := BitVec.getLsbD_of_ge _ _ (by omega)
        have hge : ¬ i + 8 < 8 := by omega
        simpa [ha, hb, hge] using hbit (i + 8) hin
      · rw [hx i (by omega), hy i (by omega)]

/-- The same with the high bit first. -/
def msbWindow (p : BitVec w) (hp : p.getLsbD 0 = true) {n : ℕ} (hn : 8 * n ≤ w) :
    Window (msbBytes p hp) n where
  back x := x >>> 8
  Fits k x := ∀ i < w - 8 * k, x.getLsbD i = false
  fits_zero _ _ := BitVec.getLsbD_zero
  fits_cons {k x} a hk h i hi := by
    have hx : x.getLsbD (8 + i) = false := h (8 + i) (by omega)
    have hlt : i < w - 8 := by omega
    simp [msbBytes, BitVec.getLsbD_shiftLeft, BitVec.getLsbD_ushiftRight, hx, hlt]
  shift_back {k x} hk h := msbShift_iterate_ushiftRight p fun i hi => h i (by omega)
  cons_inj {k x y a b} hk hx hy h := by
    have hbit : ∀ i < w,
        ((!decide (i < w - 8) && a.toBitVec.getLsbD (i - (w - 8))) ^^ x.getLsbD (8 + i)) =
          ((!decide (i < w - 8) && b.toBitVec.getLsbD (i - (w - 8))) ^^ y.getLsbD (8 + i)) := by
      intro i hi
      have hbits := congrArg (·.getLsbD i) h
      have hin : i - (w - 8) < w := by omega
      simpa [msbBytes, BitVec.getLsbD_shiftLeft, BitVec.getLsbD_ushiftRight,
        BitVec.getLsbD_setWidth, hi, hin] using hbits
    refine ⟨eq_of_toBitVec_getLsbD fun i hi => ?_, BitVec.eq_of_getLsbD_eq fun i hi => ?_⟩
    · have hx' : x.getLsbD (8 + (i + (w - 8))) = false := BitVec.getLsbD_of_ge _ _ (by omega)
      have hy' : y.getLsbD (8 + (i + (w - 8))) = false := BitVec.getLsbD_of_ge _ _ (by omega)
      have hge : ¬ i + (w - 8) < w - 8 := by omega
      simpa [hx', hy', hge] using hbit (i + (w - 8)) (by omega)
    · rcases Nat.lt_or_ge i 8 with hlow | hhigh
      · rw [hx i (by omega), hy i (by omega)]
      · have hlt : i - 8 < w - 8 := by omega
        have hsum : 8 + (i - 8) = i := by omega
        simpa [hlt, hsum] using hbit (i - 8) (by omega)

end Uvk5.Crc
