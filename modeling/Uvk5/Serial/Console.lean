import Mathlib.Data.List.Infix
import Mathlib.Data.List.Basic

set_option relaxedAutoImplicit false
set_option autoImplicit false

/-!
# The console of the emulator (`qemu/py32f071.c`)

What the firmware writes to the data register of USART1 is collected in a line of 255 bytes, which
is printed when the firmware ends it or when the next byte has no room.

## Main definitions

* `Console.State`, `Console.serialByte`, `Console.writeDr` — the line, and a byte written to it.
* `Console.text` — what was printed, and what is pending.
* `Console.Fits` — no more than 255 bytes come without the end of a line.

## Main results

* `Console.text_iff_fits` — no byte is lost exactly if the lines of the firmware fit.
-/

namespace Uvk5.Console

/-- `line` and `len` of `py32_stub_serial_byte`, with the texts of the lines that were printed. -/
structure State where
  /-- The bytes of the line. -/
  line : List UInt8
  /-- There is room for the final zero. -/
  bound : line.length ≤ 256 - 1
  /-- The texts behind `SERIAL`. -/
  printed : List (List UInt8)

/-- Nothing has been written yet. -/
def start : State := ⟨[], Nat.zero_le _, []⟩

/-- The byte ends a line. -/
def Terminator (b : UInt8) : Prop := b = 0x0a ∨ b = 0x0d

instance (b : UInt8) : Decidable (Terminator b) := inferInstanceAs (Decidable (_ ∨ _))

/-- `py32_stub_serial_byte`. -/
def serialByte (s : State) (ch : UInt8) : State :=
  if ch = 0 then s
  else if h : Terminator ch ∨ s.line.length ≥ 256 - 1 then
    ⟨[], Nat.zero_le _, if s.line.length > 0 then s.printed ++ [s.line] else s.printed⟩
  else
    ⟨s.line ++ [ch], by rw [List.length_append, List.length_singleton]; omega, s.printed⟩

/-- A write to the data register, in `py32_stub_write`. -/
def writeDr (s : State) (value : UInt32) : State := serialByte s (value &&& 0xff).toUInt8

/-- Some bytes in turn. -/
def run (bytes : List UInt8) : State := bytes.foldl (fun s b => writeDr s b.toUInt32) start

/-- What was printed, and what is pending. -/
def text (s : State) : List UInt8 := s.printed.flatten ++ s.line

/-- The byte is neither NUL nor the end of a line. -/
def Kept (b : UInt8) : Prop := b ≠ 0 ∧ ¬ Terminator b

instance (b : UInt8) : Decidable (Kept b) := inferInstanceAs (Decidable (_ ∧ _))

/-- The bytes without the NULs. -/
def withoutNuls (bytes : List UInt8) : List UInt8 := bytes.filter (· ≠ 0)

/-- NULs left out, no more than 255 bytes in a row come without the end of a line. -/
def Fits (bytes : List UInt8) : Prop :=
  ∀ part, part <:+: withoutNuls bytes → (∀ b ∈ part, ¬ Terminator b) → part.length ≤ 255

/-! ## A byte -/

/-- A byte that is written to the data register is the byte. -/
lemma writeDr_toUInt32 (s : State) (b : UInt8) : writeDr s b.toUInt32 = serialByte s b := by
  rw [writeDr]
  congr 1
  apply UInt8.toNat_inj.mp
  have hmask : (b.toUInt32 &&& 0xff).toNat = b.toNat % 256 := by
    rw [UInt32.toNat_and, UInt8.toNat_toUInt32]
    exact Nat.and_two_pow_sub_one_eq_mod b.toNat 8
  rw [UInt32.toNat_toUInt8, hmask]
  have hb := b.toNat_lt
  omega

/-- The last byte comes after the others. -/
lemma run_append (bytes : List UInt8) (b : UInt8) :
    run (bytes ++ [b]) = serialByte (run bytes) b := by
  rw [run, run, List.foldl_append, List.foldl_cons, List.foldl_nil, writeDr_toUInt32]

section Byte

variable (s : State) {b : UInt8}

/-- A NUL is ignored. -/
lemma serialByte_nul : serialByte s 0 = s := if_pos rfl

/-- The end of a line, or a byte without room, prints the line; the byte is gone. -/
lemma text_flush (hb : b ≠ 0) (h : Terminator b ∨ s.line.length ≥ 255) :
    text (serialByte s b) = text s ∧ (serialByte s b).line = [] := by
  rw [serialByte, if_neg hb, dif_pos h]
  refine ⟨?_, rfl⟩
  rw [text, text, List.append_nil]
  dsimp only
  split
  · rw [List.flatten_append, List.flatten_singleton]
  · next hempty =>
    rw [List.length_eq_zero_iff.mp (Nat.eq_zero_of_not_pos hempty), List.append_nil]

/-- Another byte is added. -/
lemma text_add (hb : Kept b) (h : s.line.length < 255) :
    text (serialByte s b) = text s ++ [b] ∧ (serialByte s b).line = s.line ++ [b] := by
  rw [serialByte, if_neg hb.1, dif_neg (not_or.mpr ⟨hb.2, Nat.not_le.mpr h⟩)]
  exact ⟨(List.append_assoc ..).symm, rfl⟩

end Byte

/-- A line that is printed is neither empty nor longer than 255 bytes. -/
lemma printed_bounds (bytes : List UInt8) :
    ∀ line ∈ (run bytes).printed, line ≠ [] ∧ line.length ≤ 255 := by
  induction bytes using List.reverseRecOn with
  | nil => exact nofun
  | append_singleton bytes b ih =>
    rw [run_append, serialByte]
    split
    · exact ih
    · split
      · dsimp only
        split
        · next hpos =>
          intro line hline
          rcases List.mem_append.mp hline with hline | hline
          · exact ih line hline
          · obtain rfl := List.mem_singleton.mp hline
            exact ⟨List.ne_nil_of_length_pos hpos, (run bytes).bound⟩
        · exact ih
      · exact ih

/-! ## What is lost -/

/-- The last byte is kept behind those that are, if it is kept. -/
lemma filter_kept_append (bytes : List UInt8) (b : UInt8) :
    (bytes ++ [b]).filter (Kept ·) = bytes.filter (Kept ·) ++ if Kept b then [b] else [] := by
  rw [List.filter_append]
  congr 1
  by_cases hb : Kept b
  · simp [hb]
  · simp [hb]

/-- The last byte is there besides the others, unless it is NUL. -/
lemma withoutNuls_append (bytes : List UInt8) (b : UInt8) :
    withoutNuls (bytes ++ [b]) = withoutNuls bytes ++ if b = 0 then [] else [b] := by
  rw [withoutNuls, withoutNuls, List.filter_append]
  congr 1
  by_cases hb : b = 0
  · simp [hb]
  · simp [hb]

/-- Nothing is made up, and nothing is printed in another order. -/
lemma text_sublist (bytes : List UInt8) : (text (run bytes)).Sublist (bytes.filter (Kept ·)) := by
  induction bytes using List.reverseRecOn with
  | nil => exact List.Sublist.refl _
  | append_singleton bytes b ih =>
    rw [run_append, filter_kept_append]
    by_cases hnul : b = 0
    · rw [hnul, serialByte_nul]
      exact ih.trans (List.sublist_append_left ..)
    · by_cases hflush : Terminator b ∨ (run bytes).line.length ≥ 255
      · rw [(text_flush _ hnul hflush).1]
        exact ih.trans (List.sublist_append_left ..)
      · rw [not_or, Nat.not_le] at hflush
        rw [(text_add _ ⟨hnul, hflush.1⟩ hflush.2).1, if_pos ⟨hnul, hflush.1⟩]
        exact ih.append (List.Sublist.refl _)

/-- As long as nothing is lost, the pending line is what came since the last end of a line. -/
structure Complete (bytes : List UInt8) (s : State) : Prop where
  text : text s = bytes.filter (Kept ·)
  line : s.line <:+ withoutNuls bytes
  free : ∀ b ∈ s.line, ¬ Terminator b
  longest : ∀ part, part <:+ withoutNuls bytes → (∀ b ∈ part, ¬ Terminator b) →
    part.length ≤ s.line.length

/-- Parts of the end of a list with one more byte. -/
lemma suffix_append_singleton {part bytes : List UInt8} {b : UInt8} (h : part <:+ bytes ++ [b]) :
    part = [] ∨ ∃ front, part = front ++ [b] ∧ front <:+ bytes := by
  rcases List.suffix_concat_iff.mp h with rfl | ⟨front, rfl, hfront⟩
  · exact .inl rfl
  · exact .inr ⟨front, rfl, hfront⟩

section Step

variable {bytes : List UInt8} {s : State} {b : UInt8}

/-- A byte that has room.

**Proof sketch.** A NUL is dropped. A terminator ends the line, and what was in it is in the text
already. Any other byte is added to the line, which has room for it. -/
lemma Complete.serialByte (h : Complete bytes s) (hroom : Kept b → s.line.length < 255) :
    Complete (bytes ++ [b]) (serialByte s b) := by
  by_cases hnul : b = 0
  · subst hnul
    rw [serialByte_nul]
    refine ⟨?_, ?_, h.free, ?_⟩
    · rw [h.text, filter_kept_append, if_neg (fun hkept => hkept.1 rfl), List.append_nil]
    · rw [withoutNuls_append, if_pos rfl, List.append_nil]
      exact h.line
    · rw [withoutNuls_append, if_pos rfl, List.append_nil]
      exact h.longest
  by_cases hend : Terminator b
  · obtain ⟨htext, hline⟩ := text_flush s hnul (.inl hend)
    refine ⟨?_, ?_, ?_, fun part hpart hfree => ?_⟩
    · rw [htext, h.text, filter_kept_append, if_neg (fun hkept => hkept.2 hend), List.append_nil]
    · rw [hline]
      exact List.nil_suffix
    · rw [hline]
      exact nofun
    · rw [withoutNuls_append, if_neg hnul] at hpart
      rcases suffix_append_singleton hpart with rfl | ⟨front, rfl, -⟩
      · exact Nat.zero_le _
      · exact absurd hend (hfree b (List.mem_append_right _ (List.mem_singleton_self b)))
  · have hkept : Kept b := ⟨hnul, hend⟩
    obtain ⟨htext, hline⟩ := text_add s hkept (hroom hkept)
    refine ⟨?_, ?_, fun c hc => ?_, fun part hpart hfree => ?_⟩
    · rw [htext, h.text, filter_kept_append, if_pos hkept]
    · rw [hline, withoutNuls_append, if_neg hnul]
      exact (List.suffix_append_inj_of_length_eq rfl).mpr ⟨h.line, rfl⟩
    · rw [hline] at hc
      rcases List.mem_append.mp hc with hc | hc
      · exact h.free c hc
      · rw [List.mem_singleton.mp hc]
        exact hend
    · rw [withoutNuls_append, if_neg hnul] at hpart
      rw [hline, List.length_append]
      rcases suffix_append_singleton hpart with rfl | ⟨front, rfl, hfront⟩
      · exact Nat.zero_le _
      · rw [List.length_append]
        have hle := h.longest front hfront fun c hc => hfree c (List.mem_append_left _ hc)
        exact Nat.add_le_add_right hle 1

/-- Where the line is full, 256 bytes have come without the end of a line. -/
lemma Complete.not_fits (h : Complete bytes s) (hkept : Kept b) (hfull : 255 ≤ s.line.length) :
    ¬ Fits (bytes ++ [b]) := by
  intro hfits
  have hpart : s.line ++ [b] <:+: withoutNuls (bytes ++ [b]) := by
    rw [withoutNuls_append, if_neg hkept.1]
    exact ((List.suffix_append_inj_of_length_eq rfl).mpr ⟨h.line, rfl⟩).isInfix
  have hle := hfits _ hpart fun c hc => ?_
  · rw [List.length_append, List.length_singleton] at hle
    omega
  · rcases List.mem_append.mp hc with hc | hc
    · exact h.free c hc
    · rw [List.mem_singleton.mp hc]
      exact hkept.2

/-- With room for the byte the lines still fit. -/
lemma Complete.fits (h : Complete bytes s) (hfits : Fits bytes)
    (hroom : Kept b → s.line.length < 255) : Fits (bytes ++ [b]) := by
  intro part hpart hfree
  rw [withoutNuls_append] at hpart
  by_cases hnul : b = 0
  · rw [if_pos hnul, List.append_nil] at hpart
    exact hfits part hpart hfree
  · rw [if_neg hnul] at hpart
    rcases List.infix_concat_iff.mp hpart with hpart | hpart
    · rcases suffix_append_singleton hpart with rfl | ⟨front, rfl, hfront⟩
      · exact Nat.zero_le _
      · have hend := hfree b (List.mem_append_right _ (List.mem_singleton_self b))
        have hle := h.longest front hfront fun c hc => hfree c (List.mem_append_left _ hc)
        have hlt := hroom ⟨hnul, hend⟩
        rw [List.length_append, List.length_singleton]
        omega
    · exact hfits part hpart hfree

end Step

/-- What fits, fits without its last byte. -/
lemma Fits.of_append {bytes : List UInt8} {b : UInt8} (h : Fits (bytes ++ [b])) : Fits bytes := by
  intro part hpart
  refine h part (hpart.trans ?_)
  rw [withoutNuls_append]
  exact (List.prefix_append ..).isInfix

/-- Lines that fit are complete. -/
lemma complete_of_fits {bytes : List UInt8} (h : Fits bytes) : Complete bytes (run bytes) := by
  induction bytes using List.reverseRecOn with
  | nil => exact ⟨rfl, List.nil_suffix, nofun, fun part hpart _ => hpart.length_le⟩
  | append_singleton bytes b ih =>
    have hcomplete := ih h.of_append
    rw [run_append]
    refine hcomplete.serialByte fun hkept => ?_
    by_contra hfull
    exact hcomplete.not_fits hkept (Nat.not_lt.mp hfull) h

/-- If nothing was lost, nothing had been lost before. -/
lemma text_of_append {bytes : List UInt8} {b : UInt8}
    (h : text (run (bytes ++ [b])) = (bytes ++ [b]).filter (Kept ·)) :
    text (run bytes) = bytes.filter (Kept ·) ∧ (Kept b → (run bytes).line.length < 255) := by
  have hsub := text_sublist bytes
  have hlen := hsub.length_le
  have hall := congrArg List.length h
  rw [run_append, filter_kept_append, List.length_append] at hall
  by_cases hkept : Kept b
  · by_cases hfull : (run bytes).line.length ≥ 255
    · rw [(text_flush _ hkept.1 (.inr hfull)).1, if_pos hkept, List.length_singleton] at hall
      omega
    · rw [(text_add _ hkept (Nat.not_le.mp hfull)).1, if_pos hkept, List.length_append] at hall
      exact ⟨hsub.eq_of_length (by omega), fun _ => Nat.not_le.mp hfull⟩
  · rw [if_neg hkept, List.length_nil, Nat.add_zero] at hall
    refine ⟨hsub.eq_of_length ?_, fun h => absurd h hkept⟩
    rw [← hall]
    by_cases hnul : b = 0
    · rw [hnul, serialByte_nul]
    · have hend : Terminator b := by
        by_contra hne
        exact hkept ⟨hnul, hne⟩
      rw [(text_flush _ hnul (.inl hend)).1]

/-- Bytes of which none is lost come in lines that fit. -/
lemma fits_of_text {bytes : List UInt8} (h : text (run bytes) = bytes.filter (Kept ·)) :
    Fits bytes := by
  induction bytes using List.reverseRecOn with
  | nil =>
    intro part hpart _
    exact hpart.length_le.trans (Nat.zero_le _)
  | append_singleton bytes b ih =>
    obtain ⟨htext, hroom⟩ := text_of_append h
    exact (complete_of_fits (ih htext)).fits (ih htext) hroom

/-- **The console loses no byte** exactly if the lines fit: what was printed and what is pending are
the bytes without NUL, CR and LF if and only if no more than 255 bytes in a row come without the end
of a line. The lines that are printed are never empty and never longer than 255 bytes.

**Proof sketch.** A byte is lost if it finds the line full. As long as nothing is lost, the line is
all that came since the last CR or LF; and what is lost once is missing for ever, since what is
printed is always a part of what came. -/
theorem text_iff_fits (bytes : List UInt8) :
    (text (run bytes) = bytes.filter (Kept ·) ∧
      ∀ line ∈ (run bytes).printed, line ≠ [] ∧ line.length ≤ 255) ↔ Fits bytes :=
  ⟨fun h => fits_of_text h.1, fun h => ⟨(complete_of_fits h).text, printed_bounds bytes⟩⟩

/-- Of 256 letters the last one is lost. -/
theorem letter_lost : ¬ ∀ bytes : List UInt8,
    text (run bytes) = bytes.filter (Kept ·) ∧
      ∀ line ∈ (run bytes).printed, line ≠ [] ∧ line.length ≤ 255 := by
  intro h
  have hlen := congrArg List.length (h (List.replicate 256 0x41)).1
  exact absurd hlen (by decide +kernel)

end Uvk5.Console
