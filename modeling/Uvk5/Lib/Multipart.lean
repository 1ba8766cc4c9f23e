import Mathlib.Data.List.Basic
import Uvk5.Lib.Bytes

set_option relaxedAutoImplicit false
set_option autoImplicit false

/-!
# Streams of parts that say how long they are

A stream is made of parts. Each starts with a line that names the boundary and has header lines, an
empty line and its data, which are as long as one of the headers says. The reader takes one part
after the other and stops where no whole part is left, so it may be given any beginning of a stream.

## Main definitions

* `Multipart.Part`, `Multipart.Part.bytes` — a part, and how it is written.
* `Multipart.decimal`, `Multipart.digits` — a number in decimal digits, and back.
* `Multipart.readPart`, `Multipart.read` — the part at the front, and all that are whole.

## Main results

* `Multipart.readPart_append` — a part is read the same whatever follows.
* `Multipart.readPart_bytes` — a part is read back.
* `Multipart.read_take` — what is read of the beginning of a stream is the parts that are whole in
  it.
-/

namespace Uvk5.Multipart

open Bytes

/-- The bytes of a text. -/
def ascii (text : String) : List UInt8 := text.toList.map fun c => UInt8.ofNat c.toNat

/-! ## Numbers -/

/-- A number in decimal digits. -/
def digits (n : ℕ) : List UInt8 := (Nat.toDigits 10 n).map fun c => UInt8.ofNat c.toNat

/-- The number that digits are. -/
def decimal (bs : List UInt8) : Option ℕ :=
  let cs := bs.map fun b => Char.ofNat b.toNat
  if cs ≠ [] ∧ cs.all Char.isDigit then some (Nat.ofDigitChars 10 cs 0) else none

/-- The digits of a number are between `0` and `9`. -/
lemma toNat_of_mem_toDigits {n : ℕ} {c : Char} (hc : c ∈ Nat.toDigits 10 n) :
    48 ≤ c.toNat ∧ c.toNat ≤ 57 := by
  have hdigit : c.isDigit = true := Nat.isDigit_of_mem_toDigits (by decide) (by decide) hc
  simpa [Char.isDigit, UInt32.le_iff_toNat_le] using hdigit

/-- Digits do not end a line. -/
lemma cr_notMem_digits (n : ℕ) : 13 ∉ digits n := by
  intro hmem
  obtain ⟨c, hc, hcr⟩ := List.mem_map.mp hmem
  obtain ⟨hlow, hhigh⟩ := toNat_of_mem_toDigits hc
  have hvalue := congrArg UInt8.toNat hcr
  rw [UInt8.toNat_ofNat', Nat.mod_eq_of_lt (by omega)] at hvalue
  change c.toNat = 13 at hvalue
  omega

/-- The bytes of a number are its digits. -/
lemma digits_chars (n : ℕ) :
    (digits n).map (fun b => Char.ofNat b.toNat) = Nat.toDigits 10 n := by
  rw [digits, List.map_map]
  refine (List.map_congr_left fun c hc => ?_).trans (List.map_id _)
  obtain ⟨hlow, hhigh⟩ := toNat_of_mem_toDigits hc
  change Char.ofNat (UInt8.ofNat c.toNat).toNat = c
  rw [UInt8.toNat_ofNat', Nat.mod_eq_of_lt (by omega), Char.ofNat_toNat]

/-- A number is read back. -/
theorem decimal_digits (n : ℕ) : decimal (digits n) = some n := by
  have hdigit : ∀ c ∈ Nat.toDigits 10 n, c.isDigit = true := fun c hc =>
    Nat.isDigit_of_mem_toDigits (by decide) (by decide) hc
  rw [decimal, digits_chars, if_pos ⟨Nat.toDigits_ne_nil, List.all_eq_true.mpr hdigit⟩,
    Nat.ofDigitChars_toDigits (by decide) (by decide)]

/-! ## Lines -/

/-- The end of a line. -/
def crlf : List UInt8 := [13, 10]

/-- The line at the front, without its end, and what follows. -/
def takeLine : List UInt8 → Option (List UInt8 × List UInt8)
  | [] => none
  | b :: s =>
    if b = 13 ∧ s.head? = some 10 then some ([], s.tail)
    else (takeLine s).map fun (line, rest) => (b :: line, rest)

/-- A line that is complete is read the same whatever follows. -/
lemma takeLine_append {s line rest : List UInt8} (h : takeLine s = some (line, rest))
    (t : List UInt8) : takeLine (s ++ t) = some (line, rest ++ t) := by
  induction s generalizing line with
  | nil => cases h
  | cons b s ih =>
    -- the line is not over at the last byte
    have hne : s ≠ [] := by
      rintro rfl
      simp [takeLine] at h
    have hhead : (s ++ t).head? = s.head? := List.head?_append_of_ne_nil s hne
    rw [takeLine] at h
    rw [List.cons_append, takeLine, hhead]
    split at h
    · next hend =>
      obtain ⟨rfl, rfl⟩ := Prod.mk.inj (Option.some.inj h)
      rw [if_pos hend, List.tail_append_of_ne_nil hne]
    · next hend =>
      obtain ⟨⟨line', rest'⟩, htake, heq⟩ := Option.map_eq_some_iff.mp h
      obtain ⟨rfl, rfl⟩ := Prod.mk.inj heq
      rw [if_neg hend, ih htake]
      rfl

/-- A line is read back. -/
lemma takeLine_line {line : List UInt8} (hline : 13 ∉ line) (rest : List UInt8) :
    takeLine (line ++ crlf ++ rest) = some (line, rest) := by
  induction line with
  | nil => rfl
  | cons b line ih =>
    obtain ⟨hb, hline⟩ := not_or.mp (mt List.mem_cons.mpr hline)
    rw [List.cons_append, List.cons_append, takeLine, if_neg fun h => hb h.1.symm, ih hline]
    rfl

/-- The lines up to an empty one, of so many at most, and what follows. -/
def takeLines : ℕ → List UInt8 → Option (List (List UInt8) × List UInt8)
  | 0, _ => none
  | n + 1, s =>
    (takeLine s).bind fun (line, rest) =>
      if line = [] then some ([], rest)
      else (takeLines n rest).map fun (lines, rest) => (line :: lines, rest)

/-- Lines that are there are there whatever follows. -/
lemma takeLines_append {n : ℕ} {s rest : List UInt8} {lines : List (List UInt8)}
    (h : takeLines n s = some (lines, rest)) (t : List UInt8) :
    takeLines n (s ++ t) = some (lines, rest ++ t) := by
  induction n generalizing s lines with
  | zero => cases h
  | succ n ih =>
    rw [takeLines] at h ⊢
    obtain ⟨⟨line, s'⟩, hline, hrest⟩ := Option.bind_eq_some_iff.mp h
    rw [takeLine_append hline, Option.bind_some]
    dsimp only at hrest ⊢
    split at hrest
    · next hempty =>
      obtain ⟨rfl, rfl⟩ := Prod.mk.inj (Option.some.inj hrest)
      rw [if_pos hempty]
    · next hempty =>
      obtain ⟨⟨lines', rest'⟩, htake, heq⟩ := Option.map_eq_some_iff.mp hrest
      obtain ⟨rfl, rfl⟩ := Prod.mk.inj heq
      rw [if_neg hempty, ih htake]
      rfl

/-- Lines are read back. -/
lemma takeLines_lines {lines : List (List UInt8)} (hlines : ∀ line ∈ lines, line ≠ [] ∧ 13 ∉ line)
    {n : ℕ} (hn : lines.length < n) (rest : List UInt8) :
    takeLines n (lines.flatMap (· ++ crlf) ++ crlf ++ rest) = some (lines, rest) := by
  induction lines generalizing n with
  | nil =>
    obtain ⟨n, rfl⟩ := Nat.exists_eq_succ_of_ne_zero (Nat.ne_of_gt hn)
    rfl
  | cons line lines ih =>
    obtain ⟨⟨hempty, hcr⟩, hlines⟩ := List.forall_mem_cons.mp hlines
    obtain ⟨n, rfl⟩ := Nat.exists_eq_succ_of_ne_zero (Nat.ne_of_gt (Nat.lt_of_le_of_lt
      (Nat.zero_le _) hn))
    rw [List.flatMap_cons, List.append_assoc, List.append_assoc, takeLines, takeLine_line hcr,
      Option.bind_some]
    dsimp only
    rw [if_neg hempty, ← List.append_assoc, ih hlines (by simpa using hn)]
    rfl

/-! ## Parts -/

/-- A part. -/
structure Part where
  /-- Its headers. -/
  headers : List (List UInt8)
  /-- Its data. -/
  payload : List UInt8
  deriving DecidableEq

/-- The header that says how long the data are. -/
def lengthHeader : List UInt8 := ascii "Content-Length: "

/-- The length that the headers say. -/
def contentLength (headers : List (List UInt8)) : Option ℕ :=
  headers.findSome? fun line =>
    if lengthHeader <+: line then decimal (line.drop lengthHeader.length) else none

variable (boundary : List UInt8)

/-- The first line of a part. -/
def delimiter : List UInt8 := ascii "--" ++ boundary

/-- A part in a stream. -/
def Part.bytes (p : Part) : List UInt8 :=
  delimiter boundary ++ crlf ++ (p.headers.flatMap (· ++ crlf) ++ crlf ++ (p.payload ++ crlf))

/-- The part at the front, which has less than `n` headers, and what follows. -/
def readPart (n : ℕ) (s : List UInt8) : Option (Part × List UInt8) :=
  (takeLine s).bind fun (line, s) =>
    if line ≠ delimiter boundary then none
    else (takeLines n s).bind fun (headers, s) =>
      (contentLength headers).bind fun k =>
        if k + 2 ≤ s.length ∧ slice s k (k + 2) = crlf then
          some (⟨headers, s.take k⟩, s.drop (k + 2))
        else none

/-- The parts that are whole. -/
def readParts (n : ℕ) : ℕ → List UInt8 → List Part
  | 0, _ => []
  | fuel + 1, s =>
    match readPart boundary n s with
    | none => []
    | some (p, rest) => p :: readParts n fuel rest

/-- The parts that are whole, each with less than `n` headers. -/
def read (n : ℕ) (s : List UInt8) : List Part := readParts boundary n s.length s

section Read

variable {boundary} {n : ℕ}

/-- A part that is whole is read the same whatever follows. -/
theorem readPart_append {s rest : List UInt8} {p : Part}
    (h : readPart boundary n s = some (p, rest)) (t : List UInt8) :
    readPart boundary n (s ++ t) = some (p, rest ++ t) := by
  obtain ⟨⟨line, s₁⟩, hline, h₁⟩ := Option.bind_eq_some_iff.mp h
  dsimp only at h₁
  split at h₁
  · cases h₁
  next hdelimiter =>
  obtain ⟨⟨headers, s₂⟩, hheaders, h₂⟩ := Option.bind_eq_some_iff.mp h₁
  obtain ⟨k, hk, h₃⟩ := Option.bind_eq_some_iff.mp h₂
  dsimp only at hk h₃
  split at h₃
  · next hend =>
    obtain ⟨rfl, rfl⟩ := Prod.mk.inj (Option.some.inj h₃)
    have hend' : k + 2 ≤ (s₂ ++ t).length ∧ slice (s₂ ++ t) k (k + 2) = crlf := by
      refine ⟨?_, (slice_append_left t hend.1).trans hend.2⟩
      rw [List.length_append]
      omega
    rw [readPart, takeLine_append hline, Option.bind_some]
    dsimp only
    rw [if_neg hdelimiter, takeLines_append hheaders, Option.bind_some]
    dsimp only
    rw [hk, Option.bind_some, if_pos hend', List.take_append_of_le_length (by omega),
      List.drop_append_of_le_length hend.1]
  · cases h₃

/-- The part can be written: the boundary and the headers are lines, there are not too many headers,
and one of them says how long the data are. -/
structure Part.Fits (boundary : List UInt8) (n : ℕ) (p : Part) : Prop where
  /-- The boundary. -/
  boundary : 13 ∉ boundary
  /-- The headers. -/
  headers : ∀ line ∈ p.headers, line ≠ [] ∧ 13 ∉ line
  /-- How many there are. -/
  few : p.headers.length < n
  /-- What they say. -/
  length : contentLength p.headers = some p.payload.length

/-- **A part is read back**, whatever follows it. -/
theorem readPart_bytes {p : Part} (h : p.Fits boundary n) (rest : List UInt8) :
    readPart boundary n (p.bytes boundary ++ rest) = some (p, rest) := by
  have hcr : 13 ∉ delimiter boundary := by
    rw [delimiter, List.mem_append, not_or]
    exact ⟨by decide, h.boundary⟩
  have hbytes : p.bytes boundary ++ rest = delimiter boundary ++ crlf ++
      (p.headers.flatMap (· ++ crlf) ++ crlf ++ (p.payload ++ (crlf ++ rest))) := by
    simp only [Part.bytes, List.append_assoc]
  have hdata : p.payload.length + 2 ≤ (p.payload ++ (crlf ++ rest)).length ∧
      slice (p.payload ++ (crlf ++ rest)) p.payload.length (p.payload.length + 2) = crlf := by
    refine ⟨?_, slice_field _ _ _ rfl rfl⟩
    simp only [List.length_append, crlf, List.length_cons, List.length_nil]
    omega
  have hdrop : (p.payload ++ (crlf ++ rest)).drop (p.payload.length + 2) = rest := by
    rw [← List.append_assoc]
    exact List.drop_left' (List.length_append ..)
  rw [hbytes, readPart, takeLine_line hcr, Option.bind_some]
  dsimp only
  rw [if_neg (not_not.mpr rfl), takeLines_lines h.headers h.few, Option.bind_some]
  dsimp only
  rw [h.length, Option.bind_some, if_pos hdata, List.take_left, hdrop]

/-- A part that is cut off is not read. -/
lemma readPart_take {p : Part} (h : p.Fits boundary n) {m : ℕ}
    (hm : m < (p.bytes boundary).length) :
    readPart boundary n ((p.bytes boundary).take m) = none := by
  rw [Option.eq_none_iff_forall_ne_some]
  rintro ⟨q, rest⟩ hread
  have hwhole := readPart_append hread ((p.bytes boundary).drop m)
  have hbytes := readPart_bytes h []
  rw [List.append_nil] at hbytes
  rw [List.take_append_drop, hbytes] at hwhole
  have hnil := congrArg List.length (Prod.mk.inj (Option.some.inj hwhole)).2
  rw [List.length_append, List.length_drop, List.length_nil] at hnil
  omega

variable (boundary) in

/-- A part takes some bytes. -/
lemma length_bytes_pos (p : Part) : 0 < (p.bytes boundary).length := by
  simp only [Part.bytes, List.length_append, crlf, List.length_cons]
  omega

/-- Of the beginning of a stream all the parts are read that are whole in it.

**Proof sketch.** Induction on the parts. If the beginning ends inside the first part nothing is
read (`readPart_take`); otherwise that part is read, and the rest is the beginning of the other
parts. -/
lemma readParts_take {ps : List Part} (hps : ∀ p ∈ ps, p.Fits boundary n) {m fuel : ℕ}
    (hfuel : ((ps.flatMap (Part.bytes boundary)).take m).length ≤ fuel) :
    ∃ k, readParts boundary n fuel ((ps.flatMap (Part.bytes boundary)).take m) = ps.take k ∧
      ∀ j ≤ ps.length, ((ps.take j).flatMap (Part.bytes boundary)).length ≤ m → j ≤ k := by
  induction ps generalizing m fuel with
  | nil =>
    refine ⟨0, ?_, fun j hj _ => hj⟩
    rw [List.flatMap_nil, List.take_nil]
    cases fuel with
    | zero => rfl
    | succ fuel => rfl
  | cons p ps ih =>
    obtain ⟨hp, hps⟩ := List.forall_mem_cons.mp hps
    have hpos := length_bytes_pos boundary p
    rw [List.flatMap_cons] at hfuel ⊢
    rcases Nat.lt_or_ge m (p.bytes boundary).length with hm | hm
    · refine ⟨0, ?_, fun j hj hwhole => ?_⟩
      · rw [List.take_append_of_le_length (Nat.le_of_lt hm), List.take_zero]
        cases fuel with
        | zero => rfl
        | succ fuel => rw [readParts, readPart_take hp hm]
      · cases j with
        | zero => exact Nat.le_refl 0
        | succ j =>
          rw [List.take_succ_cons, List.flatMap_cons, List.length_append] at hwhole
          omega
    · rw [List.take_append, List.take_of_length_le hm] at hfuel ⊢
      rw [List.length_append] at hfuel
      obtain ⟨fuel, rfl⟩ := Nat.exists_eq_succ_of_ne_zero (n := fuel) (by omega)
      have hrest : ((ps.flatMap (Part.bytes boundary)).take
          (m - (p.bytes boundary).length)).length ≤ fuel := by omega
      obtain ⟨k, hread, hk⟩ := ih hps hrest
      refine ⟨k + 1, ?_, fun j hj hwhole => ?_⟩
      · rw [readParts, readPart_bytes hp]
        dsimp only
        rw [hread, List.take_succ_cons]
      · cases j with
        | zero => exact Nat.zero_le _
        | succ j =>
          rw [List.take_succ_cons, List.flatMap_cons, List.length_append] at hwhole
          exact Nat.succ_le_succ (hk j (Nat.le_of_succ_le_succ hj) (by omega))

/-- **What is read of the beginning of a stream** is the parts that are whole in it.

**Proof sketch.** Induction on the parts. The first one is read back if it is whole; if it were read
although it is cut off, the rest of it would follow the part that was read. -/
theorem read_take {ps : List Part} (hps : ∀ p ∈ ps, p.Fits boundary n) (m : ℕ) :
    ∃ k, read boundary n ((ps.flatMap (Part.bytes boundary)).take m) = ps.take k ∧
      ∀ j ≤ ps.length, ((ps.take j).flatMap (Part.bytes boundary)).length ≤ m → j ≤ k :=
  readParts_take hps (Nat.le_refl _)

end Read

end Uvk5.Multipart
