import Mathlib.Logic.Function.Iterate
import Mathlib.Tactic.SplitIfs
import Uvk5.Lib.Bytes

set_option relaxedAutoImplicit false
set_option autoImplicit false

/-!
# Serial frames (`tools/uvk5_serial_flash.py`)

Messages travel over the serial line in frames: a two-byte magic, a length, the obfuscated
message and its checksum, and a two-byte end mark. A `Frames` object collects the bytes that
arrive and gives the messages back.

## Main definitions

* `Serial.build` — `build`: the frame of a message.
* `Serial.scan` — one turn of the loop in `Frames.take`; `Serial.take` — `Frames.take`.
* `Serial.drain` — `Frames.take` until it returns `None`; `Serial.receive` — feeding chunks, each
  followed by a drain.

## Main results

* `Serial.scan_cases` — what a turn of the search for a frame does.
* `Serial.drain_unfold` — draining, turn by turn.

## Design

`None` is returned together with the buffer it leaves, so that each function is a function of
the buffer. The loops carry fuel, the length of the buffer, since every turn that goes on
removes bytes; `drain_unfold` is free of it.
-/

namespace Uvk5.Serial

open Bytes

/-! ## Building a frame -/

/-- A message: its type and its data. -/
structure Msg where
  /-- `msg_type`. -/
  msgType : ℕ
  /-- `data`. -/
  data : List UInt8
  deriving DecidableEq

/-- `MAGIC`. -/
def magic : List UInt8 := [0xab, 0xcd]

/-- `END`. -/
def endMark : List UInt8 := [0xdc, 0xba]

/-- `OBFUS`. -/
def obfus : List UInt8 :=
  [0x16, 0x6C, 0x14, 0xE6, 0x2E, 0x91, 0x0D, 0x40, 0x21, 0x35, 0xD5, 0x40, 0x13, 0x03, 0xE9, 0x80]

/-- `obfuscate`. -/
def obfuscate (data : List UInt8) : List UInt8 :=
  data.mapIdx fun i b => b ^^^ obfus.getD (i % obfus.length) 0

/-- One bit of `crc16_xmodem`. -/
def crc16Bit (crc : UInt16) : UInt16 :=
  if crc &&& 0x8000 ≠ 0 then (crc <<< 1) ^^^ 0x1021 else crc <<< 1

/-- One byte of `crc16_xmodem`. -/
def crc16Byte (crc : UInt16) (byte : UInt8) : UInt16 :=
  crc16Bit^[8] (crc ^^^ (byte.toUInt16 <<< 8))

/-- `crc16_xmodem`. -/
def crc16Xmodem (data : List UInt8) : UInt16 := data.foldl crc16Byte 0

/-- `struct.pack("<H", v)`, which raises for a number that does not fit. -/
def packH (v : ℕ) : Option (List UInt8) := if v < 65536 then some (toLe 2 v) else none

/-- `build`, with `none` for `struct.error`. A checksum always fits its field. -/
def build (msgType : ℕ) (data : List UInt8) : Option (List UInt8) := do
  let payload := (← packH msgType) ++ (← packH data.length) ++ data
  let body := payload ++ toLe 2 (crc16Xmodem payload).toNat
  return magic ++ (← packH payload.length) ++ obfuscate body ++ endMark

/-! ## Taking frames from the buffer -/

/-- How a turn of the loop in `take` ends. -/
inductive Turn where
  /-- `return None`, with this buffer left. -/
  | wait (buf : List UInt8)
  /-- `continue`, with this buffer left. -/
  | next (buf : List UInt8)
  /-- `return` a message, with this buffer left. -/
  | got (m : Msg) (buf : List UInt8)

/-- The message in a body: `struct.unpack_from("<HH", body, 0)` and the data after it. -/
def unpackBody (body : List UInt8) : Msg :=
  ⟨ofLe (slice body 0 2), slice body 4 (4 + ofLe (slice body 2 4))⟩

/-- One turn of the loop in `Frames.take`. -/
def scan (buf : List UInt8) : Turn :=
  match find magic buf with
  | none => .wait []
  | some start =>
    if buf.length < start + 8 then .wait (buf.drop start)
    else
      let length := ofLe (slice buf (start + 2) (start + 4))
      let stop := start + 6 + length
      if buf.length < stop + 2 then .wait (buf.drop start)
      else if slice buf stop (stop + 2) ≠ endMark then .next (buf.drop (start + 2))
      else
        let body := obfuscate (slice buf (start + 4) stop)
        if body.length < 4 then .next (buf.drop (stop + 2))
        else .got (unpackBody body) (buf.drop (stop + 2))

/-- The loop of `Frames.take`. -/
def takeLoop : ℕ → List UInt8 → Option Msg × List UInt8
  | 0, buf => (none, buf)
  | fuel + 1, buf =>
    match scan buf with
    | .wait buf => (none, buf)
    | .next buf => takeLoop fuel buf
    | .got m buf => (some m, buf)

/-- `Frames.take`. -/
def take (buf : List UInt8) : Option Msg × List UInt8 := takeLoop (buf.length + 1) buf

/-- `take` until it returns `None`, at most `fuel` times. -/
def drainLoop : ℕ → List UInt8 → List Msg × List UInt8
  | 0, buf => ([], buf)
  | fuel + 1, buf =>
    match take buf with
    | (none, buf) => ([], buf)
    | (some m, buf) => (m :: (drainLoop fuel buf).1, (drainLoop fuel buf).2)

/-- `take` until it returns `None`: the messages, and the buffer left. -/
def drain (buf : List UInt8) : List Msg × List UInt8 := drainLoop (buf.length + 1) buf

/-- `Frames.feed` of one chunk and a drain, from the messages so far and the buffer. -/
def feed (st : List Msg × List UInt8) (chunk : List UInt8) : List Msg × List UInt8 :=
  (st.1 ++ (drain (st.2 ++ chunk)).1, (drain (st.2 ++ chunk)).2)

/-- What a fresh `Frames` object gives for a sequence of chunks. -/
def receive (chunks : List (List UInt8)) : List Msg := (chunks.foldl feed ([], [])).1

/-! ## One turn -/

/-- Obfuscating leaves the length. -/
@[simp] lemma length_obfuscate (data : List UInt8) : (obfuscate data).length = data.length := by
  rw [obfuscate, List.length_mapIdx]

/-- Obfuscating twice gives the data back. -/
lemma obfuscate_obfuscate (data : List UInt8) : obfuscate (obfuscate data) = data := by
  apply List.ext_getElem
  · rw [length_obfuscate, length_obfuscate]
  · intro i h₁ h₂
    simp only [obfuscate, List.getElem_mapIdx, UInt8.xor_assoc, UInt8.xor_self, UInt8.xor_zero]

/-- A frame of `L` message bytes at offset `k` of the buffer, carrying `m`. -/
structure FrameAt (buf : List UInt8) (k L : ℕ) (m : Msg) : Prop where
  fits : k + 8 + L ≤ buf.length
  long : 2 ≤ L
  magic : magic <+: buf.drop k
  length : ofLe (slice buf (k + 2) (k + 4)) = L
  msg : m = unpackBody (obfuscate (slice buf (k + 4) (k + 6 + L)))

/-- **One turn**: waiting leaves the end of the buffer, going on removes bytes from its front,
and a message comes from a frame that is there. -/
theorem scan_cases (buf : List UInt8) :
    (∃ k, scan buf = .wait (buf.drop k)) ∨
    (∃ k, 2 ≤ k ∧ k ≤ buf.length ∧ scan buf = .next (buf.drop k)) ∨
    (∃ k L m, FrameAt buf k L m ∧ scan buf = .got m (buf.drop (k + 8 + L))) := by
  cases hfind : find magic buf with
  | none => exact Or.inl ⟨buf.length, by simp [scan, hfind]⟩
  | some start =>
    simp only [scan, hfind]
    split_ifs with h₁ h₂ h₃ h₄
    · exact Or.inl ⟨start, rfl⟩
    · exact Or.inl ⟨start, rfl⟩
    · exact Or.inr (Or.inl ⟨start + 2, by omega, by omega, rfl⟩)
    · exact Or.inr (Or.inl ⟨_, by omega, by omega, rfl⟩)
    · generalize hL : ofLe (slice buf (start + 2) (start + 4)) = L at *
      rw [length_obfuscate, length_slice] at h₄
      rw [show start + 6 + L + 2 = start + 8 + L by omega]
      exact Or.inr (Or.inr ⟨start, L, _, ⟨by omega, by omega, find_spec hfind, hL, rfl⟩, rfl⟩)

/-! ## The loops without fuel -/

/-- Once there is fuel for every byte, how much does not matter. -/
lemma takeLoop_congr {fuel₁ fuel₂ : ℕ} {buf : List UInt8} (h₁ : buf.length < fuel₁)
    (h₂ : buf.length < fuel₂) : takeLoop fuel₁ buf = takeLoop fuel₂ buf := by
  induction fuel₁ generalizing fuel₂ buf with
  | zero => omega
  | succ fuel₁ ih =>
    cases fuel₂ with
    | zero => omega
    | succ fuel₂ =>
      rw [takeLoop, takeLoop]
      rcases scan_cases buf with ⟨k, hk⟩ | ⟨k, hk, hkl, hnext⟩ | ⟨k, L, m, -, hgot⟩
      · rw [hk]
      · rw [hnext]
        have hlen : (buf.drop k).length + 2 ≤ buf.length := by rw [List.length_drop]; omega
        exact ih (by omega) (by omega)
      · rw [hgot]

/-- `Frames.take`, turn by turn. -/
lemma take_unfold (buf : List UInt8) :
    take buf = match scan buf with
      | .wait buf => (none, buf)
      | .next buf => take buf
      | .got m buf => (some m, buf) := by
  rw [take, takeLoop]
  rcases scan_cases buf with ⟨k, hk⟩ | ⟨k, hk, hkl, hnext⟩ | ⟨k, L, m, -, hgot⟩
  · rw [hk]
  · rw [hnext]
    have hlen : (buf.drop k).length + 2 ≤ buf.length := by rw [List.length_drop]; omega
    exact takeLoop_congr (by omega) (by omega)
  · rw [hgot]

/-- A message that is taken leaves a shorter buffer. -/
lemma take_length {buf buf' : List UInt8} {m : Msg} (h : take buf = (some m, buf')) :
    buf'.length < buf.length := by
  induction hn : buf.length using Nat.strongRecOn generalizing buf with
  | ind n ih =>
    subst hn
    rw [take_unfold] at h
    rcases scan_cases buf with ⟨k, hk⟩ | ⟨k, hk, hkl, hnext⟩ | ⟨k, L, m, hframe, hgot⟩
    · rw [hk] at h
      cases h
    · rw [hnext] at h
      have hlen : (buf.drop k).length + 2 ≤ buf.length := by rw [List.length_drop]; omega
      have hlt := ih (buf.drop k).length (by omega) h rfl
      omega
    · rw [hgot] at h
      cases h
      have hfits := hframe.fits
      rw [List.length_drop]
      omega

/-- The loop is the same with any fuel that is enough. -/
lemma drainLoop_congr {fuel₁ fuel₂ : ℕ} {buf : List UInt8} (h₁ : buf.length < fuel₁)
    (h₂ : buf.length < fuel₂) : drainLoop fuel₁ buf = drainLoop fuel₂ buf := by
  induction fuel₁ generalizing fuel₂ buf with
  | zero => omega
  | succ fuel₁ ih =>
    cases fuel₂ with
    | zero => omega
    | succ fuel₂ =>
      rw [drainLoop, drainLoop]
      cases htake : take buf with
      | mk result buf' =>
        cases result with
        | none => rfl
        | some m =>
          have hlen := take_length htake
          simp only
          rw [ih (by omega) (show buf'.length < fuel₂ by omega)]

/-- **Draining, turn by turn.** -/
theorem drain_unfold (buf : List UInt8) :
    drain buf = match scan buf with
      | .wait buf => ([], buf)
      | .next buf => drain buf
      | .got m buf => (m :: (drain buf).1, (drain buf).2) := by
  rw [drain, drainLoop, take_unfold]
  rcases scan_cases buf with ⟨k, hk⟩ | ⟨k, hk, hkl, hnext⟩ | ⟨k, L, m, hframe, hgot⟩
  · rw [hk]
  · rw [hnext]
    have hlen : (buf.drop k).length + 2 ≤ buf.length := by rw [List.length_drop]; omega
    change drainLoop (buf.length + 1) (buf.drop k) = _
    exact drainLoop_congr (by omega) (by omega)
  · rw [hgot]
    have hfits := hframe.fits
    have hlen : (buf.drop (k + 8 + L)).length < buf.length := by rw [List.length_drop]; omega
    simp only
    rw [drainLoop_congr hlen (Nat.lt_succ_self _), drain]

end Uvk5.Serial
