import Mathlib.Data.Nat.Find
import Uvk5.Serial.Framing

set_option relaxedAutoImplicit false
set_option autoImplicit false

/-!
# Reassembling frames from chunks

What a `Frames` object makes of the frames of a list of messages, when their bytes arrive in
chunks cut anywhere. Every cut is harmless but one: a chunk that ends between the two bytes of a
frame's magic loses that frame, because a buffer without the magic is thrown away whole.

## Main definitions

* `Serial.frame` — the frame of a message that fits, `Serial.frames` — those of a list.
* `Serial.Msg.Fits` — the messages `build` accepts.
* `Serial.Delivers` — messages taken from frames that stand one after another in a stream.
* `Serial.SplitsMagic` — some chunk ends one byte into a frame.

## Main results

* `Serial.receive_delivers` — whatever is received stood in the stream as frames, in order.
* `Serial.receive_eq_iff` — the messages are received exactly, if and only if no chunk ends
  between the two bytes of a magic.

## Design

Forward, the state after every chunk is the messages whose frames are complete and the part of
the next frame that has come (`Clean`). Backward, once the first byte of a frame is lost each
message must come from a frame that starts past the start of its own, so that the last one would
end past the end of the stream (`not_delivers_late`).
-/

namespace Uvk5.Serial

open Bytes

/-! ## The frames of a list of messages -/

/-- The messages `build` accepts. -/
def Msg.Fits (m : Msg) : Prop := m.msgType < 65536 ∧ m.data.length ≤ 65531

instance (m : Msg) : Decidable m.Fits := inferInstanceAs (Decidable (_ ∧ _))

/-- The type, the length and the data. -/
def payload (m : Msg) : List UInt8 := toLe 2 m.msgType ++ toLe 2 m.data.length ++ m.data

/-- The payload and its checksum. -/
def body (m : Msg) : List UInt8 := payload m ++ toLe 2 (crc16Xmodem (payload m)).toNat

/-- The frame of a message. -/
def frame (m : Msg) : List UInt8 :=
  magic ++ toLe 2 (payload m).length ++ obfuscate (body m) ++ endMark

/-- The frames of a list of messages, one after another. -/
def frames (ms : List Msg) : List UInt8 := ms.flatMap frame

/-- The frames of a message and of the others. -/
lemma frames_cons (m : Msg) (ms : List Msg) : frames (m :: ms) = frame m ++ frames ms :=
  List.flatMap_cons

/-- The frames of some messages and of those after them. -/
lemma frames_append (ms ns : List Msg) : frames (ms ++ ns) = frames ms ++ frames ns :=
  List.flatMap_append

/-- The payload is a type, a length and the data. -/
lemma length_payload (m : Msg) : (payload m).length = 4 + m.data.length := by
  simp only [payload, List.length_append, length_toLe]

/-- The body is the payload and a checksum. -/
lemma length_body (m : Msg) : (body m).length = 6 + m.data.length := by
  rw [body, List.length_append, length_payload, length_toLe]
  omega

/-- A frame is twelve bytes longer than the data. -/
lemma length_frame (m : Msg) : (frame m).length = 12 + m.data.length := by
  simp only [frame, List.length_append, length_toLe, length_obfuscate, length_body, magic, endMark,
    List.length_cons, List.length_nil]
  omega

/-- `build` gives the frame, for the messages that fit and no others. -/
theorem build_eq (m : Msg) :
    build m.msgType m.data = if m.Fits then some (frame m) else none := by
  by_cases htype : m.msgType < 65536
  swap
  · simp [build, packH, htype, Msg.Fits]
  by_cases hlen : m.data.length < 65536
  swap
  · have hfits : ¬ m.Fits := fun h => hlen (by have := h.2; omega)
    simp [build, packH, htype, hlen, hfits]
  have hunfold : build m.msgType m.data = (packH (payload m).length).bind fun length =>
      some (magic ++ length ++ obfuscate (body m) ++ endMark) := by
    simp [build, packH, htype, hlen, payload, body]
  have hfits : m.Fits ↔ (payload m).length < 65536 := by
    rw [length_payload, Msg.Fits]
    omega
  rw [hunfold, packH]
  by_cases hpay : (payload m).length < 65536
  · rw [if_pos hpay, if_pos (hfits.mpr hpay)]
    rfl
  · rw [if_neg hpay, if_neg (mt hfits.mp hpay)]
    rfl

/-! ## A turn on a frame, and on a part of one -/

/-- A frame begins with the mark. -/
lemma magic_prefix_frame (m : Msg) : magic <+: frame m := by
  rw [frame, List.append_assoc, List.append_assoc]
  exact List.prefix_append _ _

/-- The length in a frame is that of its payload. -/
lemma frame_length_field {m : Msg} (h : m.Fits) :
    ofLe (slice (frame m) 2 4) = 4 + m.data.length := by
  have hlt : 4 + m.data.length < 256 ^ 2 := by have := h.2; omega
  have hfield : slice (frame m) 2 4 = toLe 2 (payload m).length := by
    rw [frame, List.append_assoc, List.append_assoc]
    exact slice_field _ _ _ rfl (by rw [length_toLe]; rfl)
  rw [hfield, length_payload, ofLe_toLe 2 hlt]

/-- Behind the length comes the body, obfuscated. -/
lemma frame_body (m : Msg) : slice (frame m) 4 (10 + m.data.length) = obfuscate (body m) := by
  have hhead : (magic ++ toLe 2 (payload m).length).length = 4 := by
    rw [List.length_append, length_toLe]
    rfl
  rw [frame, List.append_assoc]
  apply slice_field _ _ _ hhead.symm
  rw [hhead, length_obfuscate, length_body]
  omega

/-- A frame closes with the mark of its end. -/
lemma frame_end (m : Msg) :
    slice (frame m) (10 + m.data.length) (12 + m.data.length) = endMark := by
  have hhead : (magic ++ toLe 2 (payload m).length ++ obfuscate (body m)).length =
      10 + m.data.length := by
    rw [List.length_append, List.length_append, length_toLe, length_obfuscate, length_body]
    change 2 + 2 + _ = _
    omega
  have hmark := slice_field (magic ++ toLe 2 (payload m).length ++ obfuscate (body m)) endMark []
    hhead.symm (show 12 + m.data.length = _ by rw [hhead, show endMark.length = 2 from rfl]; omega)
  rwa [List.append_nil] at hmark

/-- The body gives the message back. -/
lemma unpackBody_body {m : Msg} (h : m.Fits) : unpackBody (body m) = m := by
  have htype : slice (body m) 0 2 = toLe 2 m.msgType := by
    rw [body, payload, List.append_assoc, List.append_assoc]
    exact slice_field [] (toLe 2 m.msgType) _ rfl (by rw [length_toLe, List.length_nil])
  have hlength : slice (body m) 2 4 = toLe 2 m.data.length := by
    rw [body, payload, List.append_assoc, List.append_assoc]
    exact slice_field _ _ _ (length_toLe 2 _).symm (by rw [length_toLe, length_toLe])
  have hdata : slice (body m) 4 (4 + m.data.length) = m.data := by
    have hhead : (toLe 2 m.msgType ++ toLe 2 m.data.length).length = 4 := by
      rw [List.length_append, length_toLe, length_toLe]
    rw [body, payload, List.append_assoc]
    exact slice_field _ _ _ hhead.symm (by rw [hhead])
  rw [unpackBody, htype, hlength, ofLe_toLe 2 h.1, ofLe_toLe 2 (by have := h.2; omega), hdata]

/-- A whole frame at the front of the buffer is taken. -/
lemma scan_frame {m : Msg} (h : m.Fits) (rest : List UInt8) :
    scan (frame m ++ rest) = .got m rest := by
  have hlen := length_frame m
  have hfind : find magic (frame m ++ rest) = some 0 :=
    find_of_prefix ((magic_prefix_frame m).trans (List.prefix_append _ _))
  have hfield : ofLe (slice (frame m ++ rest) (0 + 2) (0 + 4)) = 4 + m.data.length := by
    rw [slice_append_left _ (by omega), frame_length_field h]
  have htotal : (frame m ++ rest).length = 12 + m.data.length + rest.length := by
    rw [List.length_append, hlen]
  simp only [scan, hfind, hfield]
  rw [if_neg (by omega), if_neg (by omega),
    show 0 + 6 + (4 + m.data.length) = 10 + m.data.length by omega,
    show 10 + m.data.length + 2 = 12 + m.data.length by omega,
    slice_append_left _ (by omega), frame_end, if_neg (by simp),
    slice_append_left _ (by omega), frame_body, obfuscate_obfuscate, length_body,
    if_neg (by omega), unpackBody_body h, ← hlen, List.drop_left]

/-- Fewer bytes than a frame are kept, unless there is only one of them. -/
lemma scan_partial {m : Msg} (h : m.Fits) {b : List UInt8} (hpre : b <+: frame m)
    (hlen : b.length < 12 + m.data.length) :
    scan b = .wait (if b.length = 1 then [] else b) := by
  obtain ⟨t, ht⟩ := hpre
  rcases Nat.lt_or_ge b.length 2 with hshort | hlong
  · rcases b with _ | ⟨x, _ | ⟨y, rest⟩⟩
    · rfl
    · have hnone : find magic [x] = none := by
        simp [find, magic, List.isPrefixOf]
      simp only [scan, hnone]
      rfl
    · exact absurd hshort (by rw [List.length_cons, List.length_cons]; omega)
  have hfind : find magic b = some 0 := by
    apply find_of_prefix
    apply List.prefix_of_prefix_length_le (magic_prefix_frame m) ⟨t, ht⟩
    exact hlong
  simp only [scan, hfind, List.drop_zero]
  rw [if_neg (show ¬ b.length = 1 by omega)]
  rcases Nat.lt_or_ge b.length 8 with h8 | h8
  · rw [if_pos (by omega)]
  have hfield : ofLe (slice b (0 + 2) (0 + 4)) = 4 + m.data.length := by
    rw [← frame_length_field h, ← ht, slice_append_left _ (by omega)]
  rw [if_neg (by omega), hfield, if_pos (by omega)]

/-- Whole frames are taken one after another, down to a part that waits. -/
lemma drain_frames {ms : List Msg} (hms : ∀ m ∈ ms, m.Fits) {b b' : List UInt8}
    (hb : scan b = .wait b') : drain (frames ms ++ b) = (ms, b') := by
  induction ms with
  | nil => rw [frames, List.flatMap_nil, List.nil_append, drain_unfold, hb]
  | cons m ms ih =>
    rw [frames_cons, List.append_assoc, drain_unfold, scan_frame (hms m (List.mem_cons_self ..))]
    simp only
    rw [ih fun m' hm' => hms m' (List.mem_cons_of_mem _ hm')]

/-! ## Chunks -/

/-- What has come of the next frame, when `left` are the messages still to come. -/
def Part : List Msg → List UInt8 → Prop
  | [], b => b = []
  | m :: _, b => b <+: frame m ∧ b.length < (frame m).length

/-- Any number of bytes of the frames is some whole frames and a part of the next. -/
lemma prefix_frames {ms : List Msg} {s : List UInt8} (h : s <+: frames ms) :
    ∃ done left b, ms = done ++ left ∧ s = frames done ++ b ∧ Part left b := by
  induction ms generalizing s with
  | nil => exact ⟨[], [], [], rfl, List.prefix_nil.mp h, rfl⟩
  | cons m ms ih =>
    rw [frames_cons] at h
    rcases Nat.lt_or_ge s.length (frame m).length with hlt | hge
    · have hpre := List.prefix_of_prefix_length_le h (List.prefix_append _ _) (Nat.le_of_lt hlt)
      exact ⟨[], m :: ms, s, rfl, rfl, hpre, hlt⟩
    · obtain ⟨s', rfl⟩ := List.prefix_of_prefix_length_le (List.prefix_append _ _) h hge
      obtain ⟨done, left, b, rfl, rfl, hb⟩ := ih ((List.prefix_append_right_inj _).mp h)
      refine ⟨m :: done, left, b, rfl, ?_, hb⟩
      rw [frames_cons, List.append_assoc]

/-- What is left in the buffer of a part of a frame. -/
def kept (b : List UInt8) : List UInt8 := if b.length = 1 then [] else b

/-- A part of a frame is kept for later; of a single byte nothing is left. -/
lemma scan_part {left : List Msg} (hms : ∀ m ∈ left, m.Fits) {b : List UInt8}
    (hb : Part left b) : scan b = .wait (kept b) := by
  cases left with
  | nil =>
    obtain rfl : b = [] := hb
    rfl
  | cons m left =>
    have hlen := hb.2
    rw [length_frame] at hlen
    exact scan_partial (hms m (List.mem_cons_self ..)) hb.1 hlen

/-- The state after some chunks whose bytes are `s`: the messages whose frames are complete, and
what is kept of the next frame. -/
def Clean (ms : List Msg) (s : List UInt8) (st : List Msg × List UInt8) : Prop :=
  ∃ left b, ms = st.1 ++ left ∧ s = frames st.1 ++ b ∧ Part left b ∧ st.2 = kept b

/-- The bytes so far end between the two bytes of a magic. -/
def SplitAt (ms : List Msg) (n : ℕ) : Prop :=
  ∃ j < ms.length, n = (frames (ms.take j)).length + 1

/-- One more chunk, when the last one did not split a magic. -/
lemma Clean.feed {ms : List Msg} (hms : ∀ m ∈ ms, m.Fits) {s c : List UInt8}
    {st : List Msg × List UInt8} (h : Clean ms s st) (hsplit : ¬ SplitAt ms s.length)
    (hpre : s ++ c <+: frames ms) : Clean ms (s ++ c) (feed st c) := by
  obtain ⟨left, b, hleft, rfl, hb, hst⟩ := h
  have hkept : st.2 = b := by
    rw [hst, kept, if_neg]
    intro hone
    cases left with
    | nil =>
      obtain rfl : b = [] := hb
      cases hone
    | cons m left =>
      apply hsplit
      refine ⟨st.1.length, ?_, ?_⟩
      · rw [hleft, List.length_append, List.length_cons]
        omega
      · rw [hleft, List.take_left, List.length_append, hone]
  have hmore : b ++ c <+: frames left := by
    rw [hleft, frames_append, List.append_assoc] at hpre
    exact (List.prefix_append_right_inj _).mp hpre
  obtain ⟨done, left', b', rfl, hbytes, hb'⟩ := prefix_frames hmore
  have hfits : ∀ m ∈ done ++ left', m.Fits := fun m hm => hms m (by rw [hleft]; simp [hm])
  have hdrain := drain_frames (fun m hm => hfits m (List.mem_append_left _ hm))
    (scan_part (fun m hm => hfits m (List.mem_append_right _ hm)) hb')
  rw [← hbytes] at hdrain
  refine ⟨left', b', ?_, ?_, hb', ?_⟩
  · rw [Serial.feed, hkept, hdrain, hleft, List.append_assoc]
  · rw [Serial.feed, hkept, hdrain, List.append_assoc, hbytes, frames_append, List.append_assoc]
  · rw [Serial.feed, hkept, hdrain]

/-! ## What is received stood in the stream -/

/-- The messages `ms` stand in the stream `s` as frames, one after another, between the offsets
`p` and `q`. -/
def Chain (s : List UInt8) (p : ℕ) : List Msg → ℕ → Prop
  | [], q => p ≤ q
  | m :: ms, q => ∃ k L, p ≤ k ∧ FrameAt s k L m ∧ Chain s (k + 8 + L) ms q

/-- Messages that stand from an offset on stand from an earlier one on. -/
lemma Chain.mono {s : List UInt8} {p p' q : ℕ} {ms : List Msg} (h : Chain s p ms q)
    (hp : p' ≤ p) : Chain s p' ms q := by
  cases ms with
  | nil => exact Nat.le_trans hp h
  | cons m ms =>
    obtain ⟨k, L, hk, hrest⟩ := h
    exact ⟨k, L, Nat.le_trans hp hk, hrest⟩

/-- Messages end where they begin, or later. -/
lemma Chain.le {s : List UInt8} {p q : ℕ} {ms : List Msg} (h : Chain s p ms q) : p ≤ q := by
  induction ms generalizing p with
  | nil => exact h
  | cons m ms ih =>
    obtain ⟨k, L, hk, -, hrest⟩ := h
    have := ih hrest
    omega

/-- Messages that stand one after the other. -/
lemma Chain.append {s : List UInt8} {ms ns : List Msg} {p q r : ℕ} (h : Chain s p ms q)
    (h' : Chain s q ns r) : Chain s p (ms ++ ns) r := by
  induction ms generalizing p with
  | nil => exact h'.mono h
  | cons m ms ih =>
    obtain ⟨k, L, hk, hframe, hrest⟩ := h
    exact ⟨k, L, hk, hframe, ih hrest⟩

/-- A frame is still there when more bytes come. -/
lemma FrameAt.append {s : List UInt8} {k L : ℕ} {m : Msg} (h : FrameAt s k L m)
    (t : List UInt8) : FrameAt (s ++ t) k L m := by
  obtain ⟨hfits, hlong, hmagic, hlength, hmsg⟩ := h
  refine ⟨?_, hlong, ?_, ?_, ?_⟩
  · rw [List.length_append]
    omega
  · rw [List.drop_append_of_le_length (by omega)]
    exact hmagic.trans (List.prefix_append _ _)
  · rw [slice_append_left _ (by omega), hlength]
  · rw [slice_append_left _ (by omega), hmsg]

/-- A frame seen without the bytes before it. -/
lemma frameAt_drop {s : List UInt8} {d k L : ℕ} {m : Msg} (hd : d ≤ s.length) :
    FrameAt (s.drop d) k L m ↔ FrameAt s (d + k) L m := by
  have hfits : k + 8 + L ≤ (s.drop d).length ↔ d + k + 8 + L ≤ s.length := by
    rw [List.length_drop]
    omega
  have hlength : slice (s.drop d) (k + 2) (k + 4) = slice s (d + k + 2) (d + k + 4) := by
    rw [slice_drop, ← Nat.add_assoc, ← Nat.add_assoc]
  have hmsg : slice (s.drop d) (k + 4) (k + 6 + L) = slice s (d + k + 4) (d + k + 6 + L) := by
    rw [slice_drop, ← Nat.add_assoc, ← Nat.add_assoc, ← Nat.add_assoc]
  constructor
  · rintro ⟨h₁, h₂, h₃, h₄, h₅⟩
    rw [List.drop_drop] at h₃
    exact ⟨hfits.mp h₁, h₂, h₃, hlength ▸ h₄, hmsg ▸ h₅⟩
  · rintro ⟨h₁, h₂, h₃, h₄, h₅⟩
    rw [← List.drop_drop] at h₃
    exact ⟨hfits.mpr h₁, h₂, h₃, hlength.symm ▸ h₄, hmsg.symm ▸ h₅⟩

/-- What comes later does not change where messages stand. -/
lemma Chain.append_right {s : List UInt8} {ms : List Msg} {p q : ℕ} (h : Chain s p ms q)
    (t : List UInt8) : Chain (s ++ t) p ms q := by
  induction ms generalizing p with
  | nil => exact h
  | cons m ms ih =>
    obtain ⟨k, L, hk, hframe, hrest⟩ := h
    exact ⟨k, L, hk, hframe.append t, ih hrest⟩

/-- Dropping bytes in front moves the offsets. -/
lemma chain_drop {s : List UInt8} {ms : List Msg} {d p q : ℕ} (hd : d ≤ s.length) :
    Chain (s.drop d) p ms q ↔ Chain s (d + p) ms (d + q) := by
  induction ms generalizing p with
  | nil => exact (Nat.add_le_add_iff_left).symm
  | cons m ms ih =>
    constructor
    · rintro ⟨k, L, hk, hframe, hrest⟩
      refine ⟨d + k, L, Nat.add_le_add_left hk d, (frameAt_drop hd).mp hframe, ?_⟩
      rw [show d + k + 8 + L = d + (k + 8 + L) by omega]
      exact ih.mp hrest
    · rintro ⟨k, L, hk, hframe, hrest⟩
      obtain ⟨k', rfl⟩ := Nat.exists_eq_add_of_le (show d ≤ k by omega)
      refine ⟨k', L, by omega, (frameAt_drop hd).mpr hframe, ?_⟩
      rw [show d + k' + 8 + L = d + (k' + 8 + L) by omega] at hrest
      exact ih.mpr hrest

/-- Draining takes frames that stand in the buffer, and leaves an end of it. -/
lemma drain_chain (buf : List UInt8) :
    ∃ q ≤ buf.length, (drain buf).2 = buf.drop q ∧ Chain buf 0 (drain buf).1 q := by
  induction hn : buf.length using Nat.strongRecOn generalizing buf with
  | ind n ih =>
    subst hn
    rw [drain_unfold]
    rcases scan_cases buf with ⟨k, hk⟩ | ⟨k, hk, hkl, hnext⟩ | ⟨k, L, m, hframe, hgot⟩
    · rw [hk]
      refine ⟨min k buf.length, Nat.min_le_right _ _, ?_, Nat.zero_le _⟩
      rcases Nat.le_total k buf.length with hle | hle
      · rw [Nat.min_eq_left hle]
      · rw [Nat.min_eq_right hle, List.drop_length, List.drop_eq_nil_of_le hle]
    · rw [hnext]
      have hlen : (buf.drop k).length = buf.length - k := List.length_drop
      obtain ⟨q, hq, hleft, hchain⟩ := ih (buf.drop k).length (by omega) (buf.drop k) rfl
      refine ⟨k + q, by omega, ?_, ((chain_drop hkl).mp hchain).mono (Nat.zero_le _)⟩
      rw [hleft, List.drop_drop]
    · rw [hgot]
      have hfits := hframe.fits
      have hlen : (buf.drop (k + 8 + L)).length = buf.length - (k + 8 + L) := List.length_drop
      obtain ⟨q, hq, hleft, hchain⟩ := ih _ (by omega) (buf.drop (k + 8 + L)) rfl
      refine ⟨k + 8 + L + q, by omega, ?_, k, L, Nat.zero_le _, hframe, (chain_drop hfits).mp hchain⟩
      simp only
      rw [hleft, List.drop_drop]

/-- **Whatever is received stood in the stream** as frames, in order and without overlap, however
the bytes were cut. -/
theorem receive_chain (chunks : List (List UInt8)) (st : List Msg × List UInt8) :
    ∃ ms q, (chunks.foldl feed st).1 = st.1 ++ ms ∧ q ≤ (st.2 ++ chunks.flatten).length ∧
      Chain (st.2 ++ chunks.flatten) 0 ms q := by
  induction chunks generalizing st with
  | nil => exact ⟨[], 0, by simp, Nat.zero_le _, Nat.le_refl 0⟩
  | cons c chunks ih =>
    obtain ⟨q₁, hq₁, hleft, hchain₁⟩ := drain_chain (st.2 ++ c)
    obtain ⟨ms, q₂, hms, hq₂, hchain₂⟩ := ih (feed st c)
    have hrest : (feed st c).2 ++ chunks.flatten = (st.2 ++ (c :: chunks).flatten).drop q₁ := by
      rw [feed, hleft, List.flatten_cons, ← List.append_assoc,
        List.drop_append_of_le_length hq₁]
    have hall : q₁ ≤ (st.2 ++ (c :: chunks).flatten).length := by
      rw [List.flatten_cons, ← List.append_assoc, List.length_append]
      omega
    rw [hrest] at hq₂ hchain₂
    refine ⟨(drain (st.2 ++ c)).1 ++ ms, q₁ + q₂, ?_, ?_, ?_⟩
    · rw [List.foldl_cons, hms, feed, List.append_assoc]
    · rw [List.length_drop] at hq₂
      omega
    · have hchain₁' := hchain₁.append_right chunks.flatten
      rw [List.append_assoc, ← List.flatten_cons] at hchain₁'
      exact hchain₁'.append ((chain_drop hall).mp hchain₂)

/-! ## A lost magic -/

/-- A frame has room for its message. -/
lemma FrameAt.room {s : List UInt8} {k L : ℕ} {m : Msg} (h : FrameAt s k L m) :
    m.data.length + 2 ≤ L := by
  have hlong := h.long
  have hdata : m.data.length ≤ L + 2 - 4 := by
    rw [h.msg, unpackBody, length_slice, length_obfuscate, length_slice]
    omega
  omega

/-- The first eight bytes of a frame. -/
lemma frame_head (m : Msg) :
    ∃ rest, frame m = [0xab, 0xcd, UInt8.ofNat (4 + m.data.length),
      UInt8.ofNat ((4 + m.data.length) / 256), UInt8.ofNat m.msgType ^^^ 0x16,
      UInt8.ofNat (m.msgType / 256) ^^^ 0x6C, UInt8.ofNat m.data.length ^^^ 0x14,
      UInt8.ofNat (m.data.length / 256) ^^^ 0xE6] ++ rest := by
  rw [frame, length_payload, body, payload]
  simp only [toLe, List.cons_append, List.nil_append, obfuscate, List.mapIdx_cons, magic]
  exact ⟨_, rfl⟩

/-- No frame for `m` starts at the second byte of the frame of `m`. -/
lemma not_frameAt_one {m : Msg} {t : List UInt8} {L : ℕ} : ¬ FrameAt (frame m ++ t) 1 L m := by
  intro h
  obtain ⟨rest, hhead⟩ := frame_head m
  have hmagic := h.magic
  rw [hhead] at hmagic
  simp [Serial.magic] at hmagic

/-- The type in a body, from its first two bytes on the line. -/
lemma unpackBody_msgType (a b : UInt8) (rest : List UInt8) :
    (unpackBody (obfuscate (a :: b :: rest))).msgType =
      (a ^^^ 0x16).toNat + 256 * (b ^^^ 0x6C).toNat := by
  simp [unpackBody, obfuscate, List.mapIdx_cons, slice, ofLe, obfus]

/-- No frame for `m` starts at the third byte of the frame of `m`.

**Proof sketch.** The magic there is the length field, which fixes the length of the data. The
type read back is then fixed by the obfuscated length, and the length read is the obfuscated
type: too short for the data. -/
lemma not_frameAt_two {m : Msg} (hm : m.Fits) {t : List UInt8} {L : ℕ} :
    ¬ FrameAt (frame m ++ t) 2 L m := by
  intro h
  have hroom := h.room
  have hlong := h.long
  obtain ⟨rest, hhead⟩ := frame_head m
  obtain ⟨hfits, -, hmagic, hlength, hmsg⟩ := h
  have hdata : m.data.length = 52647 := by
    rw [hhead] at hmagic
    simp only [Serial.magic, List.cons_append, List.drop_succ_cons, List.drop_zero,
      List.cons_prefix_cons] at hmagic
    obtain ⟨hlo, hhi, -⟩ := hmagic
    have hlo' := congrArg UInt8.toNat hlo
    have hhi' := congrArg UInt8.toNat hhi
    rw [UInt8.toNat_ofNat'] at hlo' hhi'
    have := hm.2
    change 171 = _ at hlo'
    change 205 = _ at hhi'
    omega
  have htype : m.msgType = 0x47A5 := by
    have hbytes : slice (frame m ++ t) 6 (8 + L) =
        (UInt8.ofNat m.data.length ^^^ 0x14) :: (UInt8.ofNat (m.data.length / 256) ^^^ 0xE6) ::
          (rest ++ t).take L := by
      rw [hhead, slice, show 8 + L - 6 = L + 2 by omega]
      rfl
    rw [hmsg]
    change (unpackBody (obfuscate (slice (frame m ++ t) 6 (8 + L)))).msgType = _
    rw [hbytes, unpackBody_msgType, hdata]
    decide
  have hshort : L = 11187 := by
    have hfield : slice (frame m ++ t) 4 6 =
        [UInt8.ofNat m.msgType ^^^ 0x16, UInt8.ofNat (m.msgType / 256) ^^^ 0x6C] := by
      rw [hhead]
      rfl
    rw [← hlength, hfield, htype]
    decide
  omega

/-- **Late stays late**: if every frame starts past the first byte of the frames of the messages
it carries, the last one ends past the end of the stream.

**Proof sketch.** Induction on the messages. A frame carrying `m` that starts past the first byte
of the frame of `m` starts at least three bytes late and is at most two bytes shorter, so it ends
past the end of that frame, and the next one is late too. -/
lemma not_chain_late {ms : List Msg} (hms : ∀ m ∈ ms, m.Fits) {p q : ℕ} (hp : 1 ≤ p)
    (hq : q ≤ (frames ms).length) : ¬ Chain (frames ms) p ms q := by
  induction ms generalizing p q with
  | nil =>
    intro h
    have hle : p ≤ q := h
    rw [frames, List.flatMap_nil, List.length_nil] at hq
    omega
  | cons m ms ih =>
    rintro ⟨k, L, hk, hframe, hrest⟩
    have hroom := hframe.room
    rw [frames_cons] at hframe hrest hq
    have hlate : 3 ≤ k := by
      by_contra hlt
      obtain rfl | rfl : k = 1 ∨ k = 2 := by omega
      · exact not_frameAt_one hframe
      · exact not_frameAt_two (hms m (List.mem_cons_self ..)) hframe
    have hlen := length_frame m
    rw [List.length_append] at hq
    obtain ⟨p', hp'⟩ := Nat.exists_eq_add_of_le (show (frame m).length ≤ k + 8 + L by omega)
    obtain ⟨q', hq'⟩ := Nat.exists_eq_add_of_le (show (frame m).length ≤ q by
      have := hrest.le
      omega)
    rw [hp', hq', ← chain_drop (by rw [List.length_append]; omega), List.drop_left] at hrest
    exact ih (fun m' hm' => hms m' (List.mem_cons_of_mem _ hm')) (by omega) (by omega) hrest

/-! ## The messages come back -/

/-- Some chunk ends between the two bytes of the magic of one of the frames `fs`. -/
def SplitsMagic (fs chunks : List (List UInt8)) : Prop :=
  ∃ i, ∃ j < fs.length, (chunks.take i).flatten.length = (fs.take j).flatten.length + 1

/-- The state after the first `i` chunks, when none before them split a magic. -/
lemma clean_take {ms : List Msg} (hms : ∀ m ∈ ms, m.Fits) {chunks : List (List UInt8)}
    (hall : chunks.flatten = frames ms) {i : ℕ}
    (hsplit : ∀ i' < i, ¬ SplitAt ms (chunks.take i').flatten.length) :
    Clean ms (chunks.take i).flatten ((chunks.take i).foldl feed ([], [])) := by
  induction i with
  | zero =>
    refine ⟨ms, [], rfl, rfl, ?_, rfl⟩
    cases ms with
    | nil => rfl
    | cons m ms => exact ⟨List.nil_prefix, by rw [length_frame, List.length_nil]; omega⟩
  | succ i ih =>
    have hclean := ih fun i' hi' => hsplit i' (by omega)
    have htake := List.take_add_one (l := chunks) (i := i)
    cases hget : chunks[i]? with
    | none => rwa [htake, hget, Option.toList_none, List.append_nil]
    | some c =>
      rw [hget, Option.toList_some] at htake
      have hbytes : (chunks.take (i + 1)).flatten = (chunks.take i).flatten ++ c := by
        rw [htake, List.flatten_append, List.flatten_singleton]
      have hpre : (chunks.take i).flatten ++ c <+: frames ms := by
        rw [← hall, ← hbytes]
        exact ⟨(chunks.drop (i + 1)).flatten, by rw [← List.flatten_append, List.take_append_drop]⟩
      rw [hbytes, htake, List.foldl_append]
      exact hclean.feed hms (hsplit i (by omega)) hpre

/-- All chunks in, none of them splitting a magic: every message is there. -/
lemma Clean.complete {ms : List Msg} {st : List Msg × List UInt8}
    (h : Clean ms (frames ms) st) : st.1 = ms := by
  obtain ⟨left, b, hleft, hbytes, hb, -⟩ := h
  have hb' : frames left = b := by
    rw [hleft, frames_append] at hbytes
    exact List.append_cancel_left hbytes
  cases left with
  | nil => rw [hleft, List.append_nil]
  | cons m left =>
    have hlen := hb.2
    rw [← hb', frames_cons, List.length_append] at hlen
    omega

/-- More messages take at least as many bytes. -/
lemma length_frames_take_mono (ms : List Msg) {i j : ℕ} (h : i ≤ j) :
    (frames (ms.take i)).length ≤ (frames (ms.take j)).length := by
  have hsplit : ms.take j = ms.take i ++ (ms.take j).drop i := by
    conv_lhs => rw [← List.take_append_drop i (ms.take j), List.take_take, Nat.min_eq_left h]
  rw [hsplit, frames_append, List.length_append]
  omega

/-- Every message takes twelve bytes at least. -/
lemma length_frames_take_succ {ms : List Msg} {j : ℕ} (hj : j < ms.length) :
    (frames (ms.take j)).length + 12 ≤ (frames (ms.take (j + 1))).length := by
  rw [List.take_succ_eq_append_getElem hj, frames_append, List.length_append, frames_cons,
    List.length_append, length_frame]
  omega

/-- A chunk that ends one byte into a frame leaves nothing in the buffer.

**Proof sketch.** The bytes so far are whole frames and a part shorter than the next frame, in one
way only; so that part is the one byte, which `kept` throws away. -/
lemma Clean.lost {ms : List Msg} {s : List UInt8} {st : List Msg × List UInt8}
    (h : Clean ms s st) (hsplit : SplitAt ms s.length) :
    ∃ m left, ms = st.1 ++ m :: left ∧ s.length = (frames st.1).length + 1 ∧ st.2 = [] := by
  obtain ⟨left, b, hleft, rfl, hb, hst⟩ := h
  obtain ⟨j, hj, hlen⟩ := hsplit
  rw [List.length_append] at hlen ⊢
  have hdone : (frames (ms.take st.1.length)).length = (frames st.1).length := by
    rw [hleft, List.take_left]
  have hafter : st.1.length ≤ j := by
    by_contra hlt
    have hgap := length_frames_take_succ hj
    have hmono := length_frames_take_mono ms (show j + 1 ≤ st.1.length by omega)
    omega
  cases left with
  | nil =>
    rw [hleft, List.append_nil] at hj
    omega
  | cons m left =>
    have hnext : (frames (ms.take (st.1.length + 1))).length =
        (frames st.1).length + (frame m).length := by
      rw [hleft, List.take_append, List.take_of_length_le (by omega), Nat.add_sub_cancel_left,
        frames_append, List.length_append, List.take_succ_cons, frames_cons, List.length_append]
      simp [frames]
    have hpart := hb.2
    have hbefore : j ≤ st.1.length := by
      by_contra hlt
      have hmono := length_frames_take_mono ms (show st.1.length + 1 ≤ j by omega)
      omega
    obtain rfl : j = st.1.length := by omega
    have hone : b.length = 1 := by omega
    exact ⟨m, left, hleft, by omega, by rw [hst, kept, if_pos hone]⟩

/-- **A split magic loses its frame**: the messages do not all come back.

**Proof sketch.** At the first such chunk the buffer is thrown away, so the rest of the stream
starts one byte into a frame. Were the missing messages to come back from there, they would form
a chain of late frames. -/
lemma receive_ne_of_split {ms : List Msg} (hms : ∀ m ∈ ms, m.Fits) {chunks : List (List UInt8)}
    (hall : chunks.flatten = frames ms) {i : ℕ}
    (hsplit : SplitAt ms (chunks.take i).flatten.length)
    (hfirst : ∀ i' < i, ¬ SplitAt ms (chunks.take i').flatten.length) :
    receive chunks ≠ ms := by
  intro heq
  have hclean := clean_take hms hall hfirst
  generalize hst : (chunks.take i).foldl feed ([], []) = st at hclean
  obtain ⟨m, left, hleft, hlen, hempty⟩ := hclean.lost hsplit
  obtain ⟨more, q, hmore, hq, hchain⟩ := receive_chain (chunks.drop i) st
  have hreceive : receive chunks = st.1 ++ more := by
    rw [receive, ← List.take_append_drop i chunks, List.foldl_append, hst, hmore]
  have hmissing : more = m :: left := by
    rw [hreceive, hleft] at heq
    exact List.append_cancel_left heq
  have hrest : st.2 ++ (chunks.drop i).flatten = (frames (m :: left)).drop 1 := by
    have hbytes : (chunks.take i).flatten ++ (chunks.drop i).flatten =
        frames st.1 ++ frames (m :: left) := by
      rw [← List.flatten_append, List.take_append_drop, hall, hleft, frames_append]
    have hdrop := congrArg (List.drop (chunks.take i).flatten.length) hbytes
    rw [List.drop_left, hlen, ← List.drop_drop, List.drop_left] at hdrop
    rw [hempty, List.nil_append, hdrop]
  have hbyte : 1 ≤ (frames (m :: left)).length := by
    rw [frames_cons, List.length_append, length_frame]
    omega
  rw [hrest, hmissing, chain_drop hbyte] at hchain
  rw [hrest, List.length_drop] at hq
  exact not_chain_late (fun m' hm' => hms m' (by rw [hleft]; exact List.mem_append_right _ hm'))
    (Nat.le_refl 1) (show 1 + q ≤ _ by omega) hchain

/-- **Reassembly.** Every message that fits has a frame. Cut the frames of a list of such messages
into chunks in any way, feed the chunks to a fresh `Frames` object and drain it after each one:
the messages come back, all of them, in order and nothing else, if and only if no chunk ends
between the two bytes of a frame's magic.

**Proof sketch.** While no chunk has ended inside a magic, what was drained and what is buffered
is what was sent (`clean_take`), so at the end everything has come back. At the first chunk that
ends there the first byte of the magic is thrown away with the noise, and its message is lost
(`receive_ne_of_split`). -/
theorem receive_eq_iff (ms : List Msg)
    (hms : ∀ m ∈ ms, m.msgType < 65536 ∧ m.data.length ≤ 65531) :
    ∃ fs, ms.mapM (fun m => build m.msgType m.data) = some fs ∧
      ∀ chunks : List (List UInt8), chunks.flatten = fs.flatten →
        (receive chunks = ms ↔ ¬ SplitsMagic fs chunks) := by
  refine ⟨ms.map frame, ?_, fun chunks hall => ?_⟩
  · induction ms with
    | nil => rfl
    | cons m ms ih =>
      have hfits : m.Fits := hms m (List.mem_cons_self ..)
      rw [List.mapM_cons, build_eq, if_pos hfits,
        ih fun m' hm' => hms m' (List.mem_cons_of_mem _ hm')]
      rfl
  have hflat : ∀ ns : List Msg, (ns.map frame).flatten = frames ns := fun _ => rfl
  have hsplits : SplitsMagic (ms.map frame) chunks ↔
      ∃ i, SplitAt ms (chunks.take i).flatten.length := by
    simp only [SplitsMagic, SplitAt, List.length_map, ← List.map_take, hflat]
  rw [hflat] at hall
  rw [hsplits]
  constructor
  · classical
    intro heq hex
    exact receive_ne_of_split hms hall (Nat.find_spec hex) (fun i' hi' => Nat.find_min hex hi') heq
  · intro hnone
    have hclean := clean_take hms hall (i := chunks.length) fun i' _ hi' => hnone ⟨i', hi'⟩
    rw [List.take_length, hall] at hclean
    exact hclean.complete

/-- Two messages, the second without data. -/
theorem receive_eq_iff_two :
    ∃ fs, [Msg.mk 0x0724 [1, 2], Msg.mk 0x0725 []].mapM (fun m => build m.msgType m.data) = some fs ∧
      ∀ chunks : List (List UInt8), chunks.flatten = fs.flatten →
        (receive chunks = [⟨0x0724, [1, 2]⟩, ⟨0x0725, []⟩] ↔ ¬ SplitsMagic fs chunks) :=
  receive_eq_iff [⟨0x0724, [1, 2]⟩, ⟨0x0725, []⟩] (by decide)

/-- One message whose frame comes in two chunks, cut after the first byte of the magic: nothing is
received. -/
theorem split_magic_loses_frame :
    ∃ f, build 0x0725 [] = some f ∧ [f.take 1, f.drop 1].flatten = f ∧
      receive [f.take 1, f.drop 1] ≠ [⟨0x0725, []⟩] := by
  refine ⟨frame ⟨0x0725, []⟩, ?_, ?_, ?_⟩ <;> decide +kernel

end Uvk5.Serial
