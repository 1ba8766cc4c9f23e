import Mathlib.Algebra.Order.Floor.Div
import Mathlib.GroupTheory.GroupAction.Ring
import Uvk5.Serial.Reassembly

set_option relaxedAutoImplicit false
set_option autoImplicit false

/-!
# Programming over the serial bootloader (`tools/uvk5_serial_flash.py`)

`Flasher.program` sends an image page by page, each page up to three times, and goes on when the
bootloader acknowledges it. Frames and replies may be lost, duplicated, delayed and reordered in
any way; the reply it looks at is the last one that came since the page was last sent.

## Main definitions

* `Serial.Bootloader.Session` — everything sent, accepted and replied in one session.
* `Serial.Bootloader.Move`, `Serial.Bootloader.step` — what the network and the device may do.
* `Serial.Bootloader.program` — `Flasher.program`, against any schedule of moves.

## Main results

* `Serial.Bootloader.program_sound` — if it returns `n`, the image has `n` pages and the device
  accepted each of them, with the right bytes.
* `Serial.Bootloader.program_of_prompt` — it returns when nothing is lost.

## Design

The schedule gives, for every wait of the host, the moves made during it. A device that replies
without error to a page it never accepted is ruled out by `step`, and that is all that is assumed
of it. Since nothing leaves the lists of a session, loss is a move never made, delay one made
later, and duplication one made twice.
-/

namespace Uvk5.Serial.Bootloader

open Bytes

/-- `MSG_PROG_FW`. -/
def msgProgFw : ℕ := 0x0519
/-- `MSG_PROG_FW_RESP`. -/
def msgProgFwResp : ℕ := 0x051A
/-- `PAGE_SIZE`. -/
def pageSize : ℕ := 256

/-! ## Page frames and replies -/

/-- `struct.pack("<IHH", stamp, index, total)`, which raises for a number that does not fit. -/
def packIHH (stamp : UInt32) (index total : ℕ) : Option (List UInt8) :=
  if index < 65536 ∧ total < 65536 then
    some (toLe 4 stamp.toNat ++ toLe 2 index ++ toLe 2 total)
  else none

/-- `struct.unpack_from("<IHH", reply, 0)`, which raises on fewer than eight bytes. -/
def unpackIHH (reply : List UInt8) : Option (ℕ × ℕ × ℕ) :=
  if reply.length < 8 then none
  else some (ofLe (slice reply 0 4), ofLe (slice reply 4 6), ofLe (slice reply 6 8))

/-- `image[index * PAGE_SIZE:(index + 1) * PAGE_SIZE]`. -/
def page (image : List UInt8) (index : ℕ) : List UInt8 :=
  slice image (index * pageSize) ((index + 1) * pageSize)

/-- The data of a page frame: a header, four reserved bytes, the page. -/
def pageData (image : List UInt8) (stamp : UInt32) (index total : ℕ) : Option (List UInt8) :=
  (packIHH stamp index total).map fun header => header ++ [0, 0, 0, 0] ++ page image index

/-- The page index a page frame carries. -/
def frameIndex (data : List UInt8) : ℕ := ofLe (slice data 4 6)

/-- The page a page frame carries. -/
def framePage (data : List UInt8) : List UInt8 := data.drop 12

/-- The page a message acknowledges, if it is a reply without error. -/
def acknowledges (m : Msg) : Option ℕ :=
  if m.msgType = msgProgFwResp then
    match unpackIHH m.data with
    | some (_, index, err) => if err = 0 then some index else none
    | none => none
  else none

/-! ## The link and the device -/

/-- One session. -/
structure Session where
  /-- The data of the page frames sent so far. -/
  sent : List (List UInt8)
  /-- The data of the page frames the device accepted so far. -/
  accepted : List (List UInt8)
  /-- The messages the device emitted so far. -/
  emitted : List Msg
  /-- The messages delivered since the host last looked. -/
  inbox : List Msg

/-- What the network and the device may do. -/
inductive Move where
  /-- The device accepts the `k`-th frame that was sent. -/
  | accept (k : ℕ)
  /-- The device emits a message. -/
  | emit (m : Msg)
  /-- The `k`-th message emitted arrives. -/
  | deliver (k : ℕ)

/-- The device acknowledges a page only after accepting a frame with its index. -/
def mayEmit (s : Session) (m : Msg) : Bool :=
  match acknowledges m with
  | some index => s.accepted.any fun data => frameIndex data = index
  | none => true

/-- One move; one that is not possible changes nothing. -/
def step (s : Session) : Move → Session
  | .accept k =>
    match s.sent[k]? with
    | some data => { s with accepted := s.accepted ++ [data] }
    | none => s
  | .emit m => if mayEmit s m then { s with emitted := s.emitted ++ [m] } else s
  | .deliver k =>
    match s.emitted[k]? with
    | some m => { s with inbox := s.inbox ++ [m] }
    | none => s

/-! ## The host -/

/-- How `program` raises. -/
inductive ProgramError where
  /-- `SystemExit("page %d never acknowledged")`. -/
  | neverAcknowledged (index : ℕ)
  /-- `struct.error`. -/
  | structError
  deriving DecidableEq

/-- `_send`, then `_pump` while the moves of one wait are made. -/
def exchange (s : Session) (data : List UInt8) (moves : List Move) : Session :=
  moves.foldl step { s with sent := s.sent ++ [data] }

/-- The last reply among the messages that `take` gives. -/
def lastReply (inbox : List Msg) : Option (List UInt8) :=
  inbox.foldl (fun reply m => if m.msgType = msgProgFwResp then some m.data else reply) none

/-- The attempts at one page, at most `retries` of them, each with the moves made while it waits. -/
def tryPage (index : ℕ) (data : List UInt8) :
    ℕ → Session × List (List Move) → Except ProgramError Unit × Session × List (List Move)
  | 0, st => (.error (.neverAcknowledged index), st)
  | retries + 1, (s, schedule) =>
    match build msgProgFw data with
    | none => (.error .structError, s, schedule)
    | some _ =>
      let s := exchange s data (schedule.headD [])
      let st := ({ s with inbox := [] }, schedule.tail)
      match lastReply s.inbox with
      | none => tryPage index data retries st
      | some reply =>
        match unpackIHH reply with
        | none => (.error .structError, st)
        | some (_, pageIndex, err) =>
          if err = 0 ∧ pageIndex = index then (.ok (), st) else tryPage index data retries st

/-- The loop over the pages from `index` on. -/
def programFrom (image : List UInt8) (stamp : UInt32) (total retries : ℕ) :
    ℕ → ℕ → ℕ → Session × List (List Move) → Except ProgramError ℕ × Session
  | 0, _, written, st => (.ok written, st.1)
  | remaining + 1, index, written, st =>
    match pageData image stamp index total with
    | none => (.error .structError, st.1)
    | some data =>
      match tryPage index data retries st with
      | (.error e, st) => (.error e, st.1)
      | (.ok (), st) => programFrom image stamp total retries remaining (index + 1) (written + 1) st

/-- `Flasher.program(image, pages, retries)`: what it returns or raises, and the session it
leaves. -/
def program (image : List UInt8) (stamp : UInt32) (pages : Option ℤ) (retries : ℕ) (s : Session)
    (schedule : List (List Move)) : Except ProgramError ℕ × Session :=
  let total := (image.length + pageSize - 1) / pageSize
  let total := match pages with
    | none => total
    | some pages => (min (total : ℤ) pages).toNat
  programFrom image stamp total retries total 0 0 (s, schedule)

/-- A session that has just begun. -/
def Session.fresh : Session := ⟨[], [], [], []⟩

/-! ## The invariant of a session -/

/-- Only pages of the image are sent, only what was sent is accepted, and only what was accepted is
acknowledged. -/
structure Sound (image : List UInt8) (stamp : UInt32) (total : ℕ) (s : Session) : Prop where
  sent : ∀ data ∈ s.sent, ∃ index < total, pageData image stamp index total = some data
  accepted : ∀ data ∈ s.accepted, data ∈ s.sent
  emitted : ∀ m ∈ s.emitted, ∀ index, acknowledges m = some index →
    ∃ data ∈ s.accepted, frameIndex data = index
  inbox : ∀ m ∈ s.inbox, m ∈ s.emitted

section Session

variable {image : List UInt8} {stamp : UInt32} {total : ℕ}

/-- A move keeps the invariant, and what is accepted stays accepted.

**Proof sketch.** By the move. A page that is accepted was sent; an acknowledgement may be emitted
only for a page that was accepted; what is delivered was emitted. -/
lemma Sound.step {s : Session} (h : Sound image stamp total s) (move : Move) :
    Sound image stamp total (step s move) ∧ s.accepted ⊆ (Bootloader.step s move).accepted := by
  cases move with
  | accept k =>
    simp only [Bootloader.step]
    cases hk : s.sent[k]? with
    | none => exact ⟨h, fun _ hd => hd⟩
    | some data =>
      refine ⟨⟨h.sent, ?_, ?_, h.inbox⟩, fun _ hd => List.mem_append_left _ hd⟩
      · intro d hd
        rcases List.mem_append.mp hd with hd | hd
        · exact h.accepted d hd
        · rw [List.mem_singleton.mp hd]
          exact List.mem_of_getElem? hk
      · intro m hm index hack
        obtain ⟨d, hd, hindex⟩ := h.emitted m hm index hack
        exact ⟨d, List.mem_append_left _ hd, hindex⟩
  | emit m =>
    simp only [Bootloader.step]
    split
    · next hmay =>
      refine ⟨⟨h.sent, h.accepted, ?_, ?_⟩, fun _ hd => hd⟩
      · intro m' hm' index hack
        rcases List.mem_append.mp hm' with hm' | hm'
        · exact h.emitted m' hm' index hack
        · rw [List.mem_singleton.mp hm'] at hack
          rw [mayEmit, hack, List.any_eq_true] at hmay
          obtain ⟨d, hd, hindex⟩ := hmay
          exact ⟨d, hd, of_decide_eq_true hindex⟩
      · exact fun m' hm' => List.mem_append_left _ (h.inbox m' hm')
    · exact ⟨h, fun _ hd => hd⟩
  | deliver k =>
    simp only [Bootloader.step]
    cases hk : s.emitted[k]? with
    | none => exact ⟨h, fun _ hd => hd⟩
    | some m =>
      refine ⟨⟨h.sent, h.accepted, h.emitted, ?_⟩, fun _ hd => hd⟩
      intro m' hm'
      rcases List.mem_append.mp hm' with hm' | hm'
      · exact h.inbox m' hm'
      · rw [List.mem_singleton.mp hm']
        exact List.mem_of_getElem? hk

/-- All moves of a wait keep the invariant. -/
lemma Sound.steps (moves : List Move) {s : Session} (h : Sound image stamp total s) :
    Sound image stamp total (moves.foldl Bootloader.step s) ∧
      s.accepted ⊆ (moves.foldl Bootloader.step s).accepted := by
  induction moves generalizing s with
  | nil => exact ⟨h, fun _ hd => hd⟩
  | cons move moves ih =>
    obtain ⟨hstep, hmono⟩ := h.step move
    obtain ⟨hrest, hmono'⟩ := ih hstep
    exact ⟨hrest, fun _ hd => hmono' (hmono hd)⟩

/-- An exchange for a page of the image. -/
lemma Sound.exchange {s : Session} (h : Sound image stamp total s) {index : ℕ} (hindex : index < total)
    {data : List UInt8} (hdata : pageData image stamp index total = some data)
    (moves : List Move) :
    Sound image stamp total (exchange s data moves) ∧
      s.accepted ⊆ (Bootloader.exchange s data moves).accepted := by
  refine Sound.steps moves (s := { s with sent := s.sent ++ [data] }) ⟨?_, ?_, h.emitted, h.inbox⟩
  · intro d hd
    rcases List.mem_append.mp hd with hd | hd
    · exact h.sent d hd
    · rw [List.mem_singleton.mp hd]
      exact ⟨index, hindex, hdata⟩
  · exact fun d hd => List.mem_append_left _ (h.accepted d hd)

/-- The reply the host looks at is one that arrived. -/
lemma lastReply_mem {inbox : List Msg} {reply : List UInt8} (h : lastReply inbox = some reply) :
    ∃ m ∈ inbox, m.msgType = msgProgFwResp ∧ m.data = reply := by
  have hany : ∀ (inbox : List Msg) (start : Option (List UInt8)),
      inbox.foldl (fun reply m => if m.msgType = msgProgFwResp then some m.data else reply) start =
        some reply →
      start = some reply ∨ ∃ m ∈ inbox, m.msgType = msgProgFwResp ∧ m.data = reply := by
    intro inbox
    induction inbox with
    | nil => exact fun start hstart => Or.inl hstart
    | cons m inbox ih =>
      intro start hfold
      rcases ih _ hfold with hstart | ⟨m', hm', hreply⟩
      · simp only at hstart
        split_ifs at hstart with htype
        · exact Or.inr ⟨m, List.mem_cons_self .., htype, Option.some.inj hstart⟩
        · exact Or.inl hstart
      · exact Or.inr ⟨m', List.mem_cons_of_mem _ hm', hreply⟩
  rcases hany inbox none h with hnone | hmem
  · cases hnone
  · exact hmem

/-- **The attempts at one page.** They keep the invariant, and end without an error only when the
device accepted a frame with the index of the page.

**Proof sketch.** Induction on the attempts. An attempt keeps the invariant (`Sound.exchange`). It
ends the loop only with an acknowledgement of the page, which was delivered, so emitted, so the
page was accepted. -/
lemma Sound.tryPage {index : ℕ} (hindex : index < total) {data : List UInt8}
    (hdata : pageData image stamp index total = some data) (retries : ℕ)
    {st : Session × List (List Move)} (h : Sound image stamp total st.1) :
    Sound image stamp total (tryPage index data retries st).2.1 ∧
      st.1.accepted ⊆ (Bootloader.tryPage index data retries st).2.1.accepted ∧
      ((Bootloader.tryPage index data retries st).1 = .ok () →
        ∃ d ∈ (Bootloader.tryPage index data retries st).2.1.accepted, frameIndex d = index) := by
  induction retries generalizing st with
  | zero => exact ⟨h, fun _ hd => hd, fun hok => by cases hok⟩
  | succ retries ih =>
    obtain ⟨s, schedule⟩ := st
    obtain ⟨hsound, hmono⟩ := h.exchange hindex hdata (schedule.headD [])
    simp only [Bootloader.tryPage]
    generalize hs' : Bootloader.exchange s data (schedule.headD []) = s' at hsound hmono
    have hclear : Sound image stamp total { s' with inbox := [] } :=
      ⟨hsound.sent, hsound.accepted, hsound.emitted, fun m hm => by cases hm⟩
    have hretry := @ih ({ s' with inbox := [] }, schedule.tail) hclear
    cases build msgProgFw data with
    | none => exact ⟨h, fun _ hd => hd, fun hok => by cases hok⟩
    | some _ =>
      simp only
      cases hlast : lastReply s'.inbox with
      | none => exact ⟨hretry.1, fun _ hd => hretry.2.1 (hmono hd), hretry.2.2⟩
      | some reply =>
        simp only
        cases hunpack : unpackIHH reply with
        | none => exact ⟨hclear, hmono, fun hok => by cases hok⟩
        | some fields =>
          obtain ⟨replyStamp, pageIndex, err⟩ := fields
          simp only
          split_ifs with hack
          · obtain ⟨rfl, rfl⟩ := hack
            refine ⟨hclear, hmono, fun _ => ?_⟩
            obtain ⟨m, hm, htype, rfl⟩ := lastReply_mem hlast
            exact hsound.emitted m (hsound.inbox m hm) pageIndex
              (by rw [acknowledges, if_pos htype, hunpack]; rfl)
          · exact ⟨hretry.1, fun _ hd => hretry.2.1 (hmono hd), hretry.2.2⟩

/-- **The loop over the pages**, from `index` on.

**Proof sketch.** Induction on the pages that remain. A page that is acknowledged has been
accepted (`Sound.tryPage`) and stays so through the pages after it. -/
lemma Sound.programFrom (retries remaining : ℕ) {index written : ℕ}
    (hindex : index + remaining = total) {st : Session × List (List Move)}
    (h : Sound image stamp total st.1) :
    Sound image stamp total
        (programFrom image stamp total retries remaining index written st).2 ∧
      st.1.accepted ⊆
        (Bootloader.programFrom image stamp total retries remaining index written st).2.accepted ∧
      ∀ n, (Bootloader.programFrom image stamp total retries remaining index written st).1 = .ok n →
        n = written + remaining ∧ ∀ i, index ≤ i → i < total →
          ∃ d ∈ (Bootloader.programFrom image stamp total retries remaining index written
            st).2.accepted, frameIndex d = i := by
  induction remaining generalizing index written st with
  | zero =>
    refine ⟨h, fun _ hd => hd, fun n hn => ?_⟩
    obtain rfl : written = n := Except.ok.inj hn
    exact ⟨rfl, fun i hi hlt => by omega⟩
  | succ remaining ih =>
    simp only [Bootloader.programFrom]
    cases hdata : pageData image stamp index total with
    | none => exact ⟨h, fun _ hd => hd, fun n hn => by cases hn⟩
    | some data =>
      simp only
      obtain ⟨hsound, hmono, hpage⟩ :=
        h.tryPage (show index < total by omega) hdata retries
      generalize Bootloader.tryPage index data retries st = result at hsound hmono hpage
      obtain ⟨r, st'⟩ := result
      cases r with
      | error e => exact ⟨hsound, hmono, fun n hn => by cases hn⟩
      | ok _ =>
        obtain ⟨hsound', hmono', hrest⟩ :=
          @ih (index + 1) (written + 1) (by omega) st' hsound
        refine ⟨hsound', fun _ hd => hmono' (hmono hd), fun n hn => ?_⟩
        obtain ⟨hn', hpages⟩ := hrest n hn
        refine ⟨by omega, fun i hi hlt => ?_⟩
        rcases Nat.eq_or_lt_of_le hi with rfl | hlater
        · obtain ⟨d, hd, hindex'⟩ := hpage rfl
          exact ⟨d, hmono' hd, hindex'⟩
        · exact hpages i hlater hlt

end Session

/-- What a page frame of the image carries. -/
lemma pageData_fields {image : List UInt8} {stamp : UInt32} {index total : ℕ} {data : List UInt8}
    (h : pageData image stamp index total = some data) :
    frameIndex data = index ∧ framePage data = page image index := by
  rw [pageData, Option.map_eq_some_iff] at h
  obtain ⟨header, hheader, rfl⟩ := h
  rw [packIHH] at hheader
  split_ifs at hheader with hfits
  obtain rfl := Option.some.inj hheader
  constructor
  · rw [frameIndex]
    simp only [List.append_assoc]
    rw [slice_field _ _ _ (length_toLe 4 _).symm (by rw [length_toLe, length_toLe]),
      ofLe_toLe 2 hfits.1]
  · have hlen : (toLe 4 stamp.toNat ++ toLe 2 index ++ toLe 2 total ++ [0, 0, 0, 0]).length = 12 := by
      simp only [List.length_append, length_toLe, List.length_cons, List.length_nil]
    rw [framePage, ← hlen, List.drop_left]

/-- **Programming is sound** under every schedule: it raises, or it returns the number of pages of
the image and the device accepted each of them, with the index and the bytes of that page.

**Proof sketch.** A page is counted only after a reply without error that carries its index. Such
a reply was emitted, so a frame with that index was accepted, so it was sent; and the only frames
sent with an index carry the page of that index. -/
theorem program_sound (image : List UInt8) (stamp : UInt32) (schedule : List (List Move)) :
    let result := program image stamp none 3 Session.fresh schedule
    (∃ e, result.1 = .error e) ∨
      ∃ n, result.1 = .ok n ∧ n = image.length ⌈/⌉ 256 ∧ ∀ i < n, ∃ data ∈ result.2.accepted,
        frameIndex data = i ∧ framePage data = slice image (256 * i) (256 * (i + 1)) := by
  intro result
  have hfresh : Sound image stamp ((image.length + pageSize - 1) / pageSize) Session.fresh :=
    { sent := List.forall_mem_nil _
      accepted := List.forall_mem_nil _
      emitted := List.forall_mem_nil _
      inbox := List.forall_mem_nil _ }
  obtain ⟨hsound, -, hok⟩ :=
    @Sound.programFrom image stamp _ 3 ((image.length + pageSize - 1) / pageSize) 0 0
      (Nat.zero_add _) (Session.fresh, schedule) hfresh
  cases hresult : result.1 with
  | error e => exact Or.inl ⟨e, rfl⟩
  | ok n =>
    refine Or.inr ⟨n, rfl, ?_⟩
    obtain ⟨hn, hpages⟩ := hok n hresult
    rw [Nat.zero_add] at hn
    refine ⟨?_, fun i hi => ?_⟩
    · rw [hn, Nat.ceilDiv_eq_add_pred_div, pageSize]
    · obtain ⟨data, hdata, hindex⟩ := hpages i (Nat.zero_le i) (hn ▸ hi)
      obtain ⟨j, -, hj⟩ := hsound.sent data (hsound.accepted data hdata)
      obtain ⟨hj₁, hj₂⟩ := pageData_fields hj
      obtain rfl : j = i := hj₁.symm.trans hindex
      refine ⟨data, hdata, hindex, ?_⟩
      rw [hj₂, page, pageSize, Nat.mul_comm j, Nat.mul_comm (j + 1)]

/-- One page: the first reply is an error, the second is late. -/
example :
    (program [1, 2, 3] 1 none 3 .fresh
      [[.emit ⟨msgProgFwResp, [0, 0, 0, 0, 0, 0, 1, 0]⟩, .deliver 0],
        [.accept 0, .emit ⟨msgProgFwResp, [0, 0, 0, 0, 0, 0, 0, 0]⟩],
        [.deliver 0, .deliver 1]]).1.toOption = some 1 := by
  decide +kernel

/-! ## A link that loses nothing -/

/-- The reply without error to a page. -/
def acknowledgement (index : ℕ) : Msg :=
  ⟨msgProgFwResp, toLe 4 0 ++ (toLe 2 index ++ toLe 2 0)⟩

/-- The moves of a link that loses nothing: the frame that has just been sent is accepted, and the
reply to it arrives. -/
def promptMoves (index : ℕ) : List Move :=
  [.accept index, .emit (acknowledgement index), .deliver index]

/-- What the host reads in such a reply. -/
lemma unpackIHH_acknowledgement {index : ℕ} (h : index < 65536) :
    unpackIHH (acknowledgement index).data = some (0, index, 0) := by
  have hstamp : slice (acknowledgement index).data 0 4 = toLe 4 0 :=
    slice_field [] (toLe 4 0) (toLe 2 index ++ toLe 2 0) rfl (by simp)
  have hindex : slice (acknowledgement index).data 4 6 = toLe 2 index :=
    slice_field (toLe 4 0) _ _ (by simp) (by simp)
  have herr : slice (acknowledgement index).data 6 8 = toLe 2 0 := by
    rw [acknowledgement, ← List.append_assoc, ← List.append_nil (toLe 2 0)]
    exact slice_field _ _ _ (by simp) (by simp)
  rw [unpackIHH, if_neg (by simp [acknowledgement]), hstamp, hindex, herr,
    ofLe_toLe 4 (by decide), ofLe_toLe 2 h, ofLe_toLe 2 (by decide)]

/-- A page frame that can be packed has a frame on the wire. -/
lemma build_pageData {image : List UInt8} {stamp : UInt32} {index total : ℕ} {data : List UInt8}
    (h : pageData image stamp index total = some data) : ∃ f, build msgProgFw data = some f := by
  have hlength : data.length ≤ 268 := by
    rw [pageData, Option.map_eq_some_iff] at h
    obtain ⟨header, hheader, rfl⟩ := h
    rw [packIHH] at hheader
    split_ifs at hheader
    obtain rfl := Option.some.inj hheader
    have hpage : (page image index).length ≤ 256 := by
      rw [page, length_slice, pageSize]
      omega
    simp only [List.length_append, length_toLe, List.length_cons, List.length_nil]
    omega
  have hfits : Msg.Fits ⟨msgProgFw, data⟩ :=
    ⟨show msgProgFw < 65536 by decide, hlength.trans (by decide)⟩
  exact ⟨_, (build_eq ⟨msgProgFw, data⟩).trans (if_pos hfits)⟩

/-- What a session with such a link is before the page `index`: as many frames sent and as many
replies emitted, and nothing left to look at. -/
structure Prompt (index : ℕ) (s : Session) : Prop where
  sent : s.sent.length = index
  emitted : s.emitted.length = index
  inbox : s.inbox = []

/-- The first attempt at a page succeeds. -/
lemma Prompt.tryPage {image : List UInt8} {stamp : UInt32} {index total : ℕ} {s : Session}
    (h : Prompt index s) {data : List UInt8} (hdata : pageData image stamp index total = some data)
    (hindex : index < 65536) (retries : ℕ) (schedule : List (List Move)) :
    ∃ s', Prompt (index + 1) s' ∧
      tryPage index data (retries + 1) (s, promptMoves index :: schedule) =
        (.ok (), s', schedule) := by
  obtain ⟨f, hbuild⟩ := build_pageData hdata
  have hframe : frameIndex data = index := (pageData_fields hdata).1
  have hack : acknowledges (acknowledgement index) = some index := by
    rw [acknowledges, if_pos (show (acknowledgement index).msgType = msgProgFwResp from rfl),
      unpackIHH_acknowledgement hindex]
    rfl
  have hexchange : exchange s data (promptMoves index) =
      ⟨s.sent ++ [data], s.accepted ++ [data], s.emitted ++ [acknowledgement index],
        [acknowledgement index]⟩ := by
    have hsent : (s.sent ++ [data])[index]? = some data := by
      rw [← h.sent, List.getElem?_concat_length]
    have hemitted : (s.emitted ++ [acknowledgement index])[index]? =
        some (acknowledgement index) := by
      rw [← h.emitted, List.getElem?_concat_length]
    simp [exchange, promptMoves, step, mayEmit, hack, hframe, hsent, hemitted, h.inbox]
  refine ⟨⟨s.sent ++ [data], s.accepted ++ [data], s.emitted ++ [acknowledgement index], []⟩,
    ⟨by simp [h.sent], by simp [h.emitted], rfl⟩, ?_⟩
  have hlast : lastReply [acknowledgement index] = some (acknowledgement index).data := rfl
  simp only [Bootloader.tryPage, hbuild, List.headD_cons, hexchange, List.tail_cons, hlast,
    unpackIHH_acknowledgement hindex, and_self, if_true]

/-- The loop over the pages from `index` on succeeds. -/
lemma Prompt.programFrom {image : List UInt8} {stamp : UInt32} {total : ℕ} (htotal : total < 65536)
    (retries remaining : ℕ) {index written : ℕ} (hindex : index + remaining = total) {s : Session}
    (h : Prompt index s) :
    (programFrom image stamp total (retries + 1) remaining index written
      (s, (List.range' index remaining).map promptMoves)).1 = .ok (written + remaining) := by
  induction remaining generalizing index written s with
  | zero => rfl
  | succ remaining ih =>
    have hdata : pageData image stamp index total = some
        (toLe 4 stamp.toNat ++ toLe 2 index ++ toLe 2 total ++ [0, 0, 0, 0] ++ page image index) := by
      rw [pageData, packIHH, if_pos ⟨by omega, htotal⟩]
      rfl
    obtain ⟨s', hs', htry⟩ := h.tryPage hdata (by omega) retries
      ((List.range' (index + 1) remaining).map promptMoves)
    rw [Bootloader.programFrom, hdata, List.range'_succ, List.map_cons]
    simp only [htry]
    rw [ih (by omega) hs']
    congr 1
    omega

/-- **When nothing is lost** programming succeeds, at the first attempt at every page, for every
image whose pages can be counted. -/
theorem program_of_prompt (image : List UInt8) (stamp : UInt32)
    (hpages : image.length ⌈/⌉ 256 < 65536) :
    (program image stamp none 3 Session.fresh
      ((List.range (image.length ⌈/⌉ 256)).map promptMoves)).1 = .ok (image.length ⌈/⌉ 256) := by
  rw [Nat.ceilDiv_eq_add_pred_div] at hpages ⊢
  rw [List.range_eq_range']
  have hfresh : Prompt 0 Session.fresh := ⟨rfl, rfl, rfl⟩
  have hrun := @Prompt.programFrom image stamp _ hpages 2 _ 0 0 (Nat.zero_add _) _ hfresh
  rw [Nat.zero_add] at hrun
  exact hrun

end Uvk5.Serial.Bootloader
