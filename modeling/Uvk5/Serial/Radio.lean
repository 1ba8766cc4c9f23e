import Mathlib.Algebra.Group.Int.Defs
import Mathlib.Data.Int.Notation
import Uvk5.Lib.Proc
import Uvk5.Serial.Link
import Uvk5.Slots.Header

set_option relaxedAutoImplicit false
set_option autoImplicit false

/-!
# The slot commands from the host (`tools/uvk5_slots_serial.py`)

`Radio` sends a command and waits for the acknowledgement of its type, a few times over, with a
fresh session handshake in between. Writing a slot, and installing an image in it, are built on
that.

## Main definitions

* `Serial.Host` — the link, and what will happen on it during each wait to come.
* `Serial.session`, `Serial.command`, `Serial.erase`, `Serial.write`, `Serial.validate` — the
  methods of `Radio`; `Serial.install` — `install`.

## Main results

* `Serial.command_keeps`, `Serial.write_keeps` — what the procedures keep of the link.
* `Serial.command_answered`, `Serial.Quiet.command_eq_ok` — a command that is the only one of its
  type on the link returns only an acknowledgement of its own.

## Design

The schedule holds the polls of every wait in turn, so that a run is a function of it; a host that
runs out of schedule waits in vain. The time a wait takes is not modelled: it ends when the
acknowledgement is there or its polls are over.
-/

namespace Uvk5.Serial

open Bytes

/-- `MSG_SLOT_ERASE`. -/
def msgSlotErase : ℕ := 0x0722
/-- `MSG_SLOT_WRITE`. -/
def msgSlotWrite : ℕ := 0x0724
/-- `MSG_SLOT_VALIDATE`. -/
def msgSlotValidate : ℕ := 0x0726
/-- `CHUNK`. -/
def chunk : ℕ := 200

/-- What the methods of `Radio` raise. -/
inductive RadioError where
  /-- `SlotError`: no handshake was answered. -/
  | noHandshake
  /-- `SlotError`: a command got no reply. -/
  | noReply (msgId : ℕ)
  /-- `SlotError`: a write got no reply, at this offset. -/
  | noWriteReply (offset : ℤ)
  /-- `SlotError`: a write was refused, at this offset. -/
  | writeStatus (offset : ℤ) (status : UInt8)
  /-- `SlotError`: the erase was refused. -/
  | eraseStatus (status : UInt8)
  /-- `SlotError`: the validation failed. -/
  | validateStatus (status : UInt8)
  /-- `SlotError`: the CRC of the device is not that of the host. -/
  | crcMismatch (device host : UInt32)
  /-- `ValueError`. -/
  | valueError
  /-- `struct.error`. -/
  | structError
  /-- `IndexError`. -/
  | indexError
  deriving DecidableEq

/-- The exceptions that are a `SlotError`. -/
def RadioError.isSlotError : RadioError → Bool
  | .valueError | .structError | .indexError => false
  | _ => true

/-- The link, and the polls of each wait to come. -/
structure Host (dev : Device) where
  /-- The link. -/
  link : Link dev
  /-- For each wait, the events before each of its polls. -/
  schedule : List (List (List Move))

variable {dev : Device}

/-- A method of `Radio`. -/
abbrev HostProc (dev : Device) (α : Type) : Type := Proc (Host dev) RadioError α

open Proc

/-! ## The methods -/

/-- Send a message and wait for one of type `want`: `sock.sendall`, `_pump`, `replies.get`. -/
def exchange (m : Msg) (want : ℕ) : HostProc dev (Option (List UInt8)) := fun h =>
  let r := (h.link.send m).pump want (h.schedule.headD [])
  (.ok (r.1 want), ⟨r.2, h.schedule.tail⟩)

/-- The session handshake. -/
def handshake (timestamp : UInt32) : Msg := ⟨0x0514, toLe 4 timestamp.toNat ++ [0, 0, 0, 0]⟩

/-- A handshake is of no other type. -/
lemma handshake_msgType_ne (timestamp : UInt32) {id : ℕ} (hid : id ≠ 0x0514) :
    (handshake timestamp).msgType ≠ id := hid.symm

/-- The attempts of `session`. -/
def sessionLoop (timestamp : UInt32) : ℕ → HostProc dev (Option (List UInt8))
  | 0 => pure none
  | attempts + 1 => do
    match ← exchange (handshake timestamp) 0x0515 with
    | some ack => pure (some ack)
    | none => sessionLoop timestamp attempts

/-- `Radio.session`: the firmware version, up to its first NUL. -/
def session (timestamp : UInt32) : HostProc dev (List UInt8) := do
  match ← sessionLoop timestamp 6 with
  | none => raise .noHandshake
  | some ack => pure ((ack.take 16).takeWhile (· ≠ 0))

/-- The attempts of `_command`, with a handshake between them whose failure is ignored. -/
def commandLoop (timestamp : UInt32) (m : Msg) (ackId : ℕ) : ℕ → HostProc dev (Option (List UInt8))
  | 0 => pure none
  | tries + 1 => do
    match ← exchange m ackId with
    | some ack => pure (some ack)
    | none =>
      if 0 < tries then
        let _ ← tryExcept RadioError.isSlotError (session timestamp) (pure [])
        commandLoop timestamp m ackId tries
      else commandLoop timestamp m ackId tries

/-- `Radio._command`. -/
def command (timestamp : UInt32) (msgId : ℕ) (data : List UInt8) (ackId : ℕ) :
    HostProc dev (Option (List UInt8)) := do
  let _ ← getOrRaise .structError (build msgId data)
  commandLoop timestamp ⟨msgId, data⟩ ackId 4

/-- `bytes([v])`, which raises for a number that is not a byte. -/
def packByte (v : ℤ) : Option UInt8 :=
  if 0 ≤ v ∧ v < 256 then some (UInt8.ofNat v.toNat) else none

/-- `struct.pack("<I", v)`, which raises for a number that does not fit. -/
def packI (v : ℤ) : Option (List UInt8) :=
  if 0 ≤ v ∧ v < 2 ^ 32 then some (toLe 4 v.toNat) else none

/-- `Radio.erase`: the status. -/
def erase (timestamp : UInt32) (slot : ℤ) : HostProc dev UInt8 := do
  let slot ← getOrRaise .valueError (packByte slot)
  let data := [slot, 0] ++ toLe 4 timestamp.toNat
  match ← command timestamp msgSlotErase data (msgSlotErase + 1) with
  | none => raise (.noReply msgSlotErase)
  | some ack => getOrRaise .indexError ack[1]?

/-- `blob[start:start + CHUNK]` for the `k`-th chunk. -/
def piece (blob : List UInt8) (k : ℕ) : List UInt8 := slice blob (k * chunk) (k * chunk + chunk)

/-- The data of a slot write. -/
def writeData (timestamp : UInt32) (slot : UInt8) (offset : ℕ) (piece : List UInt8) : List UInt8 :=
  [slot, 0] ++ toLe 4 offset ++ toLe 2 piece.length ++ toLe 4 timestamp.toNat ++ piece

/-- The session is renewed before every 25th chunk. -/
def renew (timestamp : UInt32) (k : ℕ) : HostProc dev Unit :=
  if 0 < k ∧ k % 25 = 0 then do
    let _ ← session timestamp
    pure ()
  else pure ()

/-- The command for the `k`-th chunk. -/
def sendChunk (timestamp : UInt32) (slot offset : ℤ) (blob : List UInt8) (k : ℕ) :
    HostProc dev Unit := do
  let at' := offset + (k * chunk : ℕ)
  let slot ← getOrRaise .valueError (packByte slot)
  let _ ← getOrRaise .structError (packI at')
  let data := writeData timestamp slot at'.toNat (piece blob k)
  match ← command timestamp msgSlotWrite data (msgSlotWrite + 1) with
  | none => raise (.noWriteReply at')
  | some ack =>
    let status ← getOrRaise .indexError ack[1]?
    if status ≠ 0 then raise (.writeStatus at' status) else pure ()

/-- One turn of the loop in `Radio.write`. -/
def writeChunk (timestamp : UInt32) (slot offset : ℤ) (blob : List UInt8) (k : ℕ) :
    HostProc dev Unit := do
  renew timestamp k
  sendChunk timestamp slot offset blob k

/-- The chunks of a blob: `range(0, len(blob), CHUNK)`. -/
def chunks (blob : List UInt8) : List ℕ := List.range ((blob.length + chunk - 1) / chunk)

/-- `Radio.write`. -/
def write (timestamp : UInt32) (slot offset : ℤ) (blob : List UInt8) : HostProc dev Unit :=
  forEach (writeChunk timestamp slot offset blob) (chunks blob)

/-- `Radio.validate`: the status and the CRC. -/
def validate (timestamp : UInt32) (slot : ℤ) : HostProc dev (UInt8 × UInt32) := do
  let slot ← getOrRaise .valueError (packByte slot)
  match ← command timestamp msgSlotValidate [slot] (msgSlotValidate + 1) with
  | none => raise (.noReply msgSlotValidate)
  | some ack =>
    if ack.length < 4 then raise .structError
    else do
      let crc := UInt32.ofNat (ofLe (slice ack 0 4))
      let status ← getOrRaise .indexError ack[5]?
      pure (status, crc)

/-- `install`. -/
def install (timestamp : UInt32) (slot : ℤ) (image : List UInt8) (name version : String) :
    HostProc dev UInt32 := do
  let header ← getOrRaise .valueError (Slots.buildHeader image name version)
  let status ← erase timestamp slot
  if status ≠ 0 then raise (.eraseStatus status)
  else do
    write timestamp slot 0 header
    write timestamp slot Slots.slotImageOffset image
    let (status, crc) ← validate timestamp slot
    if status ≠ 0 then raise (.validateStatus status)
    else if crc ≠ Slots.crc32 image then raise (.crcMismatch crc (Slots.crc32 image))
    else pure crc

/-- The message for the `k`-th chunk, if its fields can be packed. -/
def chunkMsg (timestamp : UInt32) (slot offset : ℤ) (blob : List UInt8) (k : ℕ) : Option Msg := do
  let at' := offset + (k * chunk : ℕ)
  let slot ← packByte slot
  let _ ← packI at'
  some ⟨msgSlotWrite, writeData timestamp slot at'.toNat (piece blob k)⟩

/-- A message for a chunk is a slot write. -/
lemma chunkMsg_msgType {timestamp : UInt32} {slot offset : ℤ} {blob : List UInt8} {k : ℕ} {m : Msg}
    (h : chunkMsg timestamp slot offset blob k = some m) : m.msgType = msgSlotWrite := by
  simp only [chunkMsg, Option.bind_eq_bind, Option.bind_eq_some_iff, Option.some.injEq] at h
  obtain ⟨_, -, _, -, rfl⟩ := h
  rfl

/-- The message for a chunk whose fields can be packed. -/
lemma chunkMsg_eq {timestamp : UInt32} {slot offset : ℤ} {blob : List UInt8} {k : ℕ} {s : UInt8}
    {field : List UInt8} (hslot : packByte slot = some s)
    (hat : packI (offset + (k * chunk : ℕ)) = some field) :
    chunkMsg timestamp slot offset blob k = some ⟨msgSlotWrite,
      writeData timestamp s (offset + (k * chunk : ℕ)).toNat (piece blob k)⟩ := by
  rw [chunkMsg, hslot, hat]
  rfl

/-! ## What the methods keep -/

section Keeps

variable {I : Link dev → Prop} {Sends : Msg → Prop} (hI : Stable I Sends) {timestamp : UInt32}

include hI

/-- A message of the kind keeps what no event breaks. -/
lemma exchange_keeps {m : Msg} (hm : Sends m) (want : ℕ) :
    Keeps (fun h => I h.link) (exchange m want) :=
  fun h hh => hI.pump want (h.schedule.headD []) (hI.send h.link m hm hh)

/-- A session keeps it, if handshakes are of the kind. -/
lemma session_keeps (hm : Sends (handshake timestamp)) :
    Keeps (fun h => I h.link) (session timestamp) := by
  have hloop : ∀ attempts, Keeps (fun h => I h.link) (sessionLoop timestamp attempts) := by
    intro attempts
    induction attempts with
    | zero => exact Keeps.pure
    | succ attempts ih =>
      refine (exchange_keeps hI hm _).bind fun ack => ?_
      cases ack with
      | none => exact ih
      | some ack => exact Keeps.pure
  refine (hloop 6).bind fun ack => ?_
  cases ack with
  | none => exact Keeps.raise
  | some ack => exact Keeps.pure

/-- A command keeps what its own message and the handshake keep. -/
theorem command_keeps {msgId : ℕ} {data : List UInt8} (hm : Sends ⟨msgId, data⟩)
    (hs : Sends (handshake timestamp)) (ackId : ℕ) :
    Keeps (fun h => I h.link) (command timestamp msgId data ackId) := by
  have hloop : ∀ tries,
      Keeps (fun h => I h.link) (commandLoop timestamp ⟨msgId, data⟩ ackId tries) := by
    intro tries
    induction tries with
    | zero => exact Keeps.pure
    | succ tries ih =>
      refine (exchange_keeps hI hm _).bind fun ack => ?_
      cases ack with
      | some ack => exact Keeps.pure
      | none =>
        simp only
        split
        · exact ((session_keeps hI hs).tryExcept Keeps.pure).bind fun _ => ih
        · exact ih
  exact Keeps.getOrRaise.bind fun _ => hloop 4

/-- An erase keeps it, if erases and handshakes are of the kind. -/
lemma erase_keeps {slot : ℤ} (hm : ∀ data, Sends ⟨msgSlotErase, data⟩)
    (hs : Sends (handshake timestamp)) : Keeps (fun h => I h.link) (erase timestamp slot) := by
  refine Keeps.getOrRaise.bind fun slot => (command_keeps hI (hm _) hs _).bind fun ack => ?_
  cases ack with
  | none => exact Keeps.raise
  | some ack => exact Keeps.getOrRaise

/-- Renewing the session keeps it, if handshakes are of the kind. -/
lemma renew_keeps (hs : Sends (handshake timestamp)) (k : ℕ) :
    Keeps (fun h => I h.link) (renew timestamp k) := by
  rw [renew]
  split
  · exact (session_keeps hI hs).bind fun _ => Keeps.pure
  · exact Keeps.pure

/-- The command for a chunk keeps it, if its message and handshakes are of the kind. -/
lemma sendChunk_keeps {slot offset : ℤ} {blob : List UInt8} {k : ℕ}
    (hm : ∀ m, chunkMsg timestamp slot offset blob k = some m → Sends m)
    (hs : Sends (handshake timestamp)) :
    Keeps (fun h => I h.link) (sendChunk timestamp slot offset blob k) := by
  refine Keeps.getOrRaise_bind fun s hslot => Keeps.getOrRaise_bind fun _ hat => ?_
  have hsend := hm _ (chunkMsg_eq hslot hat)
  refine (command_keeps hI hsend hs _).bind fun ack => ?_
  cases ack with
  | none => exact Keeps.raise
  | some ack =>
    refine Keeps.getOrRaise.bind fun status => ?_
    split
    · exact Keeps.raise
    · exact Keeps.pure

/-- A turn of the loop keeps it, if the message of its chunk and handshakes are of the kind. -/
lemma writeChunk_keeps {slot offset : ℤ} {blob : List UInt8} {k : ℕ}
    (hm : ∀ m, chunkMsg timestamp slot offset blob k = some m → Sends m)
    (hs : Sends (handshake timestamp)) :
    Keeps (fun h => I h.link) (writeChunk timestamp slot offset blob k) :=
  (renew_keeps hI hs k).bind fun _ => sendChunk_keeps hI hm hs

/-- A write keeps what the messages for its chunks and the handshake keep. -/
theorem write_keeps {slot offset : ℤ} {blob : List UInt8}
    (hm : ∀ k ∈ chunks blob, ∀ m, chunkMsg timestamp slot offset blob k = some m → Sends m)
    (hs : Sends (handshake timestamp)) :
    Keeps (fun h => I h.link) (write timestamp slot offset blob) :=
  Keeps.forEach fun k hk => writeChunk_keeps hI (hm k hk) hs

/-- A validation keeps it, if validations and handshakes are of the kind. -/
lemma validate_keeps {slot : ℤ} (hm : ∀ data, Sends ⟨msgSlotValidate, data⟩)
    (hs : Sends (handshake timestamp)) :
    Keeps (fun h => I h.link) (validate timestamp slot) := by
  refine Keeps.getOrRaise.bind fun slot => (command_keeps hI (hm _) hs _).bind fun ack => ?_
  cases ack with
  | none => exact Keeps.raise
  | some ack =>
    simp only
    split
    · exact Keeps.raise
    · exact Keeps.getOrRaise.bind fun _ => Keeps.pure

end Keeps

/-! ## Acknowledgements -/

/-- The exchange of `cmd` goes on, and an acknowledgement that is returned answers it. -/
def OwnAck (s₀ : ℕ) (cmd : Msg) (r : Except RadioError (Option (List UInt8))) (h : Host dev) :
    Prop :=
  Exchange s₀ cmd h.link ∧ ∀ ack, r = .ok (some ack) → Answered s₀ cmd h.link.log ack

/-- A command that raises leaves the exchange going on. -/
lemma ownAck_error {s₀ : ℕ} {cmd : Msg} (e : RadioError) (h : Host dev)
    (hh : Exchange s₀ cmd h.link) : OwnAck s₀ cmd (.error e) h :=
  ⟨hh, fun _ hack => by cases hack⟩

/-- **A command alone of its type** returns only an acknowledgement of its own.

**Proof sketch.** While it is tried, nothing else of its type is sent; so every acknowledgement
that a wait collects answers it (`Exchange.pump_answered`), in whichever attempt it comes. -/
theorem command_answered {s₀ : ℕ} {timestamp : UInt32} {msgId : ℕ} {data : List UInt8}
    (hid : msgId ≠ 0x0514) :
    Triple (fun h : Host dev => Exchange s₀ ⟨msgId, data⟩ h.link)
      (command timestamp msgId data (msgId + 1)) (OwnAck s₀ ⟨msgId, data⟩) := by
  have hstable := @Exchange.stable dev s₀ ⟨msgId, data⟩
  have hown : (⟨msgId, data⟩ : Msg).msgType = msgId → (⟨msgId, data⟩ : Msg) = ⟨msgId, data⟩ :=
    fun _ => rfl
  have hother : (handshake timestamp).msgType = msgId → handshake timestamp = ⟨msgId, data⟩ :=
    fun htype => absurd htype (handshake_msgType_ne timestamp hid)
  have hexchange : Triple (fun h : Host dev => Exchange s₀ ⟨msgId, data⟩ h.link)
      (exchange ⟨msgId, data⟩ (msgId + 1)) (OwnAck s₀ ⟨msgId, data⟩) := by
    intro h hh
    refine ⟨exchange_keeps hstable hown _ h hh, fun ack hack => ?_⟩
    exact Exchange.pump_answered (hstable.send h.link _ hown hh) (Except.ok.inj hack)
  have hsession : Keeps (fun h : Host dev => Exchange s₀ ⟨msgId, data⟩ h.link)
      (tryExcept RadioError.isSlotError (session timestamp) (pure [])) :=
    (session_keeps hstable hother).tryExcept Keeps.pure
  have hloop : ∀ tries, Triple (fun h : Host dev => Exchange s₀ ⟨msgId, data⟩ h.link)
      (commandLoop timestamp ⟨msgId, data⟩ (msgId + 1) tries) (OwnAck s₀ ⟨msgId, data⟩) := by
    intro tries
    induction tries with
    | zero => exact Triple.pure fun h hh => ⟨hh, fun ack hack => by cases hack⟩
    | succ tries ih =>
      refine hexchange.bind (fun ack => ?_) fun e h hh => ownAck_error e h hh.1
      cases ack with
      | some ack => exact Triple.pure fun h hh => hh
      | none =>
        simp only
        split
        · have hagain := Triple.bind hsession (fun _ => ih) ownAck_error
          exact hagain.mono (fun h hh => hh.1) fun _ _ hq => hq
        · exact ih.mono (fun h hh => hh.1) fun _ _ hq => hq
  exact Triple.bind Keeps.getOrRaise (fun _ => hloop 4) ownAck_error

/-- What a command that starts on a quiet link returns. -/
lemma Quiet.command_eq_ok {h h' : Host dev} {timestamp : UInt32} {msgId : ℕ}
    {data ack : List UInt8} (hquiet : Quiet msgId h.link) (hid : msgId ≠ 0x0514)
    (hok : command timestamp msgId data (msgId + 1) h = (.ok (some ack), h')) :
    Answered h.link.sends ⟨msgId, data⟩ h'.link.log ack := by
  have hexchange : Exchange h.link.sends ⟨msgId, data⟩ h.link := Quiet.exchange hquiet
  have hown := (command_answered hid h hexchange).2 ack (congrArg Prod.fst hok)
  rwa [hok] at hown

end Uvk5.Serial
