import Uvk5.Lib.Run
import Uvk5.Serial.Radio

set_option relaxedAutoImplicit false
set_option autoImplicit false

/-!
# What a slot write that returns says

`Radio.write` sends a slot in chunks, each until it is acknowledged. An acknowledgement carries no
offset: one that is late, because its chunk was sent again, is taken for that of the next chunk. A
write that returns has every chunk accepted if no such acknowledgement is about.

## Main definitions

* `Serial.Covers` — the device accepted every chunk of the blob, and nothing else of this write.
* `Serial.Undisturbed` — no slot write and no acknowledgement of one is on the link when a chunk is
  sent for the first time.

## Main results

* `Serial.write_covers` — an undisturbed write that returns covers the blob.
* `Serial.late_ack_not_covers` — one that a late acknowledgement disturbs need not.
-/

namespace Uvk5.Serial

open Proc Bytes

variable {dev : Device}

/-! ## Chunks -/

/-- The chunks, one behind the other, are the blob. -/
lemma flatMap_piece_range (blob : List UInt8) (n : ℕ) :
    (List.range n).flatMap (piece blob) = blob.take (n * chunk) := by
  induction n with
  | zero => simp
  | succ n ih =>
    rw [List.range_succ, List.flatMap_append, ih, List.flatMap_singleton, Nat.succ_mul,
      List.take_add, piece, slice, Nat.add_sub_cancel_left]

/-- **The chunks make up the blob.** -/
theorem flatMap_piece_chunks (blob : List UInt8) : (chunks blob).flatMap (piece blob) = blob := by
  rw [chunks, flatMap_piece_range]
  apply List.take_of_length_le
  rw [chunk]
  omega

/-! ## Accepted chunks -/

section Accepted

variable (own : ℕ) (timestamp : UInt32) (slot offset : ℤ) (blob : List UInt8)

/-- The device accepted the message for the `k`-th chunk, sent as the `own`-th command or a later
one. -/
def Accepted (k : ℕ) (log : List (Processed dev)) : Prop :=
  ∃ e ∈ log, own ≤ e.command.seq ∧ chunkMsg timestamp slot offset blob k = some e.command.msg ∧
    e.accepted = true

/-- The device accepted every chunk of the blob, and of the commands from the `own`-th on no other
slot write. -/
structure Covers (log : List (Processed dev)) : Prop where
  whole : (chunks blob).flatMap (piece blob) = blob
  each : ∀ k ∈ chunks blob, Accepted own timestamp slot offset blob k log
  only : ∀ e ∈ log, own ≤ e.command.seq → e.command.msg.msgType = msgSlotWrite →
    ∃ k ∈ chunks blob, chunkMsg timestamp slot offset blob k = some e.command.msg

/-- Whenever a chunk is sent for the first time, no slot write is on its way and no acknowledgement
of one is on its way or waiting. -/
def Undisturbed (h : Host dev) : Prop :=
  Run.AllSteps (fun h k => (writeChunk timestamp slot offset blob k h).2)
    (fun h k => Quiet msgSlotWrite (renew timestamp k h).2.link) h (chunks blob)

instance (h : Host dev) : Decidable (Undisturbed timestamp slot offset blob h) :=
  Run.AllSteps.decidable _ _ h (chunks blob)

end Accepted

section Write

variable {own : ℕ} {timestamp : UInt32} {slot offset : ℤ} {blob : List UInt8}

/-- A chunk that was accepted stays so. -/
lemma accepted_stable (k : ℕ) :
    Stable (fun w : Link dev => Accepted own timestamp slot offset blob k w.log) fun _ => True :=
  log_stable fun _ _ ⟨e, he, hrest⟩ => ⟨e, List.mem_append_left _ he, hrest⟩

/-- A chunk that goes through on a link without other slot writes is accepted.

**Proof sketch.** Its message is then the only slot write on the link, so the acknowledgement
answers it (`Quiet.command_eq_ok`); and the device confirms only what it carries out. -/
lemma sendChunk_accepted {k : ℕ} {h h' : Host dev} (hquiet : Quiet msgSlotWrite h.link)
    (hown : own ≤ h.link.sends) (hok : sendChunk timestamp slot offset blob k h = (.ok (), h')) :
    Accepted own timestamp slot offset blob k h'.link.log := by
  obtain ⟨s, _, hget, hok⟩ := bind_eq_ok.mp hok
  obtain ⟨hslot, rfl⟩ := getOrRaise_eq_ok.mp hget
  obtain ⟨_, _, hget, hok⟩ := bind_eq_ok.mp hok
  obtain ⟨hat, rfl⟩ := getOrRaise_eq_ok.mp hget
  obtain ⟨ack, h₁, hcommand, hok⟩ := bind_eq_ok.mp hok
  cases ack with
  | none => cases hok
  | some ack =>
    obtain ⟨status, _, hget, hok⟩ := bind_eq_ok.mp hok
    obtain ⟨hstatus, rfl⟩ := getOrRaise_eq_ok.mp hget
    split at hok
    · cases hok
    · next hzero =>
      obtain rfl : h₁ = h' := congrArg Prod.snd hok
      obtain ⟨e, he, hseq, hmsg, hreply⟩ := hquiet.command_eq_ok (by decide) hcommand
      refine ⟨e, he, Nat.le_trans hown hseq, hmsg ▸ chunkMsg_eq hslot hat, ?_⟩
      rw [Processed.accepted, hmsg]
      exact dev.confirms _ _ _ hreply rfl (hstatus.trans (congrArg some (not_not.mp hzero)))

/-- One turn of the loop. -/
lemma writeChunk_accepted {k : ℕ} {h h' : Host dev}
    (hquiet : Quiet msgSlotWrite (renew timestamp k h).2.link) (hown : own ≤ h.link.sends)
    (hok : writeChunk timestamp slot offset blob k h = (.ok (), h')) :
    Accepted own timestamp slot offset blob k h'.link.log := by
  obtain ⟨_, h₁, hrenew, hok⟩ := bind_eq_ok.mp hok
  rw [hrenew] at hquiet
  exact sendChunk_accepted hquiet ((renew_keeps (sends_stable own) trivial k).run hrenew hown) hok

/-- The whole loop: each chunk is accepted in its turn, and stays in the log. -/
lemma forEach_accepted {ks : List ℕ} {h h' : Host dev}
    (hrun : Run.AllSteps (fun h k => (writeChunk timestamp slot offset blob k h).2)
      (fun h k => Quiet msgSlotWrite (renew timestamp k h).2.link) h ks)
    (hown : own ≤ h.link.sends)
    (hok : forEach (writeChunk timestamp slot offset blob) ks h = (.ok (), h')) :
    ∀ k ∈ ks, Accepted own timestamp slot offset blob k h'.link.log := by
  induction ks generalizing h with
  | nil => exact List.forall_mem_nil _
  | cons k ks ih =>
    obtain ⟨hfirst, hrest⟩ := forEach_cons_eq_ok.mp hok
    have hown' := (writeChunk_keeps (sends_stable own) (fun _ _ => trivial) trivial).run hfirst hown
    refine List.forall_mem_cons.mpr ⟨?_, ih hrun.2 hown' hrest⟩
    have haccepted := writeChunk_accepted hrun.1 hown hfirst
    have hkeeps : Keeps (fun h' : Host dev => Accepted own timestamp slot offset blob k h'.link.log)
        (forEach (writeChunk timestamp slot offset blob) ks) :=
      Keeps.forEach fun k' _ =>
        writeChunk_keeps (accepted_stable k) (fun _ _ => trivial) trivial
    exact hkeeps.run hrest haccepted

/-- The slot writes sent are those of the chunks. -/
lemma write_only {h : Host dev} (hh : SentFrom own (fun m => m.msgType = msgSlotWrite →
      ∃ k ∈ chunks blob, chunkMsg timestamp slot offset blob k = some m) h.link) :
    ∀ e ∈ (write timestamp slot offset blob h).2.link.log, own ≤ e.command.seq →
      e.command.msg.msgType = msgSlotWrite →
      ∃ k ∈ chunks blob, chunkMsg timestamp slot offset blob k = some e.command.msg := by
  have hsent := write_keeps (SentFrom.stable own _) (fun k hk m hm _ => ⟨k, hk, hm⟩)
    (fun htype => absurd htype (handshake_msgType_ne timestamp (by decide))) h hh
  intro e he
  exact hsent e.command (List.mem_append_left _ (List.mem_map_of_mem he))

end Write

/-- **Slot writes without late acknowledgements.** On a link that may lose and delay anything, a
write that returns, and in which no chunk is sent for the first time while a slot write or an
acknowledgement of one is about, has all its chunks accepted.

**Proof sketch.** Induction on the chunks, with `forEach_accepted`. When a chunk is sent for the
first time no acknowledgement is about, so the one that ends its attempts is its own, and the
device gave it when it had accepted the chunk. -/
theorem write_covers (h : Host dev) {device : dev.State} {commands replies buffered : List Msg}
    (hstart : h.link = Link.start device commands replies buffered) (timestamp : UInt32)
    (slot offset : ℤ) (blob : List UInt8) (hrun : Undisturbed timestamp slot offset blob h)
    (hok : (write timestamp slot offset blob h).1 = .ok ()) :
    Covers commands.length timestamp slot offset blob
      (write timestamp slot offset blob h).2.link.log where
  whole := flatMap_piece_chunks blob
  each := by
    have hown : commands.length ≤ h.link.sends := by
      rw [hstart]
      exact Nat.le_refl _
    exact forEach_accepted hrun hown (Prod.ext hok rfl)
  only := by
    apply write_only
    rw [hstart]
    exact (ordered_start device commands replies buffered).sentFrom _

/-- A device in the session with timestamp 1, and nothing on the link to it. -/
def idleLink : Link slotDevice := Link.start ⟨1, [], []⟩ [] [] []

/-- A blob of two chunks. -/
def twoChunks : List UInt8 := List.replicate 201 0

/-- Two chunks: the first is lost and sent again after a handshake. -/
def promptAcks : List (List (List Move)) :=
  [[[.dropCommand 0]], [[.handle, .arrive]], [[], [.handle, .arrive]], [[.handle], [.arrive]]]

/-- Two chunks, of which the first is lost once, are both accepted. -/
theorem write_covers_twoChunks :
    Covers 0 1 2 0 twoChunks
      (write 1 2 0 twoChunks ⟨idleLink, promptAcks⟩).2.link.log :=
  write_covers ⟨idleLink, promptAcks⟩ rfl 1 2 0 twoChunks (by decide +kernel) (by decide +kernel)

/-- Two chunks: the first is answered late, the six handshakes that follow are lost, and it is sent
again; then the second is lost. -/
def lateAck : List (List (List Move)) :=
  [[[.handle]]] ++ List.replicate 6 [[.dropCommand 0]] ++
    [[[.handle, .arrive]], [[.dropCommand 0, .arrive]]]

/-- **A late acknowledgement** of the first chunk is taken for that of the second: the write
returns, and the device never saw the second chunk. -/
theorem late_ack_not_covers :
    (write 1 2 0 twoChunks ⟨idleLink, lateAck⟩).1 = .ok () ∧
      ¬ Covers 0 1 2 0 twoChunks
        (write 1 2 0 twoChunks ⟨idleLink, lateAck⟩).2.link.log := by
  refine ⟨by decide +kernel, fun hcovers => ?_⟩
  obtain ⟨e, he, -, hmsg, -⟩ := hcovers.each 1 (by decide +kernel)
  have hnever : ∀ e ∈ (write 1 2 0 twoChunks ⟨idleLink, lateAck⟩).2.link.log,
      chunkMsg 1 2 0 twoChunks 1 ≠ some e.command.msg := by
    decide +kernel
  exact hnever e he hmsg

end Uvk5.Serial
