import Uvk5.Serial.SlotWrite

set_option relaxedAutoImplicit false
set_option autoImplicit false

/-!
# Installing an image in a slot over the serial link

A write may take the late acknowledgement of one chunk for that of the next, so `install` asks the
device for the CRC of the slot at the end. That check holds for the whole installation: the
validation is sent last, commands arrive in order, and nothing else asks for one.

## Main definitions

* `Serial.Validated` — the device found the image in the slot, after its last accepted write.

## Main results

* `Serial.install_validated` — an installation that returns is validated, if none was asked for
  before.
* `Serial.stale_validation_not_validated` — an earlier validation, still on its way, may be taken
  for the last one.
-/

namespace Uvk5.Serial

open Proc Bytes

variable {dev : Device}

/-- The device validated the slot with status 0 and the CRC of the image, and accepted no slot write
of the commands from the `own`-th on after that. -/
def Validated (own : ℕ) (slot : ℤ) (image : List UInt8) (log : List (Processed dev)) : Prop :=
  ∃ s, packByte slot = some s ∧ ∃ before e after, log = before ++ e :: after ∧
    e.command.msg = ⟨msgSlotValidate, [s]⟩ ∧ dev.check e.before s = (0, Slots.crc32 image) ∧
    ∀ e' ∈ after, own ≤ e'.command.seq → e'.command.msg.msgType = msgSlotWrite →
      e'.accepted = false

section Validate

variable {timestamp : UInt32} {slot : ℤ} {h h' : Host dev}

/-- The reply to a validation holds what the device found. -/
lemma validation_fields {d : dev.State} {s : UInt8} {ack : List UInt8} {status : UInt8}
    (hreply : (dev.handle d ⟨msgSlotValidate, [s]⟩).2 = some ⟨msgSlotValidate + 1, ack⟩)
    (hstatus : ack[5]? = some status) :
    dev.check d s = (status, UInt32.ofNat (ofLe (slice ack 0 4))) := by
  have hsame := (dev.validates d s).symm.trans hreply
  rw [Option.some.injEq, Msg.mk.injEq] at hsame
  obtain ⟨-, rfl⟩ := hsame
  have hcrc : slice (toLe 4 (dev.check d s).2.toNat ++ [s, (dev.check d s).1]) 0 4 =
      toLe 4 (dev.check d s).2.toNat := by
    simpa using slice_field [] (toLe 4 (dev.check d s).2.toNat) [s, (dev.check d s).1]
      (i := 0) (j := 4) rfl (by simp)
  rw [hcrc, ofLe_toLe 4 (UInt32.toNat_lt _), UInt32.ofNat_toNat]
  have hfound : status = (dev.check d s).1 := by
    simpa [toLe] using hstatus.symm
  rw [hfound]

/-- **A validation** on a link without others returns what the device found after it was asked. -/
theorem validate_answered {status : UInt8} {crc : UInt32} (hquiet : Quiet msgSlotValidate h.link)
    (hok : validate timestamp slot h = (.ok (status, crc), h')) :
    ∃ s, packByte slot = some s ∧ ∃ e ∈ h'.link.log, h.link.sends ≤ e.command.seq ∧
      e.command.msg = ⟨msgSlotValidate, [s]⟩ ∧ dev.check e.before s = (status, crc) := by
  obtain ⟨s, _, hget, hok⟩ := bind_eq_ok.mp hok
  obtain ⟨hslot, rfl⟩ := getOrRaise_eq_ok.mp hget
  obtain ⟨ack, h₁, hcommand, hok⟩ := bind_eq_ok.mp hok
  cases ack with
  | none => cases hok
  | some ack =>
    simp only at hok
    split at hok
    · cases hok
    · obtain ⟨status', _, hget, hok⟩ := bind_eq_ok.mp hok
      obtain ⟨hstatus, rfl⟩ := getOrRaise_eq_ok.mp hget
      cases hok
      obtain ⟨e, he, hseq, hmsg, hreply⟩ := hquiet.command_eq_ok (by decide) hcommand
      exact ⟨s, hslot, e, he, hseq, hmsg, validation_fields hreply hstatus⟩

/-- Nothing is written once the validation is asked for, and commands arrive in order.

**Proof sketch.** What the log holds after the answered validation was sent after it; and from the
validation on, no slot write is sent. -/
lemma validate_last {own : ℕ} {image : List UInt8} (hquiet : Quiet msgSlotValidate h.link)
    (hordered : Ordered h.link)
    (hok : validate timestamp slot h = (.ok (0, Slots.crc32 image), h')) :
    Validated own slot image h'.link.log := by
  have hordered' := (validate_keeps Ordered.stable (fun _ => trivial) trivial).run hok hordered
  have hkeeps : Keeps (fun h' : Host dev => SentFrom h.link.sends
      (fun m => m.msgType ≠ msgSlotWrite) h'.link) (validate timestamp slot) :=
    validate_keeps (SentFrom.stable _ _) (fun _ => show msgSlotValidate ≠ msgSlotWrite by decide)
      (handshake_msgType_ne timestamp (by decide))
  have hsent := hkeeps.run hok (hordered.sentFrom _)
  obtain ⟨s, hslot, e, he, hseq, hmsg, hcheck⟩ := validate_answered hquiet hok
  obtain ⟨before, after, hlog⟩ := List.append_of_mem he
  refine ⟨s, hslot, before, e, after, hlog, hmsg, hcheck, fun e' he' _ htype => ?_⟩
  have hpair := (List.pairwise_append.mp hordered'.1).1
  rw [hlog, List.map_append, List.map_cons, List.pairwise_append, List.pairwise_cons] at hpair
  have hlater : e.command.seq < e'.command.seq := hpair.2.1.1 _ (List.mem_map_of_mem he')
  have hmem : e' ∈ h'.link.log := by
    rw [hlog]
    exact List.mem_append_right _ (List.mem_cons_of_mem _ he')
  have hnone := hsent e'.command (List.mem_append_left _ (List.mem_map_of_mem hmem)) (by omega)
  exact absurd htype hnone

end Validate

/-! ## The installation -/

section Install

variable {timestamp : UInt32} {slot : ℤ} {image : List UInt8} {name version : String}
  {h h' : Host dev}

/-- An installation that returns ends with a validation of the image, and up to there no other is
sent.

**Proof sketch.** The erase and the two writes send no validation, so they keep the invariant.
What is left is the validation, whose status and checksum are tested before the installation
returns. -/
lemma install_eq_ok {I : Link dev → Prop} (hI : Stable I fun m => m.msgType ≠ msgSlotValidate)
    (hh : I h.link) {crc : UInt32}
    (hok : install timestamp slot image name version h = (.ok crc, h')) :
    crc = Slots.crc32 image ∧
      ∃ h₁, I h₁.link ∧ validate timestamp slot h₁ = (.ok (0, Slots.crc32 image), h') := by
  have hhandshake := @handshake_msgType_ne timestamp msgSlotValidate (by decide)
  have hwrite : ∀ (offset : ℤ) (blob : List UInt8),
      Keeps (fun h => I h.link) (write timestamp slot offset blob) := by
    refine fun offset blob => write_keeps hI (fun k _ m hm => ?_) hhandshake
    rw [chunkMsg_msgType hm]
    decide
  have herase : Keeps (fun h => I h.link) (erase timestamp slot) :=
    erase_keeps hI (fun _ => show msgSlotErase ≠ msgSlotValidate by decide) hhandshake
  obtain ⟨header, _, hget, hok⟩ := bind_eq_ok.mp hok
  obtain ⟨-, rfl⟩ := getOrRaise_eq_ok.mp hget
  obtain ⟨status, h₁, herased, hok⟩ := bind_eq_ok.mp hok
  have hI₁ := herase.run herased hh
  split at hok
  · cases hok
  · obtain ⟨_, h₂, hheader, hok⟩ := bind_eq_ok.mp hok
    have hI₂ := (hwrite _ _).run hheader hI₁
    obtain ⟨_, h₃, himage, hok⟩ := bind_eq_ok.mp hok
    have hI₃ := (hwrite _ _).run himage hI₂
    obtain ⟨⟨status', crc'⟩, h₄, hvalidate, hok⟩ := bind_eq_ok.mp hok
    simp only at hok
    split at hok
    · cases hok
    · next hstatus =>
      split at hok
      · cases hok
      · next hcrc =>
        cases hok
        rw [not_not.mp hstatus, not_not.mp hcrc] at hvalidate
        exact ⟨not_not.mp hcrc, h₃, hI₃, hvalidate⟩

end Install

/-- **Installations are sound.** On a link that may lose and delay anything, but on which no
validation and no reply to one is left from before, `install` raises, or it returns the CRC of the
image and the device found the image in the slot after the last slot write it accepted.

**Proof sketch.** Erasing and writing sends no validation, so that the one at the end is the only
one, and its reply answers it (`validate_answered`); the rest is `validate_last`. -/
theorem install_validated (h : Host dev) {device : dev.State}
    {commands replies buffered : List Msg}
    (hstart : h.link = Link.start device commands replies buffered)
    (hcommands : ∀ m ∈ commands, m.msgType ≠ msgSlotValidate)
    (hreplies : ∀ m ∈ replies, m.msgType ≠ msgSlotValidate + 1)
    (hbuffered : ∀ m ∈ buffered, m.msgType ≠ msgSlotValidate + 1)
    (timestamp : UInt32) (slot : ℤ) (image : List UInt8) (name version : String) :
    (∃ e, (install timestamp slot image name version h).1 = .error e) ∨
      (install timestamp slot image name version h).1 = .ok (Slots.crc32 image) ∧
        Validated commands.length slot image
          (install timestamp slot image name version h).2.link.log := by
  have hquiet : Quiet msgSlotValidate h.link := by
    rw [hstart]
    refine ⟨fun c hc => ?_, hreplies, hbuffered⟩
    obtain ⟨i, hi, rfl⟩ := List.mem_mapIdx.mp hc
    exact hcommands _ (List.getElem_mem hi)
  have hordered : Ordered h.link := by
    rw [hstart]
    exact ordered_start device commands replies buffered
  have hstable : Stable (fun w : Link dev => Quiet msgSlotValidate w ∧ Ordered w)
      fun m => m.msgType ≠ msgSlotValidate :=
    (Quiet.stable msgSlotValidate).and (Ordered.stable.mono fun _ _ => trivial)
  cases hrun : install timestamp slot image name version h with
  | mk r h' =>
    cases r with
    | error e => exact Or.inl ⟨e, rfl⟩
    | ok crc =>
      obtain ⟨rfl, h₁, ⟨hquiet₁, hordered₁⟩, hvalidate⟩ :=
        install_eq_ok hstable ⟨hquiet, hordered⟩ hrun
      exact Or.inr ⟨rfl, validate_last hquiet₁ hordered₁ hvalidate⟩

/-- An image, for installations with an empty name and version. -/
def smallImage : List UInt8 := [1, 2, 3]

/-- The header is lost and sent again after a handshake; everything else is answered at once. -/
def oneLoss : List (List (List Move)) :=
  [[[.handle, .arrive]], [[.dropCommand 0]], [[.handle, .arrive]], [[.handle, .arrive]],
    [[.handle, .arrive]], [[.handle, .arrive]]]

/-- The header is lost once; the image is installed, and the device has validated it. -/
theorem install_validated_oneLoss :
    (install 1 2 smallImage "" "" ⟨idleLink, oneLoss⟩).1 = .ok (Slots.crc32 smallImage) ∧
      Validated 0 2 smallImage (install 1 2 smallImage "" "" ⟨idleLink, oneLoss⟩).2.link.log := by
  have hok : (install 1 2 smallImage "" "" ⟨idleLink, oneLoss⟩).1 =
      .ok (Slots.crc32 smallImage) := by
    decide +kernel
  rcases install_validated ⟨idleLink, oneLoss⟩ rfl (List.forall_mem_nil _) (List.forall_mem_nil _)
    (List.forall_mem_nil _) 1 2 smallImage "" "" with ⟨e, herror⟩ | hvalidated
  · rw [hok] at herror
    cases herror
  · exact hvalidated

/-- A slot write after every validation. -/
lemma not_validated {own : ℕ} {slot : ℤ} {image : List UInt8} {log : List (Processed dev)}
    (h : ∀ (i : ℕ) (hi : i < log.length), log[i].command.msg.msgType = msgSlotValidate →
      ∃ e' ∈ log.drop (i + 1), own ≤ e'.command.seq ∧ e'.command.msg.msgType = msgSlotWrite ∧
        e'.accepted = true) : ¬ Validated own slot image log := by
  rintro ⟨s, -, before, e, after, rfl, hmsg, -, hafter⟩
  obtain ⟨e', he', hown, htype, haccepted⟩ := h before.length (by simp) (by simp [hmsg])
  rw [List.drop_append, List.drop_of_length_le (Nat.le_succ _)] at he'
  simp only [Nat.add_sub_cancel_left, List.drop_succ_cons, List.drop_zero, List.nil_append] at he'
  rw [hafter e' he' hown htype] at haccepted
  cases haccepted

/-- A link on which a validation is on its way to the device, which holds the image from before, and
three acknowledgements of status 0 are on their way to the host. -/
def staleLink : Link slotDevice :=
  Link.start ⟨1, (Slots.buildHeader smallImage "" "").getD [], smallImage⟩
    [⟨msgSlotValidate, [2]⟩]
    [⟨msgSlotErase + 1, [2, 0]⟩, ⟨msgSlotWrite + 1, [2, 0]⟩, ⟨msgSlotWrite + 1, [2, 0]⟩] []

/-- Every command is acknowledged by what was on its way before; the last validation is lost. -/
def staleAcks : List (List (List Move)) :=
  [[[.handle, .arrive]], [[.handle, .arrive]], [[.handle, .handle, .arrive]],
    [[.dropCommand 0, .arrive]]]

/-- **An earlier validation** that is still on its way to the device is taken for the last one:
`install` returns, and the only validation the device processed was before it erased the slot. -/
theorem stale_validation_not_validated :
    (∀ m ∈ staleLink.toHost ++ staleLink.buffered, m.msgType ≠ msgSlotValidate + 1) ∧
      (install 1 2 smallImage "" "" ⟨staleLink, staleAcks⟩).1 = .ok (Slots.crc32 smallImage) ∧
      ¬ Validated 1 2 smallImage
        (install 1 2 smallImage "" "" ⟨staleLink, staleAcks⟩).2.link.log :=
  ⟨by decide +kernel, by decide +kernel, not_validated (by decide +kernel)⟩

end Uvk5.Serial
