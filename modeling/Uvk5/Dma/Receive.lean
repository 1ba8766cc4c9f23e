import Uvk5.Dma.Device
import Uvk5.Lib.Run

set_option relaxedAutoImplicit false
set_option autoImplicit false

/-!
# Receiving through a circular channel

The firmware lets a circular channel move what USART1 receives into a buffer, and derives from the
count of the channel how far the buffer is filled. Here bytes arrive, counts and the data register
are read, in any order; every byte is taken once, and the count tells where the next one goes.

## Main definitions

* `Dma.Trace`, `Dma.Event` — the controller with what was received and taken, and what may happen.
* `Dma.Armed` — one circular channel, and no other, moves what USART1 receives.

## Main results

* `Dma.serviceUsartRx_spec` — serving the channels empties the queue into the buffer.
* `Dma.receive_exactlyOnce` — bytes are taken once, in order, and where the count says.
-/

namespace Uvk5.Dma

/-! ## Transfers -/

/-- The transfers of some bytes, the `k`-th and later ones, to a buffer of `N` bytes. -/
def placed (cmar : UInt32) (N : ℕ) : ℕ → List UInt8 → List Transfer
  | _, [] => []
  | k, b :: bs => ⟨cmar + UInt32.ofNat (k % N), b⟩ :: placed cmar N (k + 1) bs

section Placed

variable (cmar : UInt32) (N : ℕ)

/-- Every byte is one transfer. -/
@[simp] lemma length_placed (k : ℕ) (bs : List UInt8) : (placed cmar N k bs).length = bs.length := by
  induction bs generalizing k with
  | nil => rfl
  | cons b bs ih => rw [placed, List.length_cons, ih, List.length_cons]

/-- The transfers of some bytes and of those after them. -/
lemma placed_append (k : ℕ) (bs bs' : List UInt8) :
    placed cmar N k (bs ++ bs') = placed cmar N k bs ++ placed cmar N (k + bs.length) bs' := by
  induction bs generalizing k with
  | nil => rfl
  | cons b bs ih =>
    rw [List.cons_append, placed, ih, placed, List.cons_append, List.length_cons,
      Nat.add_right_comm, Nat.add_assoc]

/-- The transfers from some byte on are those of the bytes that are left. -/
lemma drop_placed (k i : ℕ) (bs : List UInt8) :
    (placed cmar N k bs).drop i = placed cmar N (k + i) (bs.drop i) := by
  induction i generalizing k bs with
  | zero => rfl
  | succ i ih =>
    cases bs with
    | nil => rfl
    | cons b bs => rw [placed, List.drop_succ_cons, ih, List.drop_succ_cons, Nat.add_right_comm,
        Nat.add_assoc]

/-- The bytes of the transfers are the bytes. -/
@[simp] lemma map_byte_placed (k : ℕ) (bs : List UInt8) :
    (placed cmar N k bs).map Transfer.byte = bs := by
  induction bs generalizing k with
  | nil => rfl
  | cons b bs ih => rw [placed, List.map_cons, ih]

/-- The transfer of a byte goes to its place in the buffer, from the start again behind its end. -/
lemma getElem?_placed (k i : ℕ) (bs : List UInt8) :
    (placed cmar N k bs)[i]? =
      bs[i]?.map fun b => ⟨cmar + UInt32.ofNat ((k + i) % N), b⟩ := by
  induction bs generalizing k i with
  | nil => rfl
  | cons b bs ih =>
    cases i with
    | zero => rfl
    | succ i =>
      rw [placed, List.getElem?_cons_succ, ih, List.getElem?_cons_succ, Nat.add_right_comm,
        Nat.add_assoc]

/-- Fewer bytes than the buffer holds go to different addresses. -/
lemma placed_nodup (hN : N < 2 ^ 32) (k : ℕ) {bs : List UInt8} (hlen : bs.length ≤ N) :
    ((placed cmar N k bs).map Transfer.address).Nodup := by
  rw [List.nodup_iff_getElem?_ne_getElem?]
  intro i j hij hj heq
  rw [List.length_map, length_placed] at hj
  rw [List.getElem?_map, List.getElem?_map, getElem?_placed, getElem?_placed,
    List.getElem?_eq_getElem (by omega), List.getElem?_eq_getElem hj] at heq
  have hoffset := (UInt32.add_right_inj cmar).mp (Option.some.inj heq)
  have hsame := congrArg UInt32.toNat hoffset
  have hlt : ∀ m, m % N < 2 ^ 32 := fun m =>
    Nat.lt_trans (Nat.mod_lt m (by omega)) hN
  rw [UInt32.toNat_ofNat_of_lt' (hlt _), UInt32.toNat_ofNat_of_lt' (hlt _)] at hsame
  have hdvd : N ∣ (k + j) - (k + i) := (Nat.modEq_iff_dvd' (by omega)).mp hsame
  have hle := Nat.le_of_dvd (by omega) hdvd
  omega

end Placed

/-- A transfer elsewhere leaves an address alone. -/
lemma store_of_not_mem {memory : UInt32 → UInt8} {ts : List Transfer} {address : UInt32}
    (h : address ∉ ts.map Transfer.address) : store memory ts address = memory address := by
  induction ts generalizing memory with
  | nil => rfl
  | cons t ts ih =>
    rw [List.map_cons, List.mem_cons, not_or] at h
    rw [store, List.foldl_cons]
    exact (ih h.2).trans (Function.update_of_ne h.1 _ _)

/-- Transfers to different addresses all stay. -/
lemma store_of_nodup {memory : UInt32 → UInt8} {ts : List Transfer}
    (h : (ts.map Transfer.address).Nodup) {t : Transfer} (ht : t ∈ ts) :
    store memory ts t.address = t.byte := by
  induction ts generalizing memory with
  | nil => cases ht
  | cons t' ts ih =>
    rw [List.map_cons, List.nodup_cons] at h
    rw [store, List.foldl_cons]
    rcases List.mem_cons.mp ht with rfl | ht
    · exact (store_of_not_mem h.1).trans (Function.update_self ..)
    · exact ih h.2 ht

/-- Some transfers after others. -/
lemma store_append (memory : UInt32 → UInt8) (ts ts' : List Transfer) :
    store memory (ts ++ ts') = store (store memory ts) ts' := List.foldl_append ..

/-- The last `N` bytes that were moved to a buffer of `N` bytes are in their places: no later one
went to the place of any of them. -/
lemma store_placed {cmar : UInt32} {N : ℕ} (hN : N < 2 ^ 32) (memory : UInt32 → UInt8)
    {bs : List UInt8} {k : ℕ} {w : Transfer} (hw : (placed cmar N 0 bs)[k]? = some w)
    (hlast : bs.length ≤ k + N) : store memory (placed cmar N 0 bs) w.address = w.byte := by
  have hmem : w ∈ placed cmar N (0 + k) (bs.drop k) := by
    rw [← drop_placed]
    refine List.mem_of_getElem? (i := 0) ?_
    rw [List.getElem?_drop, Nat.add_zero, hw]
  have hfew : (bs.drop k).length ≤ N := by
    rw [List.length_drop]
    omega
  rw [← List.take_append_drop k (placed cmar N 0 bs), store_append, drop_placed]
  exact store_of_nodup (placed_nodup cmar N hN _ hfew) hmem

/-! ## Serving a channel -/

/-- A circular channel on a buffer of `N` bytes, after `k` transfers. -/
structure Aligned (N k : ℕ) (c : Channel) : Prop where
  minc : c.ccr &&& ccrMinc ≠ 0
  circ : c.ccr &&& ccrCirc ≠ 0
  total : c.total.toNat = N
  pos : 0 < N
  cndtr : c.cndtr.toNat = N - k % N

section Aligned

variable {N k : ℕ} {c : Channel} (h : Aligned N k c)

include h

/-- The count is at least one, and at most the length of the buffer. -/
lemma Aligned.bounds : 1 ≤ c.cndtr.toNat ∧ c.cndtr.toNat ≤ N := by
  have hlt := Nat.mod_lt k h.pos
  rw [h.cndtr]
  omega

/-- The next byte goes where its number says. -/
lemma Aligned.dest : c.dest = c.cmar + UInt32.ofNat (k % N) := by
  rw [Channel.dest, if_pos h.minc]
  congr 1
  apply UInt32.toNat_inj.mp
  have hlt := Nat.mod_lt k h.pos
  have hN : N < 2 ^ 32 := h.total ▸ c.total.toNat_lt
  rw [UInt32.toNat_sub_of_le _ _ (by rw [UInt32.le_iff_toNat_le, h.total]; exact h.bounds.2),
    UInt32.toNat_ofNat_of_lt' (show k % N < UInt32.size from Nat.lt_trans hlt hN), h.total, h.cndtr]
  omega

/-- A byte moves the channel on; at the end it starts again. -/
lemma Aligned.advance : ∃ cndtr, c.advance = ({ c with cndtr := cndtr }, false) ∧
    Aligned N (k + 1) { c with cndtr := cndtr } := by
  have hbounds := h.bounds
  have hcndtr := h.cndtr
  have hlt := Nat.mod_lt k h.pos
  rcases Nat.lt_or_ge 1 c.cndtr.toNat with hmore | hlast
  · refine ⟨c.cndtr - 1, advance_of_one_lt hmore, h.minc, h.circ, h.total, h.pos, ?_⟩
    have hdec : (c.cndtr - 1).toNat = c.cndtr.toNat - 1 :=
      UInt32.toNat_sub_of_le _ _ (UInt32.le_iff_toNat_le.mpr hbounds.1)
    have hnext : (k + 1) % N = k % N + 1 := by
      rw [Nat.add_mod, Nat.mod_eq_of_lt (show 1 < N by omega),
        Nat.mod_eq_of_lt (show k % N + 1 < N by omega)]
    rw [hnext]
    change (c.cndtr - 1).toNat = _
    rw [hdec, hcndtr]
    omega
  · refine ⟨c.total, advance_circular hlast h.circ, h.minc, h.circ, h.total, h.pos, ?_⟩
    have hwrap : (k + 1) % N = 0 := by
      rw [Nat.add_mod, show k % N = N - 1 by omega]
      rcases Nat.lt_or_ge 1 N with hN | hN
      · rw [Nat.mod_eq_of_lt hN, Nat.sub_add_cancel h.pos, Nat.mod_self]
      · rw [show N = 1 by omega, Nat.mod_one]
    rw [hwrap, Nat.sub_zero]
    exact h.total

end Aligned

/-- **Serving a circular channel** moves the whole queue. -/
theorem serviceLoop_spec {N : ℕ} {fuel k : ℕ} {c : Channel} (h : Aligned N k c)
    {r : Ring UInt8 256} (hfuel : r.count < fuel) :
    ∃ cndtr r', serviceLoop fuel c r =
        (placed c.cmar N k r.contents, { c with cndtr := cndtr }, r') ∧
      r'.contents = [] ∧ Aligned N (k + r.count) { c with cndtr := cndtr } := by
  induction fuel generalizing k c r with
  | zero => omega
  | succ fuel ih =>
    rw [serviceLoop]
    cases hpop : r.pop with
    | none =>
      have hempty := Ring.contents_of_pop_none hpop
      have hcount := Ring.count_of_pop_none hpop
      refine ⟨c.cndtr, r, ?_, hempty, ?_⟩
      · rw [hempty, placed]
      · rw [hcount]
        exact h
    | some popped =>
      obtain ⟨byte, r₁⟩ := popped
      have hcontents := Ring.contents_of_pop hpop
      have hcount := Ring.count_of_pop hpop
      obtain ⟨cndtr, hadvance, hnext⟩ := h.advance
      obtain ⟨cndtr', r', hloop, hempty, halign⟩ := ih hnext (show r₁.count < fuel by omega)
      refine ⟨cndtr', r', ?_, hempty, ?_⟩
      · simp only [hadvance, Bool.false_eq_true, if_false, hloop]
        rw [hcontents, placed, h.dest]
      · rw [hcount, Nat.add_comm r₁.count 1, ← Nat.add_assoc]
        exact halign

/-! ## Serving all channels -/

/-- One circular channel on a buffer of `N` bytes moves what USART1 receives, and no other. -/
structure Armed (N k : ℕ) (c : Fin 7) (s : State) : Prop where
  serves : (s.ch c).serves = true
  others : ∀ ch, ch ≠ c → (s.ch ch).serves = false
  aligned : Aligned N k (s.ch c)

/-- Serving some channels, and then others. -/
lemma serviceChannels_append (chs chs' : List (Fin 7)) (s : State) :
    serviceChannels (chs ++ chs') s =
      ((serviceChannels chs s).1 ++ (serviceChannels chs' (serviceChannels chs s).2).1,
        (serviceChannels chs' (serviceChannels chs s).2).2) := by
  induction chs generalizing s with
  | nil => rfl
  | cons ch chs ih =>
    simp only [List.cons_append, serviceChannels, ih, List.append_assoc]

/-- Channels that are not to be served move nothing. -/
lemma serviceChannels_idle {chs : List (Fin 7)} {s : State}
    (h : ∀ ch ∈ chs, (s.ch ch).serves = false) : serviceChannels chs s = ([], s) := by
  induction chs with
  | nil => rfl
  | cons ch chs ih =>
    have hidle : serviceChannel s ch = ([], s) := by
      rw [serviceChannel, h ch (List.mem_cons_self ..)]
      rfl
    rw [serviceChannels, hidle]
    simp only [ih fun ch' hch' => h ch' (List.mem_cons_of_mem _ hch'), List.nil_append]

/-- Serving the armed channel is running its loop, and storing what that moves. -/
lemma serviceChannel_armed {N k : ℕ} {c : Fin 7} {s : State} (h : Armed N k c s)
    {ts : List Transfer} {next : Channel} {r : Ring UInt8 256}
    (hloop : serviceLoop 256 (s.ch c) s.usart1 = (ts, next, r)) :
    serviceChannel s c = (ts, updateIrq { s with
      ch := Function.update s.ch c next
      usart1 := r
      memory := store s.memory ts
      isr := s.isr ||| flagGif c }) := by
  rw [serviceChannel, if_pos h.serves, hloop]

/-- **Serving the channels** empties the queue into the buffer of the one that is armed.

**Proof sketch.** The channels before the armed one and those after it serve nothing, so the run
over all seven is the one channel's loop, and `serviceLoop_spec` says what that does. -/
theorem serviceUsartRx_spec {N k : ℕ} {c : Fin 7} {s : State} (h : Armed N k c s) :
    ∃ s', serviceUsartRx s = (placed (s.ch c).cmar N k s.usart1.contents, s') ∧
      Armed N (k + s.usart1.count) c s' ∧ (s'.ch c).cmar = (s.ch c).cmar ∧
      s'.usart1.contents = [] ∧
      s'.memory = store s.memory (placed (s.ch c).cmar N k s.usart1.contents) := by
  obtain ⟨cndtr, r', hloop, hempty, halign⟩ :=
    serviceLoop_spec h.aligned (Ring.count_lt s.usart1)
  have hchannel := serviceChannel_armed h hloop
  set s' := (serviceChannel s c).2 with hs'
  have hch : s'.ch = Function.update s.ch c { s.ch c with cndtr := cndtr } := by
    rw [hs', hchannel]
    rfl
  have hself : s'.ch c = { s.ch c with cndtr := cndtr } := by rw [hch, Function.update_self]
  have hothers : ∀ ch, ch ≠ c → (s'.ch ch).serves = false := by
    intro ch hne
    rw [hch, Function.update_of_ne hne]
    exact h.others ch hne
  refine ⟨s', ?_, ⟨?_, hothers, ?_⟩, ?_, ?_, ?_⟩
  · obtain ⟨before, after, hall⟩ := List.append_of_mem (List.mem_finRange c)
    have hnodup := List.nodup_finRange 7
    rw [hall, List.nodup_append, List.nodup_cons] at hnodup
    have hbefore : serviceChannels before s = ([], s) := by
      refine serviceChannels_idle fun ch hch => h.others ch ?_
      exact fun heq => hnodup.2.2 ch hch c (List.mem_cons_self ..) heq
    have hafter : serviceChannels after s' = ([], s') := by
      refine serviceChannels_idle fun ch hafter => hothers ch ?_
      rintro rfl
      exact hnodup.2.1.1 hafter
    rw [serviceUsartRx, hall, serviceChannels_append, hbefore, serviceChannels]
    simp only [List.nil_append]
    rw [← hs', hafter, List.append_nil, hchannel]
  · rw [hself]
    exact h.serves
  · rw [hself]
    exact halign
  · rw [hself]
  · rw [hs', hchannel]
    exact hempty
  · rw [hs', hchannel]
    rfl

/-! ## Runs -/

/-- A byte that left the queue, and how. -/
inductive Take where
  /-- A channel moved it. -/
  | dma (t : Transfer)
  /-- The guest read it from the data register. -/
  | dr (byte : UInt8)

/-- The byte. -/
def Take.byte : Take → UInt8
  | .dma t => t.byte
  | .dr byte => byte

/-- The transfer, if a channel moved the byte. -/
def Take.transfer? : Take → Option Transfer
  | .dma t => some t
  | .dr _ => none

/-- The controller, with what the chardev delivered and what became of it. -/
structure Trace where
  /-- The controller. -/
  dev : State
  /-- What was queued at the start and what was delivered since. -/
  received : List UInt8
  /-- What left the queue, oldest first. -/
  taken : List Take
  /-- What channels moved and the guest has not looked at since. -/
  unread : List Transfer

/-- The bytes that channels moved. -/
def Trace.transfers (t : Trace) : List Transfer := t.taken.filterMap Take.transfer?

/-- What may happen. -/
inductive Event where
  /-- The chardev delivers bytes. -/
  | deliver (bytes : List UInt8)
  /-- The guest reads the count of a channel. -/
  | cndtr (ch : Fin 7)
  /-- The guest reads the data register. -/
  | dr
  /-- The guest looks at all that was moved. -/
  | consume

/-- One event. -/
def Trace.step (t : Trace) : Event → Trace
  | .deliver bytes =>
    { t with
      dev := { t.dev with usart1 := receive t.dev.usart1 bytes }
      received := t.received ++ bytes }
  | .cndtr ch =>
    let (_, transfers, dev) := readCndtr t.dev ch
    { t with
      dev := dev
      taken := t.taken ++ transfers.map Take.dma
      unread := t.unread ++ transfers }
  | .dr =>
    let (byte, dev) := readDr t.dev
    { t with
      dev := dev
      taken := if t.dev.usart1.head = t.dev.usart1.tail then t.taken else t.taken ++ [.dr byte] }
  | .consume => { t with unread := [] }

/-- A trace before anything happens. -/
def Trace.start (s : State) : Trace := ⟨s, s.usart1.contents, [], []⟩

/-- The chardev delivers at most what can be received. -/
def Event.Fits (t : Trace) : Event → Prop
  | .deliver bytes => bytes.length ≤ canReceive t.dev.usart1
  | _ => True

instance (t : Trace) (e : Event) : Decidable (e.Fits t) :=
  match e with
  | .deliver _ => Nat.decLe _ _
  | .cndtr _ => isTrue trivial
  | .dr => isTrue trivial
  | .consume => isTrue trivial

/-- The guest has looked at everything before it reads a count. -/
def Event.Attentive (t : Trace) : Event → Prop
  | .cndtr _ => t.unread = []
  | _ => True

/-- Bytes that can be received are queued behind the others. -/
lemma contents_receive {r : Ring UInt8 256} {bytes : List UInt8}
    (h : bytes.length ≤ canReceive r) : (receive r bytes).contents = r.contents ++ bytes := by
  induction bytes generalizing r with
  | nil => rw [receive, List.append_nil]
  | cons b bytes ih =>
    rw [canReceive, List.length_cons] at h
    have hroom : r.count + 1 < 256 := by omega
    have hpush := Ring.contents_push b hroom
    have hcount : (r.push b).count = r.count + 1 := by
      rw [← Ring.length_contents, hpush, List.length_append, Ring.length_contents]
      rfl
    rw [receive, if_neg (Ring.head_add_one_ne hroom), ih (by rw [canReceive]; omega), hpush,
      List.append_assoc]
    rfl

/-- The bytes that arrive with an event. -/
def Event.bytes : Event → List UInt8
  | .deliver bytes => bytes
  | _ => []

/-- What has been received is what the events of the run brought, in order. -/
lemma received_run (t : Trace) (es : List Event) :
    (es.foldl Trace.step t).received = t.received ++ es.flatMap Event.bytes := by
  induction es generalizing t with
  | nil => exact (List.append_nil _).symm
  | cons e es ih =>
    have hstep : (t.step e).received = t.received ++ e.bytes := by
      cases e with
      | deliver bytes => rfl
      | cndtr ch => exact (List.append_nil _).symm
      | dr => exact (List.append_nil _).symm
      | consume => exact (List.append_nil _).symm
    rw [List.foldl_cons, ih, hstep, List.flatMap_cons, List.append_assoc]

/-- What holds along a run from a state: the bytes are taken in order, those that were moved are
transfers to their places, the memory is what these transfers make of it, and the channel stands
after the last of them. -/
structure Consistent (N : ℕ) (c : Fin 7) (s : State) (t : Trace) : Prop where
  /-- The channel stands after the last byte it moved. -/
  armed : Armed N t.transfers.length c t.dev
  /-- The buffer is where it was. -/
  cmar : (t.dev.ch c).cmar = (s.ch c).cmar
  /-- What was taken and what is queued is what was received. -/
  order : t.taken.map Take.byte ++ t.dev.usart1.contents = t.received
  /-- Each byte that was moved has its place. -/
  places : t.transfers = placed (s.ch c).cmar N 0 (t.transfers.map Transfer.byte)
  /-- Each byte that was moved was written there, one after the other. -/
  memory : t.dev.memory = store s.memory t.transfers

section Step

variable {N : ℕ} {c : Fin 7} {s : State} {t : Trace}

/-- What the channels moved is among what was taken. -/
lemma filterMap_dma (ts : List Transfer) : (ts.map Take.dma).filterMap Take.transfer? = ts := by
  induction ts with
  | nil => rfl
  | cons t ts ih =>
    rw [List.map_cons, List.filterMap_cons]
    exact congrArg (t :: ·) ih

/-- Reading a count moves what is queued. -/
lemma Consistent.cndtr (h : Consistent N c s t) (ch : Fin 7) :
    ∃ dev, readCndtr t.dev ch = ((dev.ch ch).cndtr,
        placed (s.ch c).cmar N t.transfers.length t.dev.usart1.contents, dev) ∧
      Armed N (t.transfers.length + t.dev.usart1.count) c dev ∧ (dev.ch c).cmar = (s.ch c).cmar ∧
      dev.usart1.contents = [] ∧
      dev.memory = store t.dev.memory
        (placed (s.ch c).cmar N t.transfers.length t.dev.usart1.contents) := by
  obtain ⟨dev, hserve, harmed, hcmar, hempty, hmemory⟩ := serviceUsartRx_spec h.armed
  rw [h.cmar] at hserve hcmar hmemory
  refine ⟨dev, ?_, harmed, hcmar, hempty, hmemory⟩
  rw [readCndtr, hserve]

/-- **One event** keeps the run consistent.

**Proof sketch.** Bytes that arrive go to the end of the queue. A read of a count serves the
channels, which moves the whole queue to the places after the last one. A read of the data
register takes the first byte and moves none. -/
theorem Consistent.step (h : Consistent N c s t) {e : Event} (hfits : e.Fits t) :
    Consistent N c s (t.step e) := by
  cases e with
  | deliver bytes =>
    refine ⟨⟨h.armed.serves, h.armed.others, h.armed.aligned⟩, h.cmar, ?_, h.places, h.memory⟩
    change t.taken.map Take.byte ++ (receive t.dev.usart1 bytes).contents = t.received ++ bytes
    rw [contents_receive hfits, ← List.append_assoc, h.order]
  | cndtr ch =>
    obtain ⟨dev, hread, harmed, hcmar, hempty, hmemory⟩ := h.cndtr ch
    set ts := placed (s.ch c).cmar N t.transfers.length t.dev.usart1.contents with hts
    have hstep : t.step (.cndtr ch) = { t with
        dev := dev, taken := t.taken ++ ts.map Take.dma, unread := t.unread ++ ts } := by
      rw [Trace.step, hread]
    have htransfers : (t.step (.cndtr ch)).transfers = t.transfers ++ ts := by
      rw [hstep, Trace.transfers, List.filterMap_append, filterMap_dma]
      rfl
    have hbytes : (ts.map Take.dma).map Take.byte = t.dev.usart1.contents := by
      rw [List.map_map]
      exact map_byte_placed ..
    refine ⟨?_, ?_, ?_, ?_, ?_⟩
    · rw [htransfers, List.length_append, hts, length_placed, Ring.length_contents, hstep]
      exact harmed
    · rw [hstep]
      exact hcmar
    · rw [hstep]
      simp only [List.map_append]
      rw [hbytes, hempty, List.append_nil, h.order]
    · rw [htransfers, List.map_append, placed_append, ← h.places, hts, map_byte_placed,
        List.length_map, Nat.zero_add]
    · rw [htransfers, store_append, ← h.memory, hstep]
      exact hmemory
  | dr =>
    rw [Trace.step, readDr]
    cases hpop : t.dev.usart1.pop with
    | none =>
      have hempty : t.dev.usart1.head = t.dev.usart1.tail := by
        by_contra hne
        rw [Ring.pop, if_neg hne] at hpop
        cases hpop
      simp only [if_pos hempty]
      exact h
    | some popped =>
      obtain ⟨byte, r⟩ := popped
      have hne : t.dev.usart1.head ≠ t.dev.usart1.tail := by
        intro heq
        rw [Ring.pop, if_pos heq] at hpop
        cases hpop
      simp only [if_neg hne]
      have hsame : ∀ dev, Trace.transfers { t with dev := dev, taken := t.taken ++ [.dr byte] } =
          t.transfers := by
        intro dev
        rw [Trace.transfers, List.filterMap_append]
        exact List.append_nil _
      refine ⟨?_, h.cmar, ?_, ?_, ?_⟩
      · rw [hsame]
        exact ⟨h.armed.serves, h.armed.others, h.armed.aligned⟩
      · rw [← h.order, Ring.contents_of_pop hpop, List.map_append, List.append_assoc]
        rfl
      · rw [hsame]
        exact h.places
      · rw [hsame]
        exact h.memory
  | consume => exact ⟨h.armed, h.cmar, h.order, h.places, h.memory⟩

/-- What the guest has not looked at is still in memory. -/
def Intact (t : Trace) : Prop := ∀ w ∈ t.unread, t.dev.memory w.address = w.byte

/-- An attentive guest loses nothing to one event, if the buffer is larger than the queue. -/
lemma Consistent.intact (h : Consistent N c s t) (hN : 256 ≤ N) {e : Event}
    (hattentive : e.Attentive t) (hintact : Intact t) : Intact (t.step e) := by
  cases e with
  | deliver bytes => exact hintact
  | cndtr ch =>
    obtain ⟨dev, hread, -, -, -, hmemory⟩ := h.cndtr ch
    rw [Trace.step, hread]
    intro w hw
    rw [Event.Attentive] at hattentive
    simp only [hattentive, List.nil_append] at hw
    simp only [hmemory]
    refine store_of_nodup (placed_nodup (s.ch c).cmar N ?_ _ ?_) hw
    · rw [← h.armed.aligned.total]
      exact UInt32.toNat_lt _
    · rw [Ring.length_contents]
      have hcount := Ring.count_lt t.dev.usart1
      omega
  | dr =>
    rw [Trace.step, readDr]
    cases t.dev.usart1.pop with
    | none => exact hintact
    | some popped => exact hintact
  | consume => exact List.forall_mem_nil _

end Step

/-- A read of the data register takes the oldest byte that is queued. -/
lemma readDr_of_contents {s : State} {b : UInt8} {bs : List UInt8}
    (h : s.usart1.contents = b :: bs) :
    (readDr s).1 = b ∧ (readDr s).2.usart1.contents = bs := by
  rw [readDr]
  cases hpop : s.usart1.pop with
  | none =>
    rw [Ring.contents_of_pop_none hpop] at h
    cases h
  | some popped =>
    rw [Ring.contents_of_pop hpop, List.cons.injEq] at h
    exact h

/-- What a run leaves, when one channel was armed on a buffer of `N` bytes in the state `s` and then
the events `es` happened. -/
structure ExactlyOnce (s : State) (c : Fin 7) (N : ℕ) (es : List Event) (t : Trace) : Prop where
  /-- What was taken and what is still queued is what was queued at the start and what arrived
  since, in order. -/
  order : t.taken.map Take.byte ++ t.dev.usart1.contents =
    s.usart1.contents ++ es.flatMap Event.bytes
  /-- A read of any count moves all that is queued, and nothing stays in the queue. -/
  moves : ∀ ch, (readCndtr t.dev ch).2.1.map Transfer.byte = t.dev.usart1.contents ∧
    (readCndtr t.dev ch).2.2.usart1.contents = []
  /-- A read of the data register takes the oldest byte, and leaves the others. -/
  takes : ∀ b bs, t.dev.usart1.contents = b :: bs →
    (readDr t.dev).1 = b ∧ (readDr t.dev).2.usart1.contents = bs
  /-- The `k`-th byte that was moved was moved to the `k`-th place, modulo `N`. -/
  places : ∀ k w, t.transfers[k]? = some w → w.address = (s.ch c).cmar + UInt32.ofNat (k % N)
  /-- It is in memory there, until `N` more have been moved. -/
  written : ∀ k w, t.transfers[k]? = some w → t.transfers.length ≤ k + N →
    t.dev.memory w.address = w.byte
  /-- Nothing else was written. -/
  elsewhere : ∀ address, (∀ w ∈ t.transfers, w.address ≠ address) →
    t.dev.memory address = s.memory address
  /-- The count stays in its bounds. -/
  bounds : 1 ≤ (t.dev.ch c).cndtr.toNat ∧ (t.dev.ch c).cndtr.toNat ≤ N
  /-- A read of it tells how many bytes were moved, modulo `N`. -/
  count : N - (readCndtr t.dev c).1.toNat =
    (t.transfers.length + (readCndtr t.dev c).2.1.length) % N
  /-- One read moves at most 255 bytes. -/
  few : ∀ ch, (readCndtr t.dev ch).2.1.length ≤ 255
  /-- A guest that looks at everything between two reads never finds a byte overwritten. -/
  kept : 256 ≤ N → Run.AllSteps Trace.step (fun t e => e.Attentive t) (.start s) es →
    ∀ w ∈ t.unread, t.dev.memory w.address = w.byte

/-- **Exactly once, in order, in its place.** A channel on a buffer of `N` bytes is armed, and
nothing has been moved yet; then bytes arrive, as many as can be received, and counts and the data
register are read, in any order. Every byte is taken once, in order, by whoever reads next; a byte
that the channel takes is written to its place in the buffer and stays there for a whole round; and
the count tells where the next one goes.

**Proof sketch.** `Consistent.step` over the run: what was taken and what is queued is what
arrived, and each transfer is at its place. A read of a count empties the queue of at most 255
bytes, so with a larger buffer the places of one read are all different. -/
theorem receive_exactlyOnce (s : State) (c : Fin 7) (N : ℕ) (harmed : Armed N 0 c s)
    (es : List Event) (hfits : Run.AllSteps Trace.step (fun t e => e.Fits t) (.start s) es) :
    ExactlyOnce s c N es (es.foldl Trace.step (.start s)) := by
  set t := es.foldl Trace.step (.start s)
  have hstart : Consistent N c s (.start s) := ⟨harmed, rfl, rfl, rfl, rfl⟩
  have hrun : Run.AllStates Trace.step (Consistent N c s) (.start s) es :=
    Run.allStates_of_allSteps (fun _ _ ht hfits => ht.step hfits) es _ hstart hfits
  have ht : Consistent N c s t := hrun.last
  have hN : N < 2 ^ 32 := ht.armed.aligned.total ▸ UInt32.toNat_lt _
  have hread := ht.cndtr
  refine ⟨?_, fun ch => ?_, fun _ _ => readDr_of_contents, ?_, ?_, ?_, ht.armed.aligned.bounds, ?_,
    fun ch => ?_, ?_⟩
  · rw [ht.order, received_run]
    rfl
  · obtain ⟨dev, hvalue, -, -, hempty, -⟩ := hread ch
    rw [hvalue]
    exact ⟨map_byte_placed .., hempty⟩
  · intro k w hw
    rw [ht.places, getElem?_placed, Nat.zero_add] at hw
    obtain ⟨b, -, rfl⟩ := Option.map_eq_some_iff.mp hw
    rfl
  · intro k w hw hlast
    rw [ht.places] at hw
    rw [ht.memory, ht.places]
    exact store_placed hN s.memory hw (by rwa [List.length_map])
  · intro address hother
    rw [ht.memory]
    refine store_of_not_mem fun hmem => ?_
    obtain ⟨w, hw, haddress⟩ := List.mem_map.mp hmem
    exact hother w hw haddress
  · obtain ⟨dev, hvalue, harmed', -⟩ := hread c
    have hlt := Nat.mod_lt (t.transfers.length + t.dev.usart1.count) harmed'.aligned.pos
    rw [hvalue, length_placed, Ring.length_contents, harmed'.aligned.cndtr]
    omega
  · obtain ⟨dev, hvalue, -⟩ := hread ch
    rw [hvalue, length_placed, Ring.length_contents]
    exact Nat.le_of_lt_succ (Ring.count_lt t.dev.usart1)
  · intro hlarge hattentive
    have hrun' : Run.AllStates Trace.step (fun t => Consistent N c s t ∧ Intact t) (.start s) es :=
      Run.allStates_of_allSteps
        (fun _ _ h hboth => ⟨h.1.step hboth.1, h.1.intact hlarge hboth.2 h.2⟩)
        es _ ⟨hstart, List.forall_mem_nil _⟩ (hfits.and hattentive)
    exact hrun'.last.2

/-- Channel 5 armed on a buffer of three bytes. -/
def armedState : State where
  isr := 0
  ch := fun ch =>
    if ch = 4 then ⟨ccrEn ||| ccrCirc ||| ccrMinc, 3, usart1Base + 4, 0x20000100, 3⟩
    else ⟨0, 0, 0, 0, 0⟩
  irq123 := false
  irq4567 := false
  usart1 := ⟨fun _ => 0, 0, 0⟩
  memory := fun _ => 0

/-- Four bytes for the channel and one for the guest. -/
def wrapping : List Event :=
  [.deliver [10, 20, 30, 40], .cndtr 0, .deliver [50], .dr, .cndtr 4]

/-- The channel moves four bytes around the end of its buffer of three; the guest takes the fifth
from the data register. The fourth byte is where the first one was. -/
theorem receive_exactlyOnce_wrapping :
    let t := wrapping.foldl Trace.step (.start armedState)
    t.taken.map Take.byte ++ t.dev.usart1.contents = [10, 20, 30, 40, 50] ∧
      t.dev.memory 0x20000100 = 40 ∧ t.dev.memory 0x20000101 = 20 ∧
      t.dev.memory 0x20000103 = 0 ∧ (readCndtr t.dev 4).1 = 2 := by
  have h := receive_exactlyOnce armedState 4 3
    ⟨by decide, by decide, by decide, by decide, rfl, by decide, rfl⟩ wrapping (by decide +kernel)
  refine ⟨h.order, ?_, ?_, ?_, ?_⟩
  · exact h.written 3 ⟨0x20000100, 40⟩ (by decide +kernel) (by decide +kernel)
  · exact h.written 1 ⟨0x20000101, 20⟩ (by decide +kernel) (by decide +kernel)
  · exact h.elsewhere _ (by decide +kernel)
  · decide +kernel

end Uvk5.Dma
