import Mathlib.Data.List.Flatten
import VsrKv.ProtocolHandler

/-!
# The client's reader

`TcpClient::start_reading` and the callback that `client_main` gives it.
The client keeps no buffer: what one read returns, up to 1024 bytes, is
decoded by itself, and dropped if that fails. The replica has a reader
for the same format in `handle_raw_data`, which depends on no such luck.

The decoder accepts nothing but a whole message, so the client gets what
it was sent if and only if every read returns one reply, the whole of it
and nothing more (`client_decodes_iff_one_reply_per_read`). A reply of
more than 1024 bytes is never decoded.
-/

namespace VsrKv

section

variable (H : Bytes → UInt128)

/-- The client's `on_message`: the reply that it prints. -/
def clientOnMessage (data : Bytes) : Option VsrMessage := VsrMessage.deserialize H data

/-- The replies decoded from the reads of a connection. -/
def clientOnReads (reads : List Bytes) : List VsrMessage := reads.filterMap (clientOnMessage H)

end

variable {H : Bytes → UInt128}

/-- Every reply that is decoded was a read. -/
theorem serialize_clientOnReads_sublist (reads : List Bytes) :
    ((clientOnReads H reads).map (VsrMessage.serialize H)).Sublist reads := by
  induction reads with
  | nil => exact List.Sublist.slnil
  | cons data reads ih =>
      rw [clientOnReads, List.filterMap_cons]
      cases hdata : clientOnMessage H data with
      | none => exact ih.cons data
      | some m =>
          have hser : m.serialize H = data := (VsrMessage.serialize_deserialize hdata).1
          rw [List.map_cons, hser]
          exact ih.cons_cons data

/-- Nothing can be left out of a list of non-empty pieces without making the
whole shorter. -/
theorem eq_of_sublist_of_length_flatten {pieces reads : List Bytes} (h : pieces.Sublist reads)
    (hreads : ∀ data ∈ reads, 1 ≤ data.length)
    (hlen : reads.flatten.length ≤ pieces.flatten.length) : pieces = reads := by
  induction h with
  | slnil => rfl
  | cons data h _ =>
      obtain ⟨hpos, -⟩ := List.forall_mem_cons.mp hreads
      have hle := h.flatten.length_le
      rw [List.flatten_cons, List.length_append] at hlen
      omega
  | cons_cons data _ ih =>
      obtain ⟨-, hreads⟩ := List.forall_mem_cons.mp hreads
      rw [List.flatten_cons, List.flatten_cons, List.length_append, List.length_append] at hlen
      rw [ih hreads (by omega)]

theorem clientOnReads_serialized {ms : List VsrMessage}
    (hms : ∀ m ∈ ms, m.header.InRange ∧ m.payload.length < 2 ^ 32 - headerSize) :
    clientOnReads H (ms.map (VsrMessage.serialize H)) = ms.map (VsrMessage.stamped H) := by
  induction ms with
  | nil => rfl
  | cons m ms ih =>
      obtain ⟨⟨hr, hlen⟩, hms⟩ := List.forall_mem_cons.mp hms
      have hround : clientOnMessage H (m.serialize H) = some (m.stamped H) :=
        VsrMessage.deserialize_serialize hr hlen
      rw [List.map_cons, clientOnReads, List.filterMap_cons, hround, List.map_cons]
      exact congrArg _ (ih hms)

theorem clientOnReads_eq_iff {ms : List VsrMessage} {reads : List Bytes}
    (hms : ∀ m ∈ ms, m.header.InRange ∧ m.payload.length < 2 ^ 32 - headerSize)
    (hreads : ∀ data ∈ reads, 1 ≤ data.length)
    (hstream : reads.flatten = (ms.map (VsrMessage.serialize H)).flatten) :
    clientOnReads H reads = ms.map (VsrMessage.stamped H)
      ↔ reads = ms.map (VsrMessage.serialize H) := by
  constructor
  · intro h
    have hsub := serialize_clientOnReads_sublist (H := H) reads
    rw [h, VsrMessage.map_serialize_stamped] at hsub
    have hlen : reads.flatten.length ≤ (ms.map (VsrMessage.serialize H)).flatten.length :=
      Nat.le_of_eq (congrArg List.length hstream)
    exact (eq_of_sublist_of_length_flatten hsub hreads hlen).symm
  · rintro rfl
    exact clientOnReads_serialized hms

/-- The client decodes what it was sent, and so agrees with `handle_raw_data`
on messages that fit there, if and only if each read returns one message. -/
theorem client_decodes_iff_one_reply_per_read (H : Bytes → UInt128) {ms : List VsrMessage}
    {reads : List Bytes}
    (hms : ∀ m ∈ ms, m.header.InRange ∧ m.payload.length < 2 ^ 32 - 128)
    (hreads : ∀ data ∈ reads, 1 ≤ data.length ∧ data.length ≤ 1024)
    (hstream : reads.flatten = (ms.map (VsrMessage.serialize H)).flatten) :
    (clientOnReads H reads = ms.map (VsrMessage.stamped H)
        ↔ reads = ms.map (VsrMessage.serialize H))
      ∧ ((∀ m ∈ ms, (m.serialize H).length ≤ 65536) →
        (clientOnReads H reads = (handleReads H (some []) reads).1
          ↔ reads = ms.map (VsrMessage.serialize H))) := by
  have hiff := clientOnReads_eq_iff hms (fun data hdata => (hreads data hdata).1) hstream
  refine ⟨hiff, ?_⟩
  intro hsmall
  have hserver : handleReads H (some []) reads = (ms.map (VsrMessage.stamped H), some []) := by
    rw [handleReads_eq_run, hstream]
    exact run_serialized fun m hm => ⟨(hms m hm).1, hsmall m hm⟩
  rw [hserver]
  exact hiff

/-- Two replies, a read each. -/
theorem client_decodes_two_replies :
    let H : Bytes → UInt128 := fun bs => ⟨0, bs.foldl (fun n b => n + b.toUInt64) 0⟩
    let reply (request : Nat) : VsrMessage :=
      { header := { command := .reply, request }, payload := [79, 75] }
    clientOnReads H [(reply 1).serialize H, (reply 2).serialize H]
      = [(reply 1).stamped H, (reply 2).stamped H] := by
  intro H reply
  have hfirst : (reply 1).header.InRange := by
    constructor <;> decide
  have hsecond : (reply 2).header.InRange := by
    constructor <;> decide
  have hms : ∀ m ∈ [reply 1, reply 2], m.header.InRange ∧ m.payload.length < 2 ^ 32 - 128 := by
    simp [hfirst, hsecond, reply]
  have hreads : ∀ data ∈ [(reply 1).serialize H, (reply 2).serialize H],
      1 ≤ data.length ∧ data.length ≤ 1024 := by
    simp [VsrMessage.length_serialize, headerSize, reply]
  exact (client_decodes_iff_one_reply_per_read H hms hreads rfl).1.mpr rfl

/-- Two replies in one read: neither is decoded, while `handle_raw_data` would
take off both. -/
theorem client_loses_replies_in_one_read :
    let H : Bytes → UInt128 := fun bs => ⟨0, bs.foldl (fun n b => n + b.toUInt64) 0⟩
    let reply (request : Nat) : VsrMessage :=
      { header := { command := .reply, request }, payload := [79, 75] }
    let read := (reply 1).serialize H ++ (reply 2).serialize H
    (1 ≤ read.length ∧ read.length ≤ 1024)
      ∧ clientOnReads H [read] = []
      ∧ (handleReads H (some []) [read]).1 = [(reply 1).stamped H, (reply 2).stamped H] := by
  decide +kernel

end VsrKv
