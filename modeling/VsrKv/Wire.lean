import VsrKv.Serialization

/-!
# Messages on the wire

`vsr_message.cpp`: the packed 128-byte header, `serialize` and
`deserialize`. The checksum is a function `H` of the bytes and nothing
else is known of it (BLAKE3, cut to its first sixteen bytes).

`serialize` works on a copy of the message: it stores the body checksum
and the size first, and then the checksum of the header that has them
and a zero checksum. `deserialize` undoes this, and it accepts a byte
string only when it is what serialising its own answer gives: the
decoder recognises exactly the image of the encoder
(`deserialize_serialize`, `serialize_deserialize`).
-/

namespace VsrKv

open LittleEndian

/-! ## Enumerations on the wire -/

def Command.toNat : Command → Nat
  | .reserved => 0
  | .ping => 1
  | .pong => 2
  | .request => 3
  | .prepare => 4
  | .prepareOk => 5
  | .reply => 6
  | .commit => 7
  | .startViewChange => 8
  | .doViewChange => 9
  | .startView => 10
  | .recovery => 11
  | .recoveryResponse => 12
  | .other k => 13 + k

def Command.ofNat : Nat → Command
  | 0 => .reserved
  | 1 => .ping
  | 2 => .pong
  | 3 => .request
  | 4 => .prepare
  | 5 => .prepareOk
  | 6 => .reply
  | 7 => .commit
  | 8 => .startViewChange
  | 9 => .doViewChange
  | 10 => .startView
  | 11 => .recovery
  | 12 => .recoveryResponse
  | n + 13 => .other (Fin.ofNat 243 n)

theorem Command.ofNat_toNat (c : Command) : Command.ofNat c.toNat = c := by
  cases c with
  | other k =>
      have h : 13 + (k : Nat) = (k : Nat) + 13 := Nat.add_comm ..
      simp [Command.toNat, h, Command.ofNat]
  | _ => rfl

theorem Command.toNat_lt (c : Command) : c.toNat < 256 ^ 1 := by
  cases c with
  | other k => have := k.isLt; simp only [Command.toNat]; omega
  | _ => simp [Command.toNat]

/-- Every byte is some command: a byte outside the enumeration is kept. -/
theorem Command.toNat_ofNat {n : Nat} (h : n < 256 ^ 1) : (Command.ofNat n).toNat = n := by
  unfold Command.ofNat
  split
  case h_14 k =>
    have hk : k < 243 := by omega
    show 13 + (Fin.ofNat 243 k : Nat) = k + 13
    rw [Fin.val_ofNat, Nat.mod_eq_of_lt hk, Nat.add_comm]
  all_goals rfl

theorem Operation.toNat_ofNat {n : Nat} (h : n < 256 ^ 1) : (Operation.ofNat n).toNat = n := by
  unfold Operation.ofNat
  split
  case h_5 k =>
    have hk : k < 252 := by omega
    show 4 + (Fin.ofNat 252 k : Nat) = k + 4
    rw [Fin.val_ofNat, Nat.mod_eq_of_lt hk, Nat.add_comm]
  all_goals rfl

@[simp] theorem length_writeUInt128 (n : UInt128) : (writeUInt128 n).length = 16 := by
  simp [writeUInt128]

theorem eq_of_readUInt128 {n : UInt128} {buf rest : Bytes}
    (h : readUInt128 buf = some (n, rest)) : buf = writeUInt128 n ++ rest := by
  simp only [readUInt128, Option.bind_eq_bind, Option.bind_eq_some_iff, Prod.exists] at h
  obtain ⟨high, b₁, h₁, low, b₂, h₂, h⟩ := h
  cases h
  obtain ⟨rfl, hhigh⟩ := eq_of_read h₁
  obtain ⟨rfl, hlow⟩ := eq_of_read h₂
  have hh : (UInt64.ofNat high).toNat = high := UInt64.toNat_ofNat_of_lt' hhigh
  have hl : (UInt64.ofNat low).toNat = low := UInt64.toNat_ofNat_of_lt' hlow
  simp only [writeUInt128, hh, hl, List.append_assoc]

/-! ## The header -/

/-- The bytes of a `vsr_header`. The structure is packed, so they are its
fields one after the other. -/
@[irreducible] def VsrHeader.bytes (h : VsrHeader) : Bytes :=
  writeUInt128 h.checksum
    ++ writeUInt128 h.checksumBody
    ++ writeUInt128 h.parent
    ++ writeUInt128 h.client
    ++ writeUInt128 h.context
    ++ encode 4 h.size
    ++ encode 4 h.request
    ++ encode 4 h.cluster
    ++ encode 4 h.epoch
    ++ encode 4 h.view
    ++ encode 8 h.op
    ++ encode 8 h.commit
    ++ encode 8 h.offset
    ++ encode 1 h.replica
    ++ encode 1 h.command.toNat
    ++ encode 1 h.operation.toNat
    ++ encode 1 h.version

/-- `sizeof(vsr_header)`. -/
def headerSize : Nat := 128

theorem VsrHeader.length_bytes (h : VsrHeader) : h.bytes.length = headerSize := by
  simp [VsrHeader.bytes, headerSize]

/-- Copying a header out of a buffer. -/
def readHeader (buf : Bytes) : Option (VsrHeader × Bytes) := do
  let (checksum, buf) ← readUInt128 buf
  let (checksumBody, buf) ← readUInt128 buf
  let (parent, buf) ← readUInt128 buf
  let (client, buf) ← readUInt128 buf
  let (context, buf) ← readUInt128 buf
  let (size, buf) ← read 4 buf
  let (request, buf) ← read 4 buf
  let (cluster, buf) ← read 4 buf
  let (epoch, buf) ← read 4 buf
  let (view, buf) ← read 4 buf
  let (op, buf) ← read 8 buf
  let (commit, buf) ← read 8 buf
  let (offset, buf) ← read 8 buf
  let (replica, buf) ← read 1 buf
  let (command, buf) ← read 1 buf
  let (operation, buf) ← read 1 buf
  let (version, buf) ← read 1 buf
  return ({ checksum, checksumBody, parent, client, context, size, request, cluster,
            epoch, view, op, commit, offset, replica, command := .ofNat command,
            operation := .ofNat operation, version }, buf)

theorem bind_readUInt128_write {α : Type} (n : UInt128) (rest : Bytes)
    (f : UInt128 × Bytes → Option α) :
    (readUInt128 (writeUInt128 n ++ rest) >>= f) = f (n, rest) := by
  rw [readUInt128_write, Option.bind_eq_bind, Option.bind_some]

theorem bind_read_encode {α : Type} {k n : Nat} (h : n < 256 ^ k) (rest : Bytes)
    (f : Nat × Bytes → Option α) : (read k (encode k n ++ rest) >>= f) = f (n, rest) := by
  rw [read_encode h, Option.bind_eq_bind, Option.bind_some]

theorem eq_of_bind_readUInt128 {α : Type} {buf : Bytes} {f : UInt128 × Bytes → Option α} {a : α}
    (h : (readUInt128 buf >>= f) = some a) :
    ∃ n rest, buf = writeUInt128 n ++ rest ∧ f (n, rest) = some a := by
  obtain ⟨⟨n, rest⟩, hread, hf⟩ := Option.bind_eq_some_iff.mp h
  exact ⟨n, rest, eq_of_readUInt128 hread, hf⟩

theorem eq_of_bind_read {α : Type} {k : Nat} {buf : Bytes} {f : Nat × Bytes → Option α} {a : α}
    (h : (read k buf >>= f) = some a) :
    ∃ n rest, buf = encode k n ++ rest ∧ n < 256 ^ k ∧ f (n, rest) = some a := by
  obtain ⟨⟨n, rest⟩, hread, hf⟩ := Option.bind_eq_some_iff.mp h
  obtain ⟨hbuf, hn⟩ := eq_of_read hread
  exact ⟨n, rest, hbuf, hn, hf⟩

theorem readHeader_bytes {h : VsrHeader} (hr : h.InRange) (rest : Bytes) :
    readHeader (h.bytes ++ rest) = some (h, rest) := by
  have hsize : h.size < 256 ^ 4 := by have := hr.size; omega
  have hrequest : h.request < 256 ^ 4 := by have := hr.request; omega
  have hcluster : h.cluster < 256 ^ 4 := by have := hr.cluster; omega
  have hepoch : h.epoch < 256 ^ 4 := by have := hr.epoch; omega
  have hview : h.view < 256 ^ 4 := by have := hr.view; omega
  have hop : h.op < 256 ^ 8 := by have := hr.op; omega
  have hcommit : h.commit < 256 ^ 8 := by have := hr.commit; omega
  have hoffset : h.offset < 256 ^ 8 := by have := hr.offset; omega
  have hreplica : h.replica < 256 ^ 1 := by have := hr.replica; omega
  have hversion : h.version < 256 ^ 1 := by have := hr.version; omega
  rw [readHeader, VsrHeader.bytes]
  simp only [List.append_assoc, bind_readUInt128_write]
  simp only [bind_read_encode hsize, bind_read_encode hrequest, bind_read_encode hcluster,
    bind_read_encode hepoch, bind_read_encode hview]
  simp only [bind_read_encode hop, bind_read_encode hcommit, bind_read_encode hoffset]
  simp only [bind_read_encode hreplica, bind_read_encode h.command.toNat_lt,
    bind_read_encode h.operation.toNat_lt, bind_read_encode hversion, Command.ofNat_toNat,
    Operation.ofNat_toNat]
  rfl

/-- Any 128 bytes are a header, and it has no other bytes. -/
theorem eq_of_readHeader {h : VsrHeader} {buf rest : Bytes}
    (hread : readHeader buf = some (h, rest)) : buf = h.bytes ++ rest ∧ h.InRange := by
  unfold readHeader at hread
  replace hread := eq_of_bind_readUInt128 hread
  obtain ⟨checksum, buf, rfl, hread⟩ := hread
  replace hread := eq_of_bind_readUInt128 hread
  obtain ⟨checksumBody, buf, rfl, hread⟩ := hread
  replace hread := eq_of_bind_readUInt128 hread
  obtain ⟨parent, buf, rfl, hread⟩ := hread
  replace hread := eq_of_bind_readUInt128 hread
  obtain ⟨client, buf, rfl, hread⟩ := hread
  replace hread := eq_of_bind_readUInt128 hread
  obtain ⟨context, buf, rfl, hread⟩ := hread
  replace hread := eq_of_bind_read hread
  obtain ⟨size, buf, rfl, hsize, hread⟩ := hread
  replace hread := eq_of_bind_read hread
  obtain ⟨request, buf, rfl, hrequest, hread⟩ := hread
  replace hread := eq_of_bind_read hread
  obtain ⟨cluster, buf, rfl, hcluster, hread⟩ := hread
  replace hread := eq_of_bind_read hread
  obtain ⟨epoch, buf, rfl, hepoch, hread⟩ := hread
  replace hread := eq_of_bind_read hread
  obtain ⟨view, buf, rfl, hview, hread⟩ := hread
  replace hread := eq_of_bind_read hread
  obtain ⟨op, buf, rfl, hop, hread⟩ := hread
  replace hread := eq_of_bind_read hread
  obtain ⟨commit, buf, rfl, hcommit, hread⟩ := hread
  replace hread := eq_of_bind_read hread
  obtain ⟨offset, buf, rfl, hoffset, hread⟩ := hread
  replace hread := eq_of_bind_read hread
  obtain ⟨replica, buf, rfl, hreplica, hread⟩ := hread
  replace hread := eq_of_bind_read hread
  obtain ⟨command, buf, rfl, hcommand, hread⟩ := hread
  replace hread := eq_of_bind_read hread
  obtain ⟨operation, buf, rfl, hoperation, hread⟩ := hread
  replace hread := eq_of_bind_read hread
  obtain ⟨version, buf, rfl, hversion, hread⟩ := hread
  cases hread
  constructor
  · simp only [VsrHeader.bytes, Command.toNat_ofNat hcommand, Operation.toNat_ofNat hoperation,
      List.append_assoc]
  · exact ⟨hsize, hrequest, hcluster, hepoch, hview, hop, hcommit, hoffset, hreplica, hversion⟩

/-! ## Checksums, `serialize`, `deserialize` -/

section

variable (H : Bytes → UInt128)

/-- `calculate_and_set_body_checksum`: an empty payload has checksum zero,
whatever the checksum of no bytes is. -/
def bodyChecksum (payload : Bytes) : UInt128 :=
  if payload.isEmpty then {} else H payload

/-- `calculate_and_set_header_checksum`: over the header's bytes with the
checksum itself zeroed. -/
def headerChecksum (h : VsrHeader) : UInt128 := H { h with checksum := {} }.bytes

/-- The copy `serialize` prepares: the message with its body checksum, its
size and, over those, its header checksum filled in. -/
def VsrMessage.stamped (m : VsrMessage) : VsrMessage :=
  let header :=
    { m.header with
      checksumBody := bodyChecksum H m.payload
      size := u32 (headerSize + m.payload.length) }
  { m with header := { header with checksum := headerChecksum H header } }

/-- A payload of `2 ^ 32 - 128` bytes or more wraps the size, and the
source then copies past the end of its buffer. -/
def VsrMessage.serialize (m : VsrMessage) : Bytes :=
  (m.stamped H).header.bytes ++ m.payload

/-- Into a fresh message. The sibling for `std::vector<char>` only copies
its bytes and calls this one. -/
def VsrMessage.deserialize (data : Bytes) : Option VsrMessage :=
  match readHeader data with
  | none => none
  | some (header, payload) =>
      if header.size ≠ data.length then none
      else if headerChecksum H header ≠ header.checksum then none
      else if bodyChecksum H payload ≠ header.checksumBody then none
      else some { header, payload }

end

/-! ## The two round trips -/

section

variable {H : Bytes → UInt128} {m : VsrMessage}

theorem VsrMessage.length_serialize :
    (m.serialize H).length = headerSize + m.payload.length := by
  rw [serialize, List.length_append, VsrHeader.length_bytes]

/-- Serialising twice is serialising once. -/
theorem VsrMessage.map_serialize_stamped (ms : List VsrMessage) :
    (ms.map (stamped H)).map (serialize H) = ms.map (serialize H) := by
  rw [List.map_map]
  rfl

/-- Checksum, body checksum and size are all that stamping writes. -/
theorem VsrMessage.inRange_stamped (h : m.header.InRange) : (m.stamped H).header.InRange where
  size := Nat.mod_lt _ (by norm_num)
  request := h.request
  cluster := h.cluster
  epoch := h.epoch
  view := h.view
  op := h.op
  commit := h.commit
  offset := h.offset
  replica := h.replica
  version := h.version

theorem VsrMessage.size_stamped (h : m.payload.length < 2 ^ 32 - headerSize) :
    (m.stamped H).header.size = (m.serialize H).length := by
  have hlt : headerSize + m.payload.length < 2 ^ 32 := by omega
  rw [length_serialize]
  exact u32_eq hlt

theorem VsrMessage.deserialize_serialize (hr : m.header.InRange)
    (hlen : m.payload.length < 2 ^ 32 - headerSize) :
    deserialize H (m.serialize H) = some (m.stamped H) := by
  have hread := readHeader_bytes (inRange_stamped (H := H) hr) m.payload
  have hsize : (m.stamped H).header.size = (m.serialize H).length := size_stamped hlen
  have hheader : headerChecksum H (m.stamped H).header = (m.stamped H).header.checksum := rfl
  have hbody : bodyChecksum H m.payload = (m.stamped H).header.checksumBody := rfl
  rw [serialize] at hsize ⊢
  rw [deserialize, hread]
  simp only [hsize, hheader, hbody, ne_eq, not_true_eq_false, if_false]
  rfl

/-- What a decoder accepts carries the checksums and the size it would be
given on the way out. -/
theorem VsrMessage.serialize_deserialize {data : Bytes} (h : deserialize H data = some m) :
    m.serialize H = data ∧ m.stamped H = m ∧ m.header.InRange := by
  unfold deserialize at h
  split at h
  · cases h
  · rename_i header payload hread
    obtain ⟨rfl, hr⟩ := eq_of_readHeader hread
    split at h
    · cases h
    · split at h
      · cases h
      · split at h
        · cases h
        · rename_i hsize hheader hbody
          cases h
          rw [not_not] at hsize hheader hbody
          rw [List.length_append, VsrHeader.length_bytes] at hsize
          have hstamped : stamped H { header, payload } = { header, payload } := by
            have hu : u32 (headerSize + payload.length) = header.size := by
              rw [← hsize]
              exact u32_eq hr.size
            simp only [stamped, hbody, hu, hheader]
          exact ⟨by rw [serialize, hstamped], hstamped, hr⟩

end

/-- The decoder accepts exactly what the encoder writes. Only the size and
the two checksums of a message change on the way, and every accepted byte
string is the encoding of the message it was read as. -/
theorem VsrMessage.decoder_inverts_encoder (H : Bytes → UInt128) :
    (∀ m : VsrMessage, m.header.InRange → m.payload.length < 2 ^ 32 - 128 →
      let header :=
        { m.header with
          checksumBody := bodyChecksum H m.payload
          size := 128 + m.payload.length }
      deserialize H (m.serialize H)
        = some { header := { header with checksum := H { header with checksum := {} }.bytes },
                 payload := m.payload }) ∧
    (∀ (data : Bytes) (m : VsrMessage), deserialize H data = some m →
      m.serialize H = data) := by
  constructor
  · intro m hr hlen
    have hround := deserialize_serialize (H := H) hr hlen
    have hsize : u32 (headerSize + m.payload.length) = 128 + m.payload.length :=
      u32_eq (by rw [headerSize]; omega)
    rw [hround]
    simp only [stamped, headerChecksum, hsize]
  · intro data m hdata
    exact (serialize_deserialize hdata).1

/-- A prepare with a payload and a command outside the enumeration without
one, under a checksum that sums the bytes. -/
theorem VsrMessage.decoder_inverts_encoder_prepare :
    let H : Bytes → UInt128 := fun bs => ⟨0, bs.foldl (fun n b => n + b.toUInt64) 0⟩
    let prepare : VsrMessage :=
      { header := { command := .prepare, view := 1, op := 7, commit := 6 }, payload := [1, 2] }
    let unknown : VsrMessage := { header := { command := .other 5, replica := 255 } }
    (deserialize H (prepare.serialize H)).isSome = true ∧
      deserialize H (unknown.serialize H) = some (unknown.stamped H) ∧
      (prepare.stamped H).serialize H = prepare.serialize H := by
  intro H prepare unknown
  have hprepare : prepare.header.InRange := by
    constructor <;> decide
  have hunknown : unknown.header.InRange := by
    constructor <;> decide
  have hround := (decoder_inverts_encoder H).1 prepare hprepare (by decide)
  have hother := (decoder_inverts_encoder H).1 unknown hunknown (by decide)
  refine ⟨by rw [hround]; rfl, hother, ?_⟩
  exact (decoder_inverts_encoder H).2 _ _ hround

end VsrKv
