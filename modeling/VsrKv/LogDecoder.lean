import VsrKv.BoundedReads
import VsrKv.Serialization

/-!
# The log decoder on a machine with 64-bit pointers

`read_pod` and `read_log_from_buffer` as they are compiled: `ptr + n` is
a sum modulo `2 ^ 64`, and it is this sum that is compared with `end`.
`readLogFromBuffer` of `Serialization` compares `n` with the number of
bytes left.

Both are meanings of one program (`readLogFromBuffer_parse`), and they
agree unless the buffer ends before some field and the first such field
would reach past the last address. `payload_size` is read from the
buffer, so whoever fills the buffer can arrange that.

Here a granted request is recorded and answered from memory, whatever its
size. That `assign` throws where no vector is that long is a third outcome
besides `true` and `false`; a handler that meets it is in
`UndecodableVotes`.
-/

namespace VsrKv.Compiled

open BoundedReads LittleEndian

/-! ## The program -/

/-- The map is filled as the entries are read. -/
abbrev Decoder (α : Type) := Reader 64 UInt8 Log α

/-- `size` bytes are copied into a variable of a type that reads them as
`value`. -/
def readPod {τ : Type} (size : BitVec 64) (value : Bytes → τ) : Decoder τ :=
  .take size fun bytes => .done (value bytes)

/-- The two words of a `uint128_t`. -/
def uint128OfBytes (bytes : Bytes) : UInt128 :=
  ⟨UInt64.ofNat (decode (bytes.take 8)), UInt64.ofNat (decode (bytes.drop 8))⟩

/-- The body of the loop, up to `log[op_num] = entry`. -/
def readLogEntry : Decoder (Nat × LogEntry) := do
  let opNum ← readPod 8 decode
  let view ← readPod 4 decode
  let opType ← readPod 1 decode
  let clientId ← readPod 16 uint128OfBytes
  let requestNum ← readPod 4 decode
  let payloadSize ← readPod 8 decode
  -- `payload.assign`, after the check that `read_pod` makes
  let payload ← readPod (BitVec.ofNat 64 payloadSize) id
  return (opNum, { view, opType := .ofNat opType, clientId, requestNum, payload })

def readLogEntries : Nat → Decoder Unit
  | 0 => return ()
  | k + 1 => do
      let (opNum, entry) ← readLogEntry
      .leave (fun log => log.insert opNum entry) (readLogEntries k)

def readLogFromBuffer : Decoder Unit := do
  let logSize ← readPod 8 decode
  readLogEntries logSize

/-! ## Its meaning on a list -/

theorem parses_readPod {τ : Type} (size : BitVec 64) (value : Bytes → τ) :
    (readPod size value).Parses fun buf =>
      if buf.length < size.toNat then none
      else some (value (buf.take size.toNat), buf.drop size.toNat) :=
  Reader.Parses.take size value

theorem parses_readInt {size : BitVec 64} : (readPod size decode).Parses (read size.toNat) :=
  parses_readPod size decode

theorem readUInt128_eq (buf : Bytes) :
    readUInt128 buf
      = if buf.length < 16 then none
        else some (uint128OfBytes (buf.take 16), buf.drop 16) := by
  by_cases h8 : buf.length < 8
  · have h16 : buf.length < 16 := by omega
    simp [readUInt128, LittleEndian.read, h8, h16]
  · by_cases h16 : buf.length < 16
    · have hrest : buf.length - 8 < 8 := by omega
      simp [readUInt128, LittleEndian.read, h8, h16, hrest]
    · have hrest : ¬buf.length - 8 < 8 := by omega
      simp [readUInt128, LittleEndian.read, h8, h16, hrest, uint128OfBytes, List.take_take,
        List.take_drop]

theorem parses_readUInt128 : (readPod 16 uint128OfBytes).Parses readUInt128 := by
  intro buf out
  rw [readUInt128_eq]
  exact parses_readPod 16 uint128OfBytes buf out

theorem parses_readLogEntry : readLogEntry.Parses VsrKv.readLogEntry := by
  unfold VsrKv.readLogEntry
  refine parses_readInt.bind fun opNum _ => ?_
  refine parses_readInt.bind fun view _ => ?_
  refine parses_readInt.bind fun opType _ => ?_
  refine parses_readUInt128.bind fun clientId _ => ?_
  refine parses_readInt.bind fun requestNum _ => ?_
  refine parses_readInt.bind fun payloadSize hread => ?_
  obtain ⟨buf, rest, hread⟩ := hread
  have hsize : (BitVec.ofNat 64 payloadSize).toNat = payloadSize :=
    Nat.mod_eq_of_lt (eq_of_read hread).2
  intro buf out
  rw [Reader.parse_bind, parses_readPod, hsize]
  by_cases h : buf.length < payloadSize
  · simp [h]
  · simp [h]
    rfl

theorem readLogEntries_parse (k : Nat) (buf : Bytes) (log : Log) :
    (readLogEntries k).parse buf log
      = ((VsrKv.readLogEntries k buf log).2.map fun rest => ((), rest),
          (VsrKv.readLogEntries k buf log).1) := by
  induction k generalizing buf log with
  | zero => rfl
  | succ k ih =>
      rw [readLogEntries, Reader.parse_bind, parses_readLogEntry, VsrKv.readLogEntries]
      cases VsrKv.readLogEntry buf with
      | none => rfl
      | some p => exact ih p.2 (log.insert p.1.1 p.1.2)

theorem readLogFromBuffer_parse (buf : Bytes) (log : Log) :
    readLogFromBuffer.parse buf log
      = ((VsrKv.readLogFromBuffer buf log).2.map fun rest => ((), rest),
          (VsrKv.readLogFromBuffer buf log).1) := by
  rw [readLogFromBuffer, Reader.parse_bind, parses_readInt, VsrKv.readLogFromBuffer]
  cases h : LittleEndian.read 8 buf with
  | none => simp [h]
  | some p => simpa [h] using readLogEntries_parse p.1 p.2 log

/-! ## Its runs through a pointer -/

/-- A call on the bytes from `start` to `stop`: whether it returns `true`, and
where it has been. -/
def run (mem : BitVec 64 → UInt8) (start stop : BitVec 64) (log : Log) :
    Bool × Cursor 64 Log :=
  let (result, cursor) := readLogFromBuffer.exec mem stop { ptr := start, out := log }
  (result.isSome, cursor)

/-- The first field that the bytes end before: its address, and the size that
is added to it. -/
def firstMissing (mem : BitVec 64 → UInt8) (start stop : BitVec 64) : Option (Nat × Nat) :=
  readLogFromBuffer.shortfall (remaining mem start stop) start.toNat

theorem run_inside_iff {mem : BitVec 64 → UInt8} {start stop : BitVec 64} (h : start ≤ stop)
    (log : Log) :
    (run mem start stop log).2.Inside start stop
      ↔ ∀ field size, firstMissing mem start stop = some (field, size) →
          field + size < 2 ^ 64 :=
  Reader.inside_iff mem readLogFromBuffer (Cursor.inside_start h log)

/-- Where the sums do not wrap around, a call does what it does on the list of
its bytes. -/
theorem run_eq_readLogFromBuffer {mem : BitVec 64 → UInt8} {start stop : BitVec 64}
    (h : start ≤ stop)
    (hwrap : ∀ field size, firstMissing mem start stop = some (field, size) →
      field + size < 2 ^ 64) (log : Log) :
    (run mem start stop log).1
        = (VsrKv.readLogFromBuffer (remaining mem start stop) log).2.isSome
      ∧ (run mem start stop log).2.out
        = (VsrKv.readLogFromBuffer (remaining mem start stop) log).1 := by
  obtain ⟨hresult, hout⟩ := Reader.exec_eq_parse (r := readLogFromBuffer)
    (c := { ptr := start, out := log }) h hwrap
  rw [readLogFromBuffer_parse] at hresult hout
  refine ⟨?_, hout⟩
  simp [run, hresult]

/-- A call copies from and moves inside its buffer, and returns `true` just if
the buffer holds a whole log. -/
structure StaysInside (mem : BitVec 64 → UInt8) (start stop : BitVec 64) (log : Log) :
    Prop where
  inside : (run mem start stop log).2.Inside start stop
  answer : (run mem start stop log).1
    = (VsrKv.readLogFromBuffer (remaining mem start stop) log).2.isSome

/-- A call goes astray where the first field beyond the bytes would end beyond
the last address, and only there. -/
theorem decoder_stays_inside_iff {mem : BitVec 64 → UInt8} {start stop : BitVec 64}
    (h : start ≤ stop) (log : Log) :
    StaysInside mem start stop log
      ↔ ∀ field size, firstMissing mem start stop = some (field, size) →
          field + size < 2 ^ 64 := by
  constructor
  · intro hinside
    exact (run_inside_iff h log).mp hinside.inside
  · intro hwrap
    exact ⟨(run_inside_iff h log).mpr hwrap, (run_eq_readLogFromBuffer h hwrap log).1⟩

/-! ## A log of one entry without its payload -/

def memoryAt (start : BitVec 64) (bytes : Bytes) : BitVec 64 → UInt8 :=
  fun a => (bytes[(a - start).toNat]?).getD 0

def cutShort (payloadSize : Nat) : Bytes :=
  encode 8 1 ++ encode 8 1 ++ encode 4 0 ++ encode 1 Operation.set.toNat
    ++ writeUInt128 {} ++ encode 4 1 ++ encode 8 payloadSize

theorem decoder_stays_inside_refused :
    StaysInside (memoryAt 4096 (cutShort 1000)) 4096 4145 ∅ := by
  have hmissing : firstMissing (memoryAt 4096 (cutShort 1000)) 4096 4145
      = some (4145, 1000) := by decide +kernel
  refine (decoder_stays_inside_iff (by decide) ∅).mpr fun field size h => ?_
  rw [hmissing] at h
  cases h
  decide

/-- At the end of the buffer, `payload_size = 2 ^ 64 - 1` makes the sum smaller
than the pointer. -/
theorem payload_size_wraps_around :
    ⟨4145, .allOnes 64⟩ ∈ (run (memoryAt 4096 (cutShort (2 ^ 64 - 1))) 4096 4145 ∅).2.granted
      ∧ ¬StaysInside (memoryAt 4096 (cutShort (2 ^ 64 - 1))) 4096 4145 ∅ := by
  have hgranted : ⟨4145, .allOnes 64⟩
      ∈ (run (memoryAt 4096 (cutShort (2 ^ 64 - 1))) 4096 4145 ∅).2.granted := by
    decide +kernel
  refine ⟨hgranted, fun h => ?_⟩
  exact absurd (h.inside.fits _ hgranted) (by decide)

end VsrKv.Compiled
