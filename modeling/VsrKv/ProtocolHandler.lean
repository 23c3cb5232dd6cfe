import VsrKv.Framing
import VsrKv.Wire

/-!
# Taking messages off a connection

`ProtocolHandler::handle_raw_data`, for the connection it is called on.
The connection's buffer is `none` once the handler has closed the socket
(a later call then returns at once); the messages are those passed to
`on_message_received_`, in order.

The loop is the reader of `Framing` and `nextFrame` is its view of the
front of the buffer. `nextFrame_stable` is what makes the cutting of the
stream invisible: the size comes from the first 128 bytes, and until the
whole message is there nothing but the size has been looked at.
-/

namespace VsrKv

open Framing LittleEndian

/-- "Max 64KB msg". -/
def maxMessageSize : Nat := 65536

section

variable (H : Bytes → UInt128)

/-- One round of the loop of `handle_raw_data`, up to the callback. -/
def nextFrame (buf : Bytes) : Frame VsrMessage :=
  match readHeader buf with
  | none => .wait -- not enough data for a header
  | some (header, _) =>
      if header.size = 0 ∨ header.size > maxMessageSize then .bad
      else if buf.length < header.size then .wait
      else
        match VsrMessage.deserialize H (buf.take header.size) with
        | some m => .message m header.size
        | none => .bad

/-- The messages one call passes on, and the buffer it leaves. -/
def handleRawData (buffer : Option Bytes) (data : Bytes) : List VsrMessage × Option Bytes :=
  receive (nextFrame H) buffer data

/-- `handle_raw_data` called with each read of the connection in turn. -/
def handleReads (buffer : Option Bytes) (reads : List Bytes) : List VsrMessage × Option Bytes :=
  feed (nextFrame H) buffer reads

theorem handleReads_cons (buffer : Option Bytes) (data : Bytes) (reads : List Bytes) :
    handleReads H buffer (data :: reads)
      = let (ms, buffer') := handleRawData H buffer data
        let (ms', buffer'') := handleReads H buffer' reads
        (ms ++ ms', buffer'') := rfl

end

variable {H : Bytes → UInt128}

/-! ## The front of the buffer -/

/-- The header is read off the first 128 bytes, whatever follows. -/
theorem readHeader_append {h : VsrHeader} {buf rest : Bytes}
    (hread : readHeader buf = some (h, rest)) (more : Bytes) :
    readHeader (buf ++ more) = some (h, rest ++ more) := by
  obtain ⟨rfl, hr⟩ := eq_of_readHeader hread
  rw [List.append_assoc, readHeader_bytes hr]

/-- A decision, once taken, stands. -/
theorem nextFrame_append {buf : Bytes} (h : nextFrame H buf ≠ .wait) (more : Bytes) :
    nextFrame H (buf ++ more) = nextFrame H buf := by
  cases hread : readHeader buf with
  | none => exact absurd (by simp [nextFrame, hread]) h
  | some p =>
      obtain ⟨header, rest⟩ := p
      have hmore := readHeader_append hread more
      by_cases hsize : header.size = 0 ∨ header.size > maxMessageSize
      · simp only [nextFrame, hread, hmore, hsize, if_true]
      · by_cases hlen : buf.length < header.size
        · exact absurd (by simp [nextFrame, hread, hsize, hlen]) h
        · have hlen' : ¬(buf ++ more).length < header.size := by
            rw [List.length_append]
            omega
          have htake : (buf ++ more).take header.size = buf.take header.size :=
            List.take_append_of_le_length (by omega)
          simp only [nextFrame, hread, hmore, hsize, hlen, hlen', htake, if_false]

theorem of_nextFrame {buf : Bytes} {m : VsrMessage} {size : Nat}
    (h : nextFrame H buf = .message m size) :
    0 < size ∧ size ≤ maxMessageSize ∧ size ≤ buf.length
      ∧ VsrMessage.deserialize H (buf.take size) = some m := by
  unfold nextFrame at h
  split at h
  · cases h
  · split at h
    · cases h
    · rename_i hsize
      split at h
      · cases h
      · rename_i hlen
        split at h
        · rename_i hdata
          cases h
          exact ⟨by omega, by omega, by omega, hdata⟩
        · cases h

theorem nextFrame_stable : Stable (nextFrame H) where
  empty := by
    have hread : readHeader [] = none := rfl
    simp [nextFrame, hread]
  size_pos h := (of_nextFrame h).1
  size_le h := (of_nextFrame h).2.2.1
  bad_append more h := by rw [nextFrame_append (by simp [h]) more, h]
  message_append more h := by rw [nextFrame_append (by simp [h]) more, h]

/-- What is taken off the buffer is the encoding of the message. -/
theorem serialize_of_nextFrame {buf : Bytes} {m : VsrMessage} {size : Nat}
    (h : nextFrame H buf = .message m size) :
    m.serialize H = buf.take size ∧ (m.serialize H).length = size := by
  obtain ⟨-, -, hle, hdata⟩ := of_nextFrame h
  obtain ⟨hser, -, -⟩ := VsrMessage.serialize_deserialize hdata
  refine ⟨hser, ?_⟩
  rw [hser, List.length_take_of_le hle]

/-- A whole message in front is taken off, if it is not too long. -/
theorem nextFrame_serialize {m : VsrMessage} (hr : m.header.InRange)
    (hlen : (m.serialize H).length ≤ maxMessageSize) (more : Bytes) :
    nextFrame H (m.serialize H ++ more)
      = .message (m.stamped H) (m.serialize H).length := by
  have hpayload : m.payload.length < 2 ^ 32 - headerSize := by
    rw [VsrMessage.length_serialize, maxMessageSize] at hlen
    simp only [headerSize] at hlen ⊢
    omega
  have hsize : (m.stamped H).header.size = (m.serialize H).length :=
    VsrMessage.size_stamped hpayload
  have hpos : 0 < (m.serialize H).length := by
    rw [VsrMessage.length_serialize, headerSize]
    omega
  have hread : readHeader (m.serialize H ++ more)
      = some ((m.stamped H).header, m.payload ++ more) := by
    rw [VsrMessage.serialize, List.append_assoc, readHeader_bytes (VsrMessage.inRange_stamped hr)]
  have hbad : ¬((m.serialize H).length = 0 ∨ (m.serialize H).length > maxMessageSize) := by omega
  have hwait : ¬(m.serialize H ++ more).length < (m.serialize H).length := by
    rw [List.length_append]
    omega
  simp only [nextFrame, hread, hsize, hbad, hwait, if_false, List.take_left,
    VsrMessage.deserialize_serialize hr hpayload]

/-! ## Streams -/

theorem handleReads_eq_run (reads : List Bytes) :
    handleReads H (some []) reads = run (nextFrame H) reads.flatten := by
  rw [handleReads, feed_eq_run nextFrame_stable nextFrame_stable.empty, List.nil_append]

theorem run_serialized {ms : List VsrMessage}
    (hms : ∀ m ∈ ms, m.header.InRange ∧ (m.serialize H).length ≤ maxMessageSize) :
    run (nextFrame H) (ms.map (VsrMessage.serialize H)).flatten
      = (ms.map (VsrMessage.stamped H), some []) := by
  apply run_frames nextFrame_stable
  intro m hm more
  obtain ⟨hr, hlen⟩ := hms m hm
  exact nextFrame_serialize hr hlen more

/-- The bytes of what is delivered have all been received. -/
theorem length_delivered_le (reads : List Bytes) :
    (((handleReads H (some []) reads).1.map (VsrMessage.serialize H)).flatten).length
      ≤ reads.flatten.length := by
  obtain ⟨rest, hrest⟩ : ∃ rest, reads.flatten
      = ((run (nextFrame H) reads.flatten).1.map (VsrMessage.serialize H)).flatten ++ rest :=
    run_consumes nextFrame_stable
      (fun buf m size hnext => (serialize_of_nextFrame hnext).1) reads.flatten
  have hlen := congrArg List.length hrest
  rw [List.length_append] at hlen
  rw [handleReads_eq_run]
  omega

/-- How TCP cuts the stream makes no difference, for any bytes whatever;
and messages written one after the other come out as they went in. -/
theorem framing_independent_of_reads (H : Bytes → UInt128) :
    (∀ reads reads' : List Bytes, reads.flatten = reads'.flatten →
      handleReads H (some []) reads = handleReads H (some []) reads') ∧
    (∀ (ms : List VsrMessage) (reads : List Bytes),
      (∀ m ∈ ms, m.header.InRange ∧ (m.serialize H).length ≤ 65536) →
      reads.flatten = (ms.map (VsrMessage.serialize H)).flatten →
      handleReads H (some []) reads = (ms.map (VsrMessage.stamped H), some [])) := by
  constructor
  · intro reads reads' hflat
    exact feed_eq_feed nextFrame_stable nextFrame_stable.empty hflat
  · intro ms reads hms hflat
    rw [handleReads_eq_run, hflat, run_serialized hms]

/-- Two messages, byte by byte. -/
theorem framing_independent_of_reads_bytewise :
    let H : Bytes → UInt128 := fun bs => ⟨0, bs.foldl (fun n b => n + b.toUInt64) 0⟩
    let prepare : VsrMessage :=
      { header := { command := .prepare, view := 1, op := 7, commit := 6 }, payload := [1, 2] }
    let commit : VsrMessage := { header := { command := .commit, view := 1, commit := 7 } }
    let stream := prepare.serialize H ++ commit.serialize H
    handleReads H (some []) (stream.map fun b => [b]) = handleReads H (some []) [stream] ∧
      handleReads H (some []) [stream] = ([prepare.stamped H, commit.stamped H], some []) := by
  intro H prepare commit stream
  have hflat : (stream.map fun b => [b]).flatten = stream := by
    rw [← List.flatMap_def, List.flatMap_singleton']
  have hprepare : prepare.header.InRange := by
    constructor <;> decide
  have hcommit : commit.header.InRange := by
    constructor <;> decide
  have hms : ∀ m ∈ [prepare, commit],
      m.header.InRange ∧ (m.serialize H).length ≤ 65536 := by
    simp [hprepare, hcommit, VsrMessage.length_serialize, headerSize, prepare, commit]
  refine ⟨(framing_independent_of_reads H).1 _ _ ?_, ?_⟩
  · rw [hflat, List.flatten_singleton]
  · exact (framing_independent_of_reads H).2 [prepare, commit] [stream] hms (by simp [stream])

end VsrKv
