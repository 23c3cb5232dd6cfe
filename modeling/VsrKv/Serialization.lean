import VsrKv.Types
import VsrKv.LittleEndian

/-!
# Serialising logs and message payloads

`serialization.cpp`, `view_change_messages.cpp` and
`recovery_messages.cpp`. A payload is a run of fixed-width fields
(`write_pod`) followed, where there is one, by the log: a count, then
each entry with its own length-prefixed payload. The acknowledgement
sets stay behind, so a log that has crossed the wire has none.

The decoders fill an out-parameter and answer whether they got to the
end. On a short buffer the parameter keeps what had been read by then,
and since one caller ignores the answer, the model returns both.

They compare sizes with what is left of the buffer, and so refuse every
size that is too large. The source compares sums of pointers, which is the
same unless a sum wraps around (`LogDecoder`): then the size passes the
check, and copying that much throws. Payloads that replicas have written
never come to that; what it means for those of other origin is said in
`UndecodableVotes`.
-/

namespace VsrKv

open LittleEndian

/-! ## Fixed-width fields -/

def Operation.toNat : Operation → Nat
  | .reserved => 0
  | .set => 1
  | .update => 2
  | .get => 3
  | .other k => 4 + k

def Operation.ofNat : Nat → Operation
  | 0 => .reserved
  | 1 => .set
  | 2 => .update
  | 3 => .get
  | n + 4 => .other (Fin.ofNat 252 n)

theorem Operation.ofNat_toNat (o : Operation) : Operation.ofNat o.toNat = o := by
  cases o with
  | other k =>
      have h : 4 + (k : Nat) = (k : Nat) + 4 := Nat.add_comm ..
      simp [Operation.toNat, h, Operation.ofNat]
  | _ => rfl

theorem Operation.toNat_lt (o : Operation) : o.toNat < 256 ^ 1 := by
  cases o with
  | other k => have := k.isLt; simp only [Operation.toNat]; omega
  | _ => simp [Operation.toNat]

def writeUInt128 (n : UInt128) : Bytes :=
  encode 8 n.high.toNat ++ encode 8 n.low.toNat

def readUInt128 (buf : Bytes) : Option (UInt128 × Bytes) := do
  let (high, buf) ← read 8 buf
  let (low, buf) ← read 8 buf
  return (⟨UInt64.ofNat high, UInt64.ofNat low⟩, buf)

theorem readUInt128_write (n : UInt128) (rest : Bytes) :
    readUInt128 (writeUInt128 n ++ rest) = some (n, rest) := by
  have hhi : n.high.toNat < 256 ^ 8 := n.high.toNat_lt
  have hlo : n.low.toNat < 256 ^ 8 := n.low.toNat_lt
  simp [readUInt128, writeUInt128, read_encode hhi, read_encode hlo]

/-! ## Logs -/

/-- One iteration of the loop of `write_log_to_buffer`. -/
def writeLogEntry (opNum : Nat) (entry : LogEntry) : Bytes :=
  encode 8 opNum
    ++ encode 4 entry.view
    ++ encode 1 entry.opType.toNat
    ++ writeUInt128 entry.clientId
    ++ encode 4 entry.requestNum
    ++ encode 8 entry.payload.length
    ++ entry.payload

def writeLogToBuffer (log : Log) : Bytes :=
  encode 8 log.size ++ log.toList.flatMap fun (opNum, entry) => writeLogEntry opNum entry

/-- One iteration of the loop of `read_log_from_buffer`. -/
def readLogEntry (buf : Bytes) : Option ((Nat × LogEntry) × Bytes) := do
  let (opNum, buf) ← read 8 buf
  let (view, buf) ← read 4 buf
  let (opType, buf) ← read 1 buf
  let (clientId, buf) ← readUInt128 buf
  let (requestNum, buf) ← read 4 buf
  let (payloadSize, buf) ← read 8 buf
  if buf.length < payloadSize then none
  else
    let entry : LogEntry :=
      { view, opType := .ofNat opType, clientId, requestNum,
        payload := buf.take payloadSize }
    return ((opNum, entry), buf.drop payloadSize)

/-- The loop of `read_log_from_buffer`: the log as filled so far, and the
rest of the buffer unless an entry was cut short. -/
def readLogEntries : Nat → Bytes → Log → Log × Option Bytes
  | 0, buf, log => (log, some buf)
  | k + 1, buf, log =>
      match readLogEntry buf with
      | none => (log, none)
      | some ((opNum, entry), rest) => readLogEntries k rest (log.insert opNum entry)

def readLogFromBuffer (buf : Bytes) (log : Log) : Log × Option Bytes :=
  match read 8 buf with
  | none => (log, none)
  | some (logSize, rest) => readLogEntries logSize rest log

/-! ## Payloads -/

structure DoViewChangePayload where
  lastNormalView : Nat
  log : Log := ∅

def DoViewChangePayload.serialize (p : DoViewChangePayload) : Bytes :=
  encode 4 p.lastNormalView ++ writeLogToBuffer p.log

def DoViewChangePayload.deserialize (data : Bytes) (msg : DoViewChangePayload) :
    Bool × DoViewChangePayload :=
  match read 4 data with
  | none => (false, msg)
  | some (lastNormalView, buf) =>
      let (log, rest) := readLogFromBuffer buf msg.log
      (rest.isSome, { lastNormalView, log })

structure StartViewPayload where
  log : Log := ∅

def StartViewPayload.serialize (p : StartViewPayload) : Bytes := writeLogToBuffer p.log

def StartViewPayload.deserialize (data : Bytes) (msg : StartViewPayload) :
    Bool × StartViewPayload :=
  let (log, rest) := readLogFromBuffer data msg.log
  (rest.isSome, { log })

structure RecoveryRequestPayload where
  nonce : UInt128

def RecoveryRequestPayload.serialize (p : RecoveryRequestPayload) : Bytes :=
  writeUInt128 p.nonce

/-- The payload is one field, so a failed read leaves nothing behind. -/
def RecoveryRequestPayload.deserialize (data : Bytes) : Option RecoveryRequestPayload :=
  (readUInt128 data).map fun (nonce, _) => { nonce }

structure RecoveryResponsePayload where
  nonce : UInt128 := {}
  log : Log := ∅

def RecoveryResponsePayload.serialize (p : RecoveryResponsePayload) : Bytes :=
  writeUInt128 p.nonce ++ writeLogToBuffer p.log

def RecoveryResponsePayload.deserialize (data : Bytes) (msg : RecoveryResponsePayload) :
    Bool × RecoveryResponsePayload :=
  match readUInt128 data with
  | none => (false, msg)
  | some (nonce, buf) =>
      let (log, rest) := readLogFromBuffer buf msg.log
      (rest.isSome, { nonce, log })

/-! ## What can be decoded

Whatever the bytes, the fields of a decoded entry are within their
types. -/

/-- Keys and fields of their C++ types. -/
def LogFits (log : Log) : Prop := ∀ (n : Nat) (e : LogEntry), log[n]? = some e →
  n < 2 ^ 64 ∧ e.InRange

theorem logFits_empty : LogFits ∅ := by
  intro n e he
  simp at he

theorem LogFits.insert {log : Log} (h : LogFits log) {n : Nat} {e : LogEntry} (hn : n < 2 ^ 64)
    (he : e.InRange) : LogFits (log.insert n e) := by
  intro m e' hm
  rw [Std.ExtTreeMap.getElem?_insert] at hm
  split at hm
  · rename_i heq
    obtain rfl : n = m := by simpa using heq
    obtain rfl := Option.some.inj hm
    exact ⟨hn, he⟩
  · exact h m e' hm

theorem readLogEntry_fits {buf rest : Bytes} {n : Nat} {e : LogEntry}
    (h : readLogEntry buf = some ((n, e), rest)) : n < 2 ^ 64 ∧ e.InRange := by
  simp only [readLogEntry, Option.bind_eq_bind, Option.bind_eq_some_iff, Prod.exists] at h
  obtain ⟨opNum, b₁, h₁, view, b₂, h₂, opType, b₃, h₃, client, b₄, h₄, request, b₅, h₅,
    size, b₆, h₆, h⟩ := h
  split at h
  · cases h
  · cases h
    have hop := (eq_of_read h₁).2
    have hview := (eq_of_read h₂).2
    have hrequest := (eq_of_read h₅).2
    have hsize := (eq_of_read h₆).2
    refine ⟨by omega, ⟨by show view < 2 ^ 32; omega, by show request < 2 ^ 32; omega, ?_⟩⟩
    have hlen := List.length_take_le size b₆
    show (b₆.take size).length < 2 ^ 64
    omega

theorem readLogEntries_fits {k : Nat} {buf : Bytes} {log : Log} (h : LogFits log) :
    LogFits (readLogEntries k buf log).1 := by
  induction k generalizing buf log with
  | zero => exact h
  | succ k ih =>
      rw [readLogEntries]
      split
      · exact h
      · rename_i n e rest hentry
        obtain ⟨hn, he⟩ := readLogEntry_fits hentry
        exact ih (h.insert hn he)

theorem readLog_fits {buf : Bytes} {log : Log} (h : LogFits log) :
    LogFits (readLogFromBuffer buf log).1 := by
  unfold readLogFromBuffer
  split
  · exact h
  · exact readLogEntries_fits h

theorem DoViewChangePayload.deserialize_fits (data : Bytes) (n : Nat) :
    LogFits (deserialize data { lastNormalView := n }).2.log := by
  unfold deserialize
  split
  · exact logFits_empty
  · exact readLog_fits logFits_empty

theorem StartViewPayload.deserialize_fits (data : Bytes) :
    LogFits (deserialize data {}).2.log := by
  unfold deserialize
  exact readLog_fits logFits_empty

theorem RecoveryResponsePayload.deserialize_fits (data : Bytes) :
    LogFits (deserialize data {}).2.log := by
  unfold deserialize
  split
  · exact logFits_empty
  · exact readLog_fits logFits_empty

/-! ## Round trips -/

/-- A log as it arrives: the same entries without their acknowledgements. -/
def stripLog (log : Log) : Log := log.map fun _ e => e.strip

@[simp] theorem getElem?_stripLog (log : Log) (n : Nat) :
    (stripLog log)[n]? = (log[n]?).map LogEntry.strip := by
  simp [stripLog]

/-- The values a log can hold in memory: keys and fields of their C++
types, and no more entries than a `size_t` counts. -/
structure LogInRange (log : Log) : Prop where
  size : log.size < 2 ^ 64
  key : ∀ (n : Nat) (e : LogEntry), log[n]? = some e → n < 2 ^ 64
  entry : ∀ (n : Nat) (e : LogEntry), log[n]? = some e → e.InRange

theorem readLogEntry_write {opNum : Nat} {entry : LogEntry} (hk : opNum < 2 ^ 64)
    (he : entry.InRange) (rest : Bytes) :
    readLogEntry (writeLogEntry opNum entry ++ rest)
      = some ((opNum, entry.strip), rest) := by
  have hop : opNum < 256 ^ 8 := by omega
  have hview : entry.view < 256 ^ 4 := by have := he.view; omega
  have hreq : entry.requestNum < 256 ^ 4 := by have := he.requestNum; omega
  have hlen : entry.payload.length < 256 ^ 8 := by have := he.payload; omega
  simp [readLogEntry, writeLogEntry, List.append_assoc, read_encode hop,
    read_encode hview, read_encode entry.opType.toNat_lt, readUInt128_write,
    read_encode hreq, read_encode hlen, Operation.ofNat_toNat, LogEntry.strip]

theorem readLogEntries_write {l : List (Nat × LogEntry)}
    (h : ∀ p ∈ l, p.1 < 2 ^ 64 ∧ p.2.InRange) (rest : Bytes) (acc : Log) :
    readLogEntries l.length ((l.flatMap fun p => writeLogEntry p.1 p.2) ++ rest) acc
      = (acc.insertMany (l.map fun p => (p.1, p.2.strip)), some rest) := by
  induction l generalizing acc with
  | nil => simp [readLogEntries]
  | cons p l ih =>
      obtain ⟨hk, he⟩ := h p (List.mem_cons_self ..)
      have hl : ∀ q ∈ l, q.1 < 2 ^ 64 ∧ q.2.InRange :=
        fun q hq => h q (List.mem_cons_of_mem _ hq)
      simp only [List.length_cons, readLogEntries, List.flatMap_cons, List.append_assoc,
        readLogEntry_write hk he, List.map_cons, Std.ExtTreeMap.insertMany_cons]
      exact ih hl (acc.insert p.1 p.2.strip)

/-- Rebuilding a map from its own listing gives the stripped map. -/
theorem insertMany_toList_strip (log : Log) :
    (∅ : Log).insertMany (log.toList.map fun p => (p.1, p.2.strip)) = stripLog log := by
  have hdistinct : (log.toList.map fun p => (p.1, p.2.strip)).Pairwise
      (fun a b => ¬compare a.1 b.1 = .eq) :=
    List.pairwise_map.mpr Std.ExtTreeMap.distinct_keys_toList
  refine Std.ExtTreeMap.ext_getElem? ?_
  intro n
  rw [getElem?_stripLog]
  cases hn : log[n]? with
  | some e =>
      have hmem : (n, e.strip) ∈ log.toList.map fun p => (p.1, p.2.strip) :=
        List.mem_map.mpr ⟨(n, e), Std.ExtTreeMap.mem_toList_iff_getElem?_eq_some.mpr hn, rfl⟩
      exact Std.ExtTreeMap.getElem?_insertMany_list_of_mem (by simp) hdistinct hmem
  | none =>
      rw [Std.ExtTreeMap.getElem?_insertMany_list_of_contains_eq_false]
      · simp
      · have hnot : ∀ e, (n, e) ∉ log.toList := fun e he => by
          have := Std.ExtTreeMap.mem_toList_iff_getElem?_eq_some.mp he
          simp [hn] at this
        simpa using hnot

/-- Reading a written log inserts its entries and leaves exactly what follows
it in the buffer. -/
theorem readLogFromBuffer_write {log : Log} (h : LogInRange log) (into : Log) (rest : Bytes) :
    readLogFromBuffer (writeLogToBuffer log ++ rest) into
      = (into.insertMany (log.toList.map fun p => (p.1, p.2.strip)), some rest) := by
  have hsize : log.size < 256 ^ 8 := by have := h.size; omega
  have hentries : ∀ p ∈ log.toList, p.1 < 2 ^ 64 ∧ p.2.InRange := fun p hp =>
    have hget := Std.ExtTreeMap.mem_toList_iff_getElem?_eq_some.mp hp
    ⟨h.key p.1 p.2 hget, h.entry p.1 p.2 hget⟩
  simp only [readLogFromBuffer, writeLogToBuffer, List.append_assoc, read_encode hsize]
  rw [← Std.ExtTreeMap.length_toList, readLogEntries_write hentries]

/-- Into a fresh log these are all its entries. -/
theorem readLog_writeLog {log : Log} (h : LogInRange log) (rest : Bytes) :
    readLogFromBuffer (writeLogToBuffer log ++ rest) ∅ = (stripLog log, some rest) := by
  rw [readLogFromBuffer_write h, insertMany_toList_strip]

theorem DoViewChangePayload.deserialize_serialize {p : DoViewChangePayload}
    (hv : p.lastNormalView < 2 ^ 32) (h : LogInRange p.log) (n : Nat) :
    deserialize p.serialize { lastNormalView := n }
      = (true, { lastNormalView := p.lastNormalView, log := stripLog p.log }) := by
  have hv' : p.lastNormalView < 256 ^ 4 := by omega
  have hlog := readLog_writeLog h []
  rw [List.append_nil] at hlog
  simp [deserialize, serialize, read_encode hv', hlog]

theorem StartViewPayload.deserialize_serialize {p : StartViewPayload}
    (h : LogInRange p.log) :
    deserialize p.serialize {} = (true, { log := stripLog p.log }) := by
  have hlog := readLog_writeLog h []
  rw [List.append_nil] at hlog
  simp [deserialize, serialize, hlog]

theorem RecoveryRequestPayload.deserialize_serialize (p : RecoveryRequestPayload) :
    deserialize p.serialize = some p := by
  have hnonce := readUInt128_write p.nonce []
  rw [List.append_nil] at hnonce
  simp [deserialize, serialize, hnonce]

theorem RecoveryResponsePayload.deserialize_serialize {p : RecoveryResponsePayload}
    (h : LogInRange p.log) :
    deserialize p.serialize {} = (true, { nonce := p.nonce, log := stripLog p.log }) := by
  have hlog := readLog_writeLog h []
  rw [List.append_nil] at hlog
  simp [deserialize, serialize, readUInt128_write, hlog]

/-- Each of the three payloads that carry a log comes back as it was, but for
the acknowledgements, and a written log ends where the reader stops. -/
theorem log_payloads_round_trip {log : Log} (h : LogInRange log) {lastNormalView : Nat}
    (hview : lastNormalView < 2 ^ 32) (nonce : UInt128) (uninitialized : Nat) :
    DoViewChangePayload.deserialize (DoViewChangePayload.serialize { lastNormalView, log })
        { lastNormalView := uninitialized }
      = (true, { lastNormalView, log := stripLog log })
    ∧ StartViewPayload.deserialize (StartViewPayload.serialize { log }) {}
      = (true, { log := stripLog log })
    ∧ RecoveryResponsePayload.deserialize (RecoveryResponsePayload.serialize { nonce, log }) {}
      = (true, { nonce, log := stripLog log })
    ∧ (∀ n : Nat, (stripLog log)[n]? = (log[n]?).map ({ · with prepareOkAcks := ∅ }))
    ∧ ∀ (into : Log) (rest : Bytes),
      (readLogFromBuffer (writeLogToBuffer log ++ rest) into).2 = some rest := by
  refine ⟨?_, ?_, ?_, ?_, ?_⟩
  · exact DoViewChangePayload.deserialize_serialize (p := { lastNormalView, log }) hview h _
  · exact StartViewPayload.deserialize_serialize (p := { log }) h
  · exact RecoveryResponsePayload.deserialize_serialize (p := { nonce, log }) h
  · exact getElem?_stripLog log
  · intro into rest
    rw [readLogFromBuffer_write h]

/-- Op 2 of a primary's log, acknowledged by two replicas, with three further
bytes behind it. -/
theorem log_payloads_round_trip_acknowledged :
    let entry : LogEntry :=
      { view := 1, opType := .set, clientId := ⟨0, 7⟩, requestNum := 3, payload := [107, 32, 118],
        prepareOkAcks := {0, 1} }
    let log : Log := (∅ : Log).insert 2 entry
    LogInRange log
      ∧ StartViewPayload.deserialize (StartViewPayload.serialize { log }) {}
        = (true, { log := stripLog log })
      ∧ (readLogFromBuffer (writeLogToBuffer log ++ [1, 2, 3]) ∅).2 = some [1, 2, 3] := by
  intro entry log
  have hfits : LogFits log :=
    logFits_empty.insert (by norm_num) ⟨by decide, by decide, by decide⟩
  have hrange : LogInRange log :=
    ⟨by decide, fun n e he => (hfits n e he).1, fun n e he => (hfits n e he).2⟩
  obtain ⟨-, hstart, -, -, hrest⟩ :=
    log_payloads_round_trip hrange (show 1 < 2 ^ 32 by norm_num) ⟨0, 9⟩ 0
  exact ⟨hrange, hstart, hrest ∅ [1, 2, 3]⟩

end VsrKv
