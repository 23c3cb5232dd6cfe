import VsrKv.Commits
import VsrKv.KeyValue

/-!
# Rebuilding the key-value map

A replica that completes its recovery executes the log it has adopted
from the beginning: the execution counter is set to 0 and the client
table is emptied. The key-value map is not. What it held before shows
through wherever the log does not overwrite it, and a `GET` that comes
before the first `SET` of its key is answered from a map that has seen
what comes after it.

`recovery_rebuilds_iff` says when that does not matter. The client table
keeps one answer a client, that to its last executed request
(`Cached`), so a `GET` that is not the last may have been misread without
leaving a trace.
-/

namespace VsrKv

open Assignments Replica

/-! ## The map before and the answers after -/

/-- Some entry of `l` is a `SET` of `key`. -/
def Sets (l : List LogEntry) (key : Bytes) : Prop := ∃ e ∈ l, e.opType = .set ∧ e.keyWord = key

theorem sets_iff_mem_bindings {l : List LogEntry} {key : Bytes} :
    Sets l key ↔ ∃ v, (key, v) ∈ bindings l := by
  constructor
  · rintro ⟨e, he, hset, rfl⟩
    exact ⟨e.valueWord, List.mem_map.mpr ⟨e, List.mem_filter.mpr ⟨he, by simpa using hset⟩, rfl⟩⟩
  · rintro ⟨v, hv⟩
    obtain ⟨e, he, heq⟩ := List.mem_map.mp hv
    obtain ⟨he, hset⟩ := List.mem_filter.mp he
    exact ⟨e, he, by simpa using hset, congrArg Prod.fst heq⟩

theorem mapAfter_eq_iff {m : StdMap Bytes Bytes} {l : List LogEntry} :
    mapAfter m l = mapAfter ∅ l ↔ ∀ key ∈ m, Sets l key := by
  rw [mapAfter_eq_assign, mapAfter_eq_assign, assign_eq_assign_empty_iff]
  simp only [sets_iff_mem_bindings]

/-- A `GET` is answered as if the map had been empty, unless it reads an old
value. -/
theorem answer_eq_iff {m : StdMap Bytes Bytes} {l : List LogEntry} {e : LogEntry} :
    answer m l e = answer ∅ l e
      ↔ (e.opType = .get → ∀ v, m[e.keyWord]? = some v → v ≠ notFound → Sets l e.keyWord) := by
  unfold answer
  split
  · rename_i hset
    simp [hset]
  · rename_i hget
    simp only [hget, true_implies, Std.ExtTreeMap.getElem?_empty, Option.or_none]
    cases hlatest : latest (bindings l) e.keyWord with
    | some v =>
        have hsets : Sets l e.keyWord := by
          rw [sets_iff_mem_bindings]
          by_contra hnone
          rw [latest_eq_none_iff.mpr (not_exists.mp hnone)] at hlatest
          cases hlatest
        exact iff_of_true rfl fun _ _ _ => hsets
    | none =>
        have hsets : ¬Sets l e.keyWord := by
          rw [sets_iff_mem_bindings, not_exists]
          exact latest_eq_none_iff.mp hlatest
        rw [Option.none_or]
        cases m[e.keyWord]? with
        | none => simp
        | some v => simp [hsets]
  · rename_i hother
    exact iff_of_true rfl fun hget => absurd hget hother

/-! ## What the client table remembers -/

/-- The entry at index `k` is the last of its client in `l`. -/
def IsLast (l : List LogEntry) (k : Nat) (e : LogEntry) : Prop :=
  l[k]? = some e ∧ ∀ j e', k < j → l[j]? = some e' → e'.clientId ≠ e.clientId

theorem isLast_concat {l : List LogEntry} {x : LogEntry} {k : Nat} {e : LogEntry} :
    IsLast (l ++ [x]) k e
      ↔ k = l.length ∧ e = x ∨ IsLast l k e ∧ e.clientId ≠ x.clientId := by
  constructor
  · rintro ⟨he, hlast⟩
    rcases Nat.lt_or_ge k l.length with hk | hk
    · rw [List.getElem?_append_left hk] at he
      refine Or.inr ⟨⟨he, fun j e' hj he' => ?_⟩, ?_⟩
      · refine hlast j e' hj ?_
        rw [List.getElem?_append_left (List.getElem?_eq_some_iff.mp he').1]
        exact he'
      · exact (hlast l.length x hk (by simp)).symm
    · have hlt := (List.getElem?_eq_some_iff.mp he).1
      rw [List.length_append, List.length_singleton] at hlt
      obtain rfl : k = l.length := by omega
      exact Or.inl ⟨rfl, by simpa using he.symm⟩
  · rintro (⟨rfl, rfl⟩ | ⟨⟨he, hlast⟩, hne⟩)
    · refine ⟨by simp, fun j e' hj he' => ?_⟩
      have hlt := (List.getElem?_eq_some_iff.mp he').1
      rw [List.length_append, List.length_singleton] at hlt
      omega
    · have hk := (List.getElem?_eq_some_iff.mp he).1
      refine ⟨by rw [List.getElem?_append_left hk]; exact he, fun j e' hj he' => ?_⟩
      rcases Nat.lt_or_ge j l.length with hlt | hge
      · rw [List.getElem?_append_left hlt] at he'
        exact hlast j e' hj he'
      · have hlt := (List.getElem?_eq_some_iff.mp he').1
        rw [List.length_append, List.length_singleton] at hlt
        obtain rfl : j = l.length := by omega
        obtain rfl : x = e' := by simpa using he'
        exact hne.symm

theorem IsLast.of_take {l : List LogEntry} {n k : Nat} {e : LogEntry}
    (h : IsLast (l.take n) k e) :
    k < n ∧ l[k]? = some e ∧ (l.take n).take k = l.take k := by
  have he := h.1
  rw [List.getElem?_take] at he
  split at he
  · rename_i hk
    exact ⟨hk, he, by rw [List.take_take, Nat.min_eq_left hk.le]⟩
  · cases he

/-- Of the executed entries `l`, the table has the last one of each client with
its answer, and it has nothing else as executed. -/
structure Cached (m : StdMap Bytes Bytes) (l : List LogEntry) (s : ReplicaState) : Prop where
  last : ∀ k e, IsLast l k e → s.clientEntry e.clientId
    = { requestNumber := e.requestNum, executed := true, result := answer m (l.take k) e }
  only : ∀ client, (s.clientEntry client).executed = true →
    ∃ k e, IsLast l k e ∧ e.clientId = client

section

variable {m : StdMap Bytes Bytes} {l : List LogEntry} {s s' : ReplicaState} {effs : List Effect}

theorem Cached.turn {e : LogEntry} (h : Cached m l s) (n : Nat)
    (hresult : turnResult s e = some (answer m l e.strip)) :
    Cached m (l ++ [e.strip]) (turnState s n e) where
  last k e' hlast := by
    rw [clientEntry_turnState, hresult]
    rcases isLast_concat.mp hlast with ⟨rfl, rfl⟩ | ⟨hlast, hne⟩
    · rw [List.take_left]
      exact if_pos rfl
    · have hk := (List.getElem?_eq_some_iff.mp hlast.1).1
      rw [List.take_append_of_le_length hk.le, ← h.last k e' hlast]
      exact if_neg hne
  only client hexec := by
    rw [clientEntry_turnState, hresult] at hexec
    by_cases hclient : client = e.clientId
    · exact ⟨l.length, e.strip, isLast_concat.mpr (Or.inl ⟨rfl, rfl⟩), hclient.symm⟩
    · simp only [if_neg hclient] at hexec
      obtain ⟨k, e', hlast, rfl⟩ := h.only client hexec
      exact ⟨k, e', isLast_concat.mpr (Or.inr ⟨hlast, hclient⟩), rfl⟩

theorem Replica.Executed.cached (hexec : Executed s s' effs) (hreplayed : Replayed m l s)
    (h : Cached m (l.take s.lastExecutedOp) s) (hlog : Represents s.log s.op l)
    (hdistinct : (l.map LogEntry.key).Nodup) : Cached m (l.take s'.lastExecutedOp) s' := by
  induction hexec with
  | refl => exact h
  | @turn s₁ effs e hexec hlt hlog' replies hreplies ih =>
      have he : l[s₁.lastExecutedOp]? = some e.strip := by
        obtain ⟨n, t, mm, rfl⟩ := hexec.state
        exact hlog.entryAt_some hlog'
      obtain ⟨hresult, -⟩ := (hexec.replayed hreplayed hlog hdistinct).1.turn hdistinct he
      have hnext : l.take (s₁.lastExecutedOp + 1) = l.take s₁.lastExecutedOp ++ [e.strip] := by
        rw [List.take_add_one, he]
        rfl
      rw [turnState_lastExecutedOp, hnext]
      exact ih.turn _ hresult

end

/-! ## Completing a recovery -/

/-- The log a completed recovery adopts. -/
def recoveredLog (s : ReplicaState) (msg : VsrMessage) : Log :=
  (RecoveryResponsePayload.deserialize (bestResponse s msg).payload {}).2.log

/-- With `msg` there is a quorum of responses to the replica's own nonce, and
the log of the best is `l`, with no request in it twice. -/
structure CompletesWith (s : ReplicaState) (msg : VsrMessage) (l : List LogEntry) : Prop where
  status : s.status = .recovery
  response : ∃ payload, RecoveryResponsePayload.deserialize msg.payload {} = (true, payload)
    ∧ payload.nonce = s.recoveryNonce
  quorum : s.faultToleranceF + 1 ≤ (s.recoveryResponses ++ [msg]).length
  log : Represents (recoveredLog s msg) (bestResponse s msg).header.op l
  distinct : (l.map LogEntry.key).Nodup

/-- The map is that of the committed entries of `l` from nothing, and so are
the answers on record. -/
structure RebuiltFrom (l : List LogEntry) (s : ReplicaState) : Prop where
  machine : s.stateMachine = mapAfter ∅ (l.take (min s.commit s.op))
  table : ∀ client, (s.clientEntry client).executed = true →
    ∃ k e, k < min s.commit s.op ∧ l[k]? = some e
      ∧ e.key = (client, (s.clientEntry client).requestNumber)
      ∧ (s.clientEntry client).result = answer ∅ (l.take k) e

/-- Executing `l` leaves nothing to be seen of what was in `m`: each of its keys
is set, and no client's last entry reads one before it is set. -/
structure Covers (l : List LogEntry) (m : StdMap Bytes Bytes) : Prop where
  keys : ∀ key ∈ m, Sets l key
  reads : ∀ k e, IsLast l k e → e.opType = .get →
    ∀ v, m[e.keyWord]? = some v → v ≠ notFound → Sets (l.take k) e.keyWord

section

variable {l : List LogEntry} {r : Replica} {im : InboundMessage}

theorem handleRecoveryResponse_state {payload : RecoveryResponsePayload}
    (hpayload : RecoveryResponsePayload.deserialize im.message.payload {} = (true, payload))
    (hnonce : payload.nonce = r.state.recoveryNonce)
    (hquorum : r.state.faultToleranceF + 1
      ≤ (r.state.recoveryResponses ++ [im.message]).length) :
    (r.handleRecoveryResponse im).state
      = { (executeCommitedOps
            { r with state := adoptResponse r.state (bestResponse r.state im.message) }).state with
          recoveryNonce := {}
          recoveryResponses := [] } := by
  obtain ⟨first, rest, hlist⟩ : ∃ first rest,
      r.state.recoveryResponses ++ [im.message] = first :: rest :=
    List.exists_cons_of_ne_nil (by simp)
  rw [hlist, List.length_cons] at hquorum
  unfold handleRecoveryResponse
  simp only [hpayload, hnonce, ne_eq, not_true_eq_false, if_false, hlist]
  rw [if_pos hquorum, bestResponse_eq hlist]

/-- Everything that is committed and logged is executed. -/
theorem executeCommitedOps_lastExecutedOp (hlog : Represents r.state.log r.state.op l)
    (hcommit : r.state.lastExecutedOp ≤ r.state.commit)
    (hreached : r.executeCommitedOps.state.lastExecutedOp ≤ l.length) :
    r.executeCommitedOps.state.lastExecutedOp = min r.state.commit r.state.op := by
  obtain ⟨effs, -, hexec⟩ := executeCommitedOps_spec r
  have hle := hexec.le_commit hcommit
  obtain ⟨n, t, m, hstate⟩ := hexec.state
  have hop := hlog.op
  rcases executeLoop_lastExecutedOp (r.state.commit - r.state.lastExecutedOp) r with hall | hstop
  · have hall : r.executeCommitedOps.state.lastExecutedOp
        = r.state.lastExecutedOp + (r.state.commit - r.state.lastExecutedOp) := hall
    omega
  · have hstop : r.executeCommitedOps.state.log[r.executeCommitedOps.state.lastExecutedOp + 1]?
        = none := hstop
    have hnot : r.executeCommitedOps.state.lastExecutedOp + 1 ∉ r.state.log := by
      rw [show r.executeCommitedOps.state.log = r.state.log by rw [hstate]] at hstop
      rw [Std.ExtTreeMap.mem_iff_isSome_getElem?, hstop]
      exact Bool.false_ne_true
    rw [hlog.gapFree] at hnot
    rw [show r.executeCommitedOps.state.commit = r.state.commit by rw [hstate]] at hle
    omega

/-- The adopted log is executed from its beginning, over the old map. -/
theorem CompletesWith.executed (h : CompletesWith r.state im.message l) :
    ∃ n, n = min (bestResponse r.state im.message).header.commit
        (bestResponse r.state im.message).header.op
      ∧ n = min (r.handleRecoveryResponse im).state.commit (r.handleRecoveryResponse im).state.op
      ∧ (r.handleRecoveryResponse im).state.stateMachine
        = mapAfter r.state.stateMachine (l.take n)
      ∧ Cached r.state.stateMachine (l.take n) (r.handleRecoveryResponse im).state := by
  let adopted := adoptResponse r.state (bestResponse r.state im.message)
  obtain ⟨payload, hpayload, hnonce⟩ := h.response
  have hstate := handleRecoveryResponse_state hpayload hnonce h.quorum
  obtain ⟨effs, -, hexec⟩ := executeCommitedOps_spec { r with state := adopted }
  have hreplayed : Replayed r.state.stateMachine l adopted :=
    { reached := Nat.zero_le _
      machine := rfl
      table := fun client hexec => by
        rw [executed_adoptResponse] at hexec
        cases hexec }
  have hcached : Cached r.state.stateMachine (l.take adopted.lastExecutedOp) adopted :=
    { last := fun k e hlast => by
        rw [show adopted.lastExecutedOp = 0 from rfl, List.take_zero] at hlast
        exact absurd hlast.1 (by simp)
      only := fun client hexec => by
        rw [executed_adoptResponse] at hexec
        cases hexec }
  obtain ⟨hreplayed', -⟩ := hexec.replayed hreplayed h.log h.distinct
  have hcached' := hexec.cached hreplayed hcached h.log h.distinct
  have hdone := executeCommitedOps_lastExecutedOp (r := { r with state := adopted }) h.log
    (Nat.zero_le _) hreplayed'.reached
  obtain ⟨_, _, _, hsame⟩ := hexec.state
  refine ⟨_, hdone, ?_, ?_, ?_⟩
  · rw [hstate, hdone, hsame]
  · rw [hstate]
    exact hreplayed'.machine
  · rw [hstate]
    exact ⟨hcached'.last, hcached'.only⟩

end

/-- Recovery rebuilds the map and the recorded answers from the adopted log if
and only if what is executed of it covers whatever the map held before. -/
theorem recovery_rebuilds_iff {r : Replica} {im : InboundMessage} {l : List LogEntry}
    (h : CompletesWith r.state im.message l) :
    RebuiltFrom l (r.handleRecoveryResponse im).state
      ↔ Covers (l.take (min (bestResponse r.state im.message).header.commit
        (bestResponse r.state im.message).header.op)) r.state.stateMachine := by
  obtain ⟨n, hn, hn', hmachine, hcached⟩ := h.executed
  rw [← hn]
  constructor
  · intro hrebuilt
    refine ⟨?_, fun k e hlast => ?_⟩
    · rw [← mapAfter_eq_iff, ← hmachine, hrebuilt.machine, ← hn']
    · have hentry := hcached.last k e hlast
      obtain ⟨k', e', -, he', hkey, hresult⟩ := hrebuilt.table e.clientId (by rw [hentry])
      obtain ⟨-, he, htake⟩ := hlast.of_take
      rw [hentry] at hkey hresult
      -- the request is in the log once, so the two entries are one
      have hlt : k' < (l.map LogEntry.key).length := by
        rw [List.length_map]
        exact (List.getElem?_eq_some_iff.mp he').1
      obtain rfl : k' = k := (List.getElem?_inj hlt h.distinct).mp (by
        rw [List.getElem?_map, List.getElem?_map, he, he', Option.map_some, Option.map_some, hkey]
        rfl)
      obtain rfl : e' = e := Option.some.inj (he'.symm.trans he)
      rw [← htake] at hresult
      exact answer_eq_iff.mp hresult
  · intro hcovers
    refine ⟨?_, fun client hexec => ?_⟩
    · rw [← hn', hmachine, mapAfter_eq_iff]
      exact hcovers.keys
    · obtain ⟨k, e, hlast, rfl⟩ := hcached.only client hexec
      obtain ⟨hk, he, htake⟩ := hlast.of_take
      refine ⟨k, e, hn' ▸ hk, he, ?_, ?_⟩
      · rw [hcached.last k e hlast]
        rfl
      · rw [hcached.last k e hlast, ← htake]
        exact answer_eq_iff.mpr (hcovers.reads k e hlast)

/-- Replica 1 of three in recovery, with `m` left in its map and one response. -/
def recovering (m : StdMap Bytes Bytes) (response : VsrMessage) : Replica where
  state :=
    { ReplicaState.new 1 (clusterOf 3) with
      status := .recovery
      stateMachine := m
      recoveryNonce := { low := 9 }
      recoveryResponses := [response] }

/-- The response of a replica that has executed the whole of `log`. -/
def responseOf (replica : Nat) (log : Log) : VsrMessage :=
  recoveryResponseMessage
    { ReplicaState.new replica (clusterOf 3) with
      log, op := log.size, commit := log.size } { low := 9 }

theorem completesWith_recovering {log : Log} {l : List LogEntry} (m : StdMap Bytes Bytes)
    (hlog : Represents log log.size l) (hrange : LogInRange log)
    (hdistinct : (l.map LogEntry.key).Nodup) :
    CompletesWith (recovering m (responseOf 0 log)).state (responseOf 2 log) l := by
  have hdec (i : Nat) : RecoveryResponsePayload.deserialize (responseOf i log).payload {}
      = (true, { nonce := { low := 9 }, log := stripLog log }) :=
    RecoveryResponsePayload.deserialize_serialize (p := { nonce := { low := 9 }, log }) hrange
  have hbest : bestResponse (recovering m (responseOf 0 log)).state (responseOf 2 log)
      = responseOf 0 log := by
    show betterResponse (responseOf 0 log) (responseOf 2 log) = _
    exact (if_neg (Nat.lt_irrefl _)).trans (if_neg fun h => Nat.lt_irrefl _ h.2)
  refine ⟨rfl, ⟨_, hdec 2, rfl⟩, Nat.le_refl 2, ?_, hdistinct⟩
  rw [recoveredLog, hbest, hdec]
  exact hlog.strip

def readEntry : LogEntry where
  view := 0
  opType := .get
  clientId := { low := 1 }
  requestNum := 1
  payload := [97]

def writeEntry : LogEntry where
  view := 0
  opType := .set
  clientId := { low := 2 }
  requestNum := 1
  payload := [97, 32, 98]

theorem entries_inRange : ∀ e ∈ [readEntry, writeEntry], e.InRange := by
  intro e he
  simp only [List.mem_cons, List.not_mem_nil, or_false] at he
  rcases he with rfl | rfl <;> exact ⟨by decide, by decide, by decide⟩

def boundTo (v : Bytes) : StdMap Bytes Bytes := (∅ : StdMap Bytes Bytes).insert [97] v

def writtenLog : Log := (∅ : Log).insert 1 writeEntry

def readThenWritten : Log := ((∅ : Log).insert 1 readEntry).insert 2 writeEntry

/-- The one key of the old map is set again. -/
theorem recovery_rebuilds_overwritten :
    RebuiltFrom [writeEntry]
      ((recovering (boundTo [99]) (responseOf 0 writtenLog)).handleRecoveryResponse
        { connection := .peer 2, message := responseOf 2 writtenLog }).state := by
  have hlog : Represents writtenLog 1 [writeEntry] := Represents.empty.insert_next writeEntry
  have hrange := hlog.inRange (by decide) fun e he => entries_inRange e (by simp_all)
  refine (recovery_rebuilds_iff (completesWith_recovering _ hlog hrange (by decide))).mpr ?_
  refine ⟨fun key hkey => ?_, fun k e hlast hget => ?_⟩
  · have hkey : key ∈ (∅ : StdMap Bytes Bytes).insert [97] [99] := hkey
    obtain rfl : [97] = key := by simpa using hkey
    exact ⟨writeEntry, List.mem_singleton_self _, rfl, by decide +kernel⟩
  · have he : e ∈ [writeEntry] := List.mem_of_getElem? hlast.of_take.2.1
    rw [List.mem_singleton.mp he] at hget
    cases hget

/-- The log reads a key and then writes it. The replica has executed both
before, and in doing so again it answers the `GET` with what was written after
it. -/
theorem read_answered_with_later_write :
    CompletesWith (recovering (boundTo [98]) (responseOf 0 readThenWritten)).state
        (responseOf 2 readThenWritten) [readEntry, writeEntry]
      ∧ ¬RebuiltFrom [readEntry, writeEntry]
        ((recovering (boundTo [98]) (responseOf 0 readThenWritten)).handleRecoveryResponse
          { connection := .peer 2, message := responseOf 2 readThenWritten }).state := by
  have hlog : Represents readThenWritten 2 [readEntry, writeEntry] :=
    (Represents.empty.insert_next readEntry).insert_next writeEntry
  have hrange := hlog.inRange (by decide) entries_inRange
  refine ⟨completesWith_recovering _ hlog hrange (by decide), fun h => ?_⟩
  have hstored : (((recovering (boundTo [98]) (responseOf 0 readThenWritten)).handleRecoveryResponse
      { connection := .peer 2, message := responseOf 2 readThenWritten }).state.clientEntry
        { low := 1 }) = { requestNumber := 1, executed := true, result := [98] } := by
    decide +kernel
  obtain ⟨k, e, -, he, hkey, hresult⟩ := h.table { low := 1 } (by rw [hstored])
  rw [hstored] at hresult
  match k, he with
  | 0, he =>
      cases he
      exact absurd hresult (by decide +kernel)
  | 1, he =>
      cases he
      exact absurd (congrArg Prod.fst hkey) (by decide)

end VsrKv
