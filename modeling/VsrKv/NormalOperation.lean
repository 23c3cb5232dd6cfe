import VsrKv.KeyValue
import VsrKv.Runs

/-!
# Execution in normal operation

A replica within one view: requests and acknowledgements at the primary,
prepares and commit numbers at a backup, in any order. Entries are
appended and acknowledged, the commit number moves, and each time it
does as many ops are executed as it allows. Whatever the batches, the
ops are executed one after the other, each once, and the key-value map is
that of the log up to the op executed last (`executes_in_sequence`).

The client table, by which an op may be skipped, is overwritten all the
time. All that matters about it is that what it has as executed has been
(`Replayed.table`).
-/

namespace VsrKv

open Assignments Replica TransitionSystem

/-! ## The four handlers -/

inductive NormalEvent where
  | request (im : InboundMessage)
  | prepareOk (im : InboundMessage)
  | prepare (im : InboundMessage)
  | commit (im : InboundMessage)

def NormalEvent.step (r : Replica) : NormalEvent → Option Replica
  | .request im => some (r.handleRequest im)
  | .prepareOk im => some (r.handlePrepareOk im)
  | .prepare im => some (r.handlePrepare im)
  | .commit im => some (r.handleCommit im)

/-- A replica that has just started, in view `view`. -/
def startedIn (id : Nat) (config : List PeerConfig) (view : Nat) : Replica :=
  { state := { ReplicaState.new id config with view } }

/-- No request is logged at two op numbers, and a `std::map` holds no more
entries than its `size()` can tell. -/
structure DistinctRequests (_ : Replica) (_ : NormalEvent) (r' : Replica) : Prop where
  keys : ∀ (n n' : Nat) (e e' : LogEntry), r'.state.log[n]? = some e → r'.state.log[n']? = some e' →
    e.key = e'.key → n = n'
  size : r'.state.log.size < 2 ^ 64

instance (r : Replica) (ev : NormalEvent) (r' : Replica) : Decidable (DistinctRequests r ev r') :=
  decidable_of_iff
    ((∀ p ∈ r'.state.log.toList, ∀ q ∈ r'.state.log.toList, p.2.key = q.2.key → p.1 = q.1)
      ∧ r'.state.log.size < 2 ^ 64) <| by
    refine ⟨fun h => ⟨?_, h.2⟩, fun h => ⟨?_, h.size⟩⟩
    · intro n n' e e' he he'
      exact h.1 (n, e) (Std.ExtTreeMap.mem_toList_iff_getElem?_eq_some.mpr he)
        (n', e') (Std.ExtTreeMap.mem_toList_iff_getElem?_eq_some.mpr he')
    · rintro ⟨n, e⟩ he ⟨n', e'⟩ he'
      exact h.keys n n' e e' (Std.ExtTreeMap.mem_toList_iff_getElem?_eq_some.mp he)
        (Std.ExtTreeMap.mem_toList_iff_getElem?_eq_some.mp he')

/-- The log is `l`, and what has been executed is a prefix of it. -/
structure InSequence (l : List LogEntry) (r : Replica) : Prop where
  log : Represents r.state.log r.state.op l
  replayed : Replayed ∅ l r.state
  turns : r.out.filterMap Effect.turn? = turns ∅ l r.state.lastExecutedOp

section

variable {l : List LogEntry} {r : Replica}

theorem nodup_keys {log : Log} {op : Nat} (hlog : Represents log op l)
    (hkeys : ∀ (n n' : Nat) (e e' : LogEntry), log[n]? = some e → log[n']? = some e' →
      e.key = e'.key → n = n') : (l.map LogEntry.key).Nodup := by
  rw [List.nodup_iff_getElem?_ne_getElem?]
  intro i j hij hj heq
  rw [List.length_map] at hj
  rw [List.getElem?_map, List.getElem?_map, List.getElem?_eq_getElem (hij.trans hj),
    List.getElem?_eq_getElem hj, Option.map_some, Option.map_some, Option.some.injEq] at heq
  obtain ⟨e, he, hstrip⟩ := hlog.exists_get (n := i + 1) (List.getElem?_eq_getElem (hij.trans hj))
  obtain ⟨e', he', hstrip'⟩ := hlog.exists_get (n := j + 1) (List.getElem?_eq_getElem hj)
  rw [← hstrip, ← hstrip'] at heq
  have := hkeys (i + 1) (j + 1) e e' he he' heq
  omega

/-- A log that is not full has room for one more op number. -/
theorem op_fits {log : Log} {op : Nat} (hlog : Represents log op l) {e : LogEntry}
    (hsize : (log.insert (u64 (op + 1)) e).size < 2 ^ 64) : op + 1 < 2 ^ 64 := by
  have hop := hlog.gapFree.size_eq
  have hle := Std.ExtTreeMap.size_le_size_insert (t := log) (k := u64 (op + 1)) (v := e)
  by_contra hfull
  have hlast : op = 2 ^ 64 - 1 := by omega
  have hzero : ¬log.contains 0 = true := fun h => by
    have := (hlog.gapFree 0).mp (Std.ExtTreeMap.mem_iff_contains.mpr h)
    omega
  rw [hlast, u64, Nat.sub_add_cancel (by norm_num), Nat.mod_self,
    Std.ExtTreeMap.size_insert, if_neg hzero] at hsize
  omega

theorem InSequence.of_state (h : InSequence l r) {s : ReplicaState} (hlog : Represents s.log s.op l)
    (hop : s.lastExecutedOp = r.state.lastExecutedOp)
    (hmachine : s.stateMachine = r.state.stateMachine)
    (htable : ∀ client, (s.clientEntry client).executed = true →
      s.clientEntry client = r.state.clientEntry client) :
    InSequence l { r with state := s } where
  log := hlog
  replayed :=
    { reached := hop ▸ h.replayed.reached
      machine := by rw [hmachine, hop]; exact h.replayed.machine
      table := fun client hexec => by
        show ∃ k e, k < s.lastExecutedOp ∧ _
        rw [hop, htable client hexec]
        exact h.replayed.table client (htable client hexec ▸ hexec) }
  turns := by rw [hop]; exact h.turns

theorem InSequence.emit (h : InSequence l r) {eff : Effect} (heff : eff.turn? = none) :
    InSequence l (r.emit eff) where
  log := h.log
  replayed := h.replayed
  turns := by
    show (r.out ++ [eff]).filterMap Effect.turn? = _
    rw [List.filterMap_append, h.turns]
    simp [heff, Replica.emit]

theorem InSequence.executeCommitedOps (h : InSequence l r)
    (hdistinct : (l.map LogEntry.key).Nodup) : InSequence l r.executeCommitedOps := by
  obtain ⟨effs, hout, hexec⟩ := executeCommitedOps_spec r
  obtain ⟨hreplayed, hturns⟩ := hexec.replayed h.replayed h.log hdistinct
  refine ⟨?_, hreplayed, ?_⟩
  · obtain ⟨n, t, m, hstate⟩ := hexec.state
    rw [hstate]
    exact h.log
  · rw [hout, List.filterMap_append, h.turns, hturns]

theorem InSequence.raiseCommit (h : InSequence l r) (hdistinct : (l.map LogEntry.key).Nodup)
    (commit : Nat) : InSequence l (r.raiseCommit commit) := by
  unfold Replica.raiseCommit
  split
  · refine InSequence.executeCommitedOps ?_ hdistinct
    exact h.of_state h.log rfl rfl fun _ _ => rfl
  · exact h

/-- Logging an entry. -/
theorem InSequence.append (h : InSequence l r) {e : LogEntry} (hop : r.state.op + 1 < 2 ^ 64) :
    InSequence (l ++ [e.strip]) { r with state := appendEntry r.state e } := by
  have hnext : u64 (r.state.op + 1) = r.state.op + 1 := u64_eq hop
  have hreached := h.replayed.reached
  refine ⟨?_, ⟨?_, ?_, ?_⟩, ?_⟩
  · simp only [appendEntry, hnext]
    exact h.log.insert_next e
  · exact hreached.trans (by simp)
  · show r.state.stateMachine = mapAfter ∅ ((l ++ [e.strip]).take r.state.lastExecutedOp)
    rw [List.take_append_of_le_length hreached]
    exact h.replayed.machine
  · intro client hexec
    have hsame := clientEntry_appendEntry_of_executed e hexec
    obtain ⟨k, e', hk, he', hkey⟩ := h.replayed.table client (hsame ▸ hexec)
    refine ⟨k, e', hk, ?_, by rw [hsame]; exact hkey⟩
    rw [List.getElem?_append_left (hk.trans_le hreached)]
    exact he'
  · rw [turns_append (n := (appendEntry r.state e).lastExecutedOp) hreached]
    exact h.turns

theorem executeCommitedOps_log (r : Replica) : r.executeCommitedOps.state.log = r.state.log := by
  obtain ⟨effs, -, hexec⟩ := executeCommitedOps_spec r
  obtain ⟨n, t, m, hstate⟩ := hexec.state
  rw [hstate]

theorem raiseCommit_log (r : Replica) (commit : Nat) :
    (r.raiseCommit commit).state.log = r.state.log := by
  unfold Replica.raiseCommit
  split
  · exact executeCommitedOps_log _
  · rfl

/-! ## One event -/

theorem InSequence.request {im : InboundMessage} (h : InSequence l r)
    (hok : DistinctRequests r (.request im) (r.handleRequest im)) :
    ∃ l', InSequence l' (r.handleRequest im) := by
  have htouched : InSequence l { r with state := touched r.state im.message.header.client } :=
    h.of_state h.log rfl rfl fun client _ => clientEntry_touched _
  have hsize := hok.size
  unfold handleRequest at hsize ⊢
  simp only [] at hsize ⊢
  split
  · exact ⟨l, htouched⟩
  · rename_i hle
    rw [if_neg hle] at hsize
    split
    · exact ⟨l, htouched.emit rfl⟩
    · rename_i hne
      rw [if_neg hne] at hsize
      have hop : r.state.op + 1 < 2 ^ 64 := op_fits h.log hsize
      have hlogged := htouched.append (e := entryOf r.state.view im.message {r.state.id}) hop
      have hconnected : InSequence (l ++ [(entryOf r.state.view im.message {r.state.id}).strip])
          { r with
            state := appendEntry (touched r.state im.message.header.client)
              (entryOf r.state.view im.message {r.state.id})
            clientConnections :=
              r.clientConnections.insert im.message.header.client im.connection } :=
        ⟨hlogged.log, hlogged.replayed, hlogged.turns⟩
      exact ⟨_, hconnected.emit rfl⟩

theorem InSequence.prepare {im : InboundMessage} (h : InSequence l r)
    (hok : DistinctRequests r (.prepare im) (r.handlePrepare im)) :
    ∃ l', InSequence l' (r.handlePrepare im) := by
  have hkeys := hok.keys
  have hsize := hok.size
  unfold handlePrepare at hkeys hsize ⊢
  simp only [raiseCommit_log] at hkeys hsize
  have hop : r.state.op + 1 < 2 ^ 64 := op_fits h.log hsize
  have hlogged := h.append (e := entryOf r.state.view im.message ∅) hop
  exact ⟨_, (hlogged.emit rfl).raiseCommit (nodup_keys hlogged.log hkeys) _⟩

theorem InSequence.commit {im : InboundMessage} (h : InSequence l r)
    (hok : DistinctRequests r (.commit im) (r.handleCommit im)) :
    InSequence l (r.handleCommit im) := by
  have hkeys := hok.keys
  unfold handleCommit at hkeys ⊢
  rw [raiseCommit_log] at hkeys
  exact h.raiseCommit (nodup_keys h.log hkeys) _

theorem InSequence.prepareOk {im : InboundMessage} (h : InSequence l r)
    (hok : DistinctRequests r (.prepareOk im) (r.handlePrepareOk im)) :
    InSequence l (r.handlePrepareOk im) := by
  have hkeys := hok.keys
  unfold handlePrepareOk at hkeys ⊢
  simp only [] at hkeys ⊢
  split
  · exact h
  · rename_i entry hentry
    simp only [hentry] at hkeys
    have hacked : InSequence l
        { r with
          state := recordAck r.state im.message.header.op im.message.header.replica entry } :=
      h.of_state (h.log.insert_same hentry rfl) rfl rfl fun _ _ => rfl
    unfold advancePrimaryCommitNumber at hkeys ⊢
    simp only [] at hkeys ⊢
    split
    · rename_i hprimary
      rw [if_pos hprimary, executeCommitedOps_log] at hkeys
      refine InSequence.executeCommitedOps ?_ (nodup_keys hacked.log hkeys)
      exact hacked.of_state hacked.log rfl rfl fun _ _ => rfl
    · exact hacked

theorem InSequence.step {r' : Replica} {ev : NormalEvent} (h : InSequence l r)
    (hstep : ev.step r = some r') (hok : DistinctRequests r ev r') : ∃ l', InSequence l' r' := by
  cases ev with
  | request im => cases hstep; exact h.request hok
  | prepareOk im => cases hstep; exact ⟨l, h.prepareOk hok⟩
  | prepare im => cases hstep; exact h.prepare hok
  | commit im => cases hstep; exact ⟨l, h.commit hok⟩

end

theorem inSequence_startedIn (id : Nat) (config : List PeerConfig) (view : Nat) :
    InSequence [] (startedIn id config view) where
  log := .empty
  replayed := ⟨Nat.le_refl _, rfl, fun client hexec => by
    simp [startedIn, ReplicaState.clientEntry, ReplicaState.new] at hexec⟩
  turns := rfl

/-- Whatever a replica logs and acknowledges in a view, and however its commit
number moves: with `l` its log, it has executed the first `lastExecutedOp`
entries of `l`, in order, none of them twice or not at all; its map is the one
they leave; and a `GET` was answered with what the latest `SET` of its key
before it bound. -/
theorem executes_in_sequence {id view : Nat} {config : List PeerConfig} {r : Replica}
    (run : Steps (fun r ev => NormalEvent.step r ev) DistinctRequests
      (startedIn id config view) r) :
    ∃ l : List LogEntry, Represents r.state.log r.state.op l
      ∧ r.state.lastExecutedOp ≤ r.state.op
      ∧ (r.out.filterMap Effect.turn?).map (·.1) = List.range' 1 r.state.lastExecutedOp
      ∧ r.out.filterMap Effect.turn? = turns ∅ l r.state.lastExecutedOp
      ∧ r.state.stateMachine = mapAfter ∅ (l.take r.state.lastExecutedOp)
      ∧ ∀ k e, k < r.state.lastExecutedOp → l[k]? = some e → e.opType = .get →
        (k + 1, e, some ((latest (bindings (l.take k)) e.keyWord).getD notFound))
          ∈ r.out.filterMap Effect.turn? := by
  obtain ⟨l, h⟩ : ∃ l, InSequence l r := by
    refine run.invariant (I := fun r => ∃ l, InSequence l r)
      ⟨[], inSequence_startedIn id config view⟩ ?_
    rintro r ev r' - hstep hok ⟨l, h⟩
    exact h.step hstep hok
  refine ⟨l, h.log, h.log.op ▸ h.replayed.reached, ?_, h.turns, h.replayed.machine, ?_⟩
  · rw [h.turns]
    exact map_fst_turns h.replayed.reached
  · intro k e hk he hget
    rw [h.turns]
    refine List.mem_filterMap.mpr ⟨k, List.mem_range.mpr hk, ?_⟩
    simp [he, answer, hget]

/-- A request to read the key `a`. -/
def getA : VsrMessage where
  header := { command := .request, operation := .get, client := { low := 2 }, request := 1 }
  payload := [97]

/-- The primary logs a `SET` and a `GET` of another client, and the
acknowledgement of the second comes first. -/
theorem executes_in_sequence_two :
    ∃ r l, Steps (fun r ev => NormalEvent.step r ev) DistinctRequests
        (startedIn 0 (clusterOf 3) 0) r
      ∧ r.state.lastExecutedOp = 2 ∧ Represents r.state.log r.state.op l
      ∧ r.out.filterMap Effect.turn? = turns ∅ l 2
      ∧ r.state.stateMachine = mapAfter ∅ (l.take 2) := by
  obtain ⟨r, run, htwo⟩ := exists_of_replay (fun r ev => NormalEvent.step r ev) DistinctRequests
    (startedIn 0 (clusterOf 3) 0)
    [.request { connection := .client 7, message := setRequest 1 1 [97, 32, 98] },
      .request { connection := .client 8, message := getA },
      .prepareOk { connection := .peer 1, message := { header := { op := 2, replica := 1 } } },
      .prepareOk { connection := .peer 1, message := { header := { op := 1, replica := 1 } } }]
    (P := fun r => r.state.lastExecutedOp = 2) (by decide +kernel)
  obtain ⟨l, hlog, -, -, hturns, hmachine, -⟩ := executes_in_sequence run
  rw [htwo] at hturns hmachine
  exact ⟨r, l, run, htwo, hlog, hturns, hmachine⟩

end VsrKv
