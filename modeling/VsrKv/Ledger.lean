import VsrKv.ClientTable
import VsrKv.DecidedLog

/-!
# What a replica holds when all is executed

A ledger is what the replicas in step with each other agree on: the
entries, each executed, and the number of each client's last request. A
replica that has nothing left to do holds the ledger of its view
(`Settled`); one that has logged a further request holds it up to that
one (`Pending`).

What the handlers of normal operation make of the two is all that a
round of the protocol needs. The primary answers when it settles, and
only then.
-/

namespace VsrKv

open Replica

/-- The entries, and the last request of each client: none of the entries is later. -/
structure Ledger where
  entries : List LogEntry
  last : UInt128 → Nat
  covers : ∀ e ∈ entries, e.requestNum ≤ last e.clientId

namespace Ledger

def empty : Ledger where
  entries := []
  last _ := 0
  covers := by simp

/-- A new request of its client is put on the ledger in view `v`. -/
def add (b : Ledger) (v : Nat) (msg : VsrMessage)
    (hnew : b.last msg.header.client < msg.header.request) : Ledger where
  entries := b.entries ++ [entryOf v msg ∅]
  last client := if client = msg.header.client then msg.header.request else b.last client
  covers := by
    refine List.forall_mem_append.mpr ⟨fun e he => ?_, ?_⟩
    · have hcovers := b.covers e he
      split
      · rename_i hclient
        rw [hclient] at hcovers
        omega
      · exact hcovers
    · simp [entryOf]

/-- The map once all of it is executed. -/
def machine (b : Ledger) : StdMap Bytes Bytes := applyAll b.entries

end Ledger

/-- What the reply to the request logged as `e` says. -/
def answerTo (v : Nat) (m : StdMap Bytes Bytes) (e : LogEntry) : VsrMessage where
  header := { command := .reply, view := v, client := e.clientId, request := e.requestNum }
  payload := (applyOperation m e).2

/-- The last request of a client that the replica has taken note of. -/
def lastRequest (s : ReplicaState) (client : UInt128) : Nat := (s.clientEntry client).requestNumber

/-- The replica has logged and executed what is on the ledger. -/
structure HoldsLedger (s : ReplicaState) (b : Ledger) : Prop where
  log : Represents s.log s.op b.entries
  commit : s.commit = s.op
  executed : s.lastExecutedOp = s.op
  machine : s.stateMachine = b.machine
  last : ∀ client, lastRequest s client = b.last client

structure Settled (s : ReplicaState) (v : Nat) (b : Ledger) : Prop where
  status : s.status = .normal
  view : s.view = v
  holds : HoldsLedger s b

/-- The request is at the end of the log, acknowledged by `acks`, and everything before
it is executed. -/
structure Pending (s : ReplicaState) (v : Nat) (b : Ledger) (msg : VsrMessage)
    (acks : Finset Nat) : Prop where
  status : s.status = .normal
  view : s.view = v
  log : Represents s.log s.op (b.entries ++ [entryOf v msg ∅])
  entry : s.log[s.op]? = some (entryOf v msg acks)
  commit : s.commit = b.entries.length
  executed : s.lastExecutedOp = b.entries.length
  machine : s.stateMachine = b.machine
  noted : s.clientEntry msg.header.client = { requestNumber := msg.header.request }
  last : ∀ client, client ≠ msg.header.client → lastRequest s client = b.last client

section

variable {s : ReplicaState} {r : Replica} {v fd : Nat} {b : Ledger} {msg : VsrMessage}
  {acks : Finset Nat}

theorem HoldsLedger.op (h : HoldsLedger s b) : s.op = b.entries.length := h.log.op

theorem Pending.op (h : Pending s v b msg acks) : s.op = b.entries.length + 1 := by
  rw [h.log.op, List.length_append, List.length_singleton]

theorem HoldsLedger.touched (h : HoldsLedger s b) (client : UInt128) :
    HoldsLedger (touched s client) b where
  log := h.log
  commit := h.commit
  executed := h.executed
  machine := h.machine
  last client' := by
    rw [← h.last, lastRequest, clientEntry_touched]
    rfl

/-! ## Logging -/

theorem Settled.appendEntry (h : Settled s v b) (hk : b.entries.length + 1 < 2 ^ 64)
    (msg : VsrMessage) (acks : Finset Nat) :
    Pending (appendEntry s (entryOf v msg acks)) v b msg acks := by
  have hop : u64 (s.op + 1) = s.op + 1 := u64_eq (by rw [h.holds.op]; exact hk)
  refine ⟨h.status, h.view, ?_, ?_, h.holds.commit.trans h.holds.op,
    h.holds.executed.trans h.holds.op, h.holds.machine, ?_, fun client hclient => ?_⟩
  · show Represents (s.log.insert (u64 (s.op + 1)) _) (u64 (s.op + 1)) _
    rw [hop]
    exact h.holds.log.insert_next _
  · exact Std.ExtTreeMap.getElem?_insert_self
  · rw [clientEntry_appendEntry]
    exact if_pos rfl
  · have hne : client ≠ (entryOf v msg acks).clientId := hclient
    rw [lastRequest, clientEntry_appendEntry, if_neg hne]
    exact h.holds.last client

theorem handleRequest_new (h : Settled r.state v b) (hk : b.entries.length + 1 < 2 ^ 64)
    (hnew : b.last msg.header.client < msg.header.request) (fd : Nat) :
    Pending (r.handleRequest ⟨.client fd, msg⟩).state v b msg {r.state.id}
      ∧ (r.handleRequest ⟨.client fd, msg⟩).clientConnections[msg.header.client]?
        = some (.client fd)
      ∧ (r.handleRequest ⟨.client fd, msg⟩).out
        = r.out ++ [.broadcast (prepareMessage { r.state with op := r.state.op + 1 } msg)] := by
  have hop : u64 (r.state.op + 1) = r.state.op + 1 := u64_eq (by rw [h.holds.op]; exact hk)
  have hstep : r.handleRequest ⟨.client fd, msg⟩ = broadcastToPeers
      { r with
        state := appendEntry (touched r.state msg.header.client)
          (entryOf r.state.view msg {r.state.id})
        clientConnections := r.clientConnections.insert msg.header.client (.client fd) }
      (prepareMessage { r.state with op := u64 (r.state.op + 1) } msg) := by
    have hnew' : (r.state.clientTable.getD msg.header.client {}).requestNumber
        < msg.header.request := (h.holds.last _).trans_lt hnew
    unfold handleRequest
    simp only []
    rw [if_neg (by omega), if_neg (by omega)]
    rfl
  rw [hstep, h.view]
  have htouched : Settled (touched r.state msg.header.client) v b :=
    ⟨h.status, h.view, h.holds.touched _⟩
  refine ⟨htouched.appendEntry hk msg _, ?_, by rw [hop]; rfl⟩
  simp [broadcastToPeers, emit]

/-- A backup logs the request and acknowledges it. It commits nothing: what the primary
has committed, it knows of. -/
theorem handlePrepare_logs (h : Settled r.state v b) (hk : b.entries.length + 1 < 2 ^ 64)
    {im : InboundMessage} (hcommit : im.message.header.commit = b.entries.length) :
    Pending (r.handlePrepare im).state v b im.message ∅
      ∧ (r.handlePrepare im).out = r.out
        ++ [.toConnection im.connection (prepareOkMessage r.state (r.state.op + 1))] := by
  have hop : u64 (r.state.op + 1) = r.state.op + 1 := u64_eq (by rw [h.holds.op]; exact hk)
  have heq : r.handlePrepare im = sendMessage
      { r with state := appendEntry r.state (entryOf v im.message ∅) } im.connection
      (prepareOkMessage r.state (r.state.op + 1)) := by
    have hnews : ¬im.message.header.commit > r.state.commit := by
      rw [hcommit, h.holds.commit, h.holds.op]
      exact Nat.lt_irrefl _
    rw [← hop, ← h.view]
    exact if_neg hnews
  rw [heq]
  exact ⟨h.appendEntry hk _ _, rfl⟩

/-! ## Executing -/

/-- The table does not say that the request has been executed. -/
theorem Pending.not_skips (h : Pending s v b msg acks) (n : Nat) :
    ¬skips { s with commit := n } (entryOf v msg acks) := by
  have hnoted := h.noted
  rw [ReplicaState.clientEntry] at hnoted
  refine not_not.mpr (Or.inr ?_)
  show (s.clientTable.getD msg.header.client {}).executed = false
  rw [hnoted]

theorem Pending.settles (h : Pending s v b msg acks)
    (hnew : b.last msg.header.client < msg.header.request) :
    Settled (turnState { s with commit := s.op } s.op (entryOf v msg acks)) v
      (b.add v msg hnew) := by
  have hturn : turnState { s with commit := s.op } s.op (entryOf v msg acks) = { s with
      commit := s.op
      stateMachine := (applyOperation s.stateMachine (entryOf v msg acks)).1
      clientTable := s.clientTable.insert msg.header.client
        { requestNumber := msg.header.request, executed := true,
          result := (applyOperation s.stateMachine (entryOf v msg acks)).2 }
      lastExecutedOp := s.op } := if_neg (h.not_skips _)
  rw [hturn]
  refine ⟨h.status, h.view, h.log, rfl, rfl, ?_, fun client => ?_⟩
  · show (applyOperation s.stateMachine _).1 = applyAll (b.entries ++ [entryOf v msg ∅])
    rw [applyAll_append, h.machine]
    rfl
  · show ((s.clientTable.insert msg.header.client _).getD client {}).requestNumber
      = if client = msg.header.client then msg.header.request else b.last client
    rw [getD_insert_table]
    split
    · rfl
    · rename_i hclient
      exact h.last client hclient

theorem Pending.executeCommitedOps_eq (h : Pending r.state v b msg acks) :
    executeCommitedOps { r with state := { r.state with commit := r.state.op } }
      = executeOp { r with state := { r.state with commit := r.state.op } } r.state.op
        (entryOf v msg acks) := by
  have hop := h.op
  have hentry := h.entry
  rw [executeCommitedOps]
  simp only [h.executed, hop, Nat.add_sub_cancel_left, executeLoop] at hentry ⊢
  rw [hentry]

/-- The primary executes a request noted as in progress, and answers it. -/
theorem executeOp_answers {e : LogEntry} {n : Nat} (hprimary : r.state.isPrimary = true)
    (hskips : ¬skips r.state e)
    (hconnection : r.clientConnections[e.clientId]? = some (.client fd)) :
    (r.executeOp n e).out = r.out
      ++ [.executed r.state.view n e (some (applyOperation r.state.stateMachine e).2),
        .toConnection (.client fd) (answerTo r.state.view r.state.stateMachine e)] := by
  have hrun := not_not.mp hskips
  have hprimary' : ∀ m t, ({ r.state with stateMachine := m, clientTable := t }).isPrimary = true :=
    fun _ _ => hprimary
  rw [executeOp]
  simp only [hrun, if_true, emit, sendReply, hprimary', hconnection, sendMessage,
    List.append_assoc]
  rfl

/-- A backup that is told of the commit executes the request. -/
theorem handleCommit_settles (h : Pending r.state v b msg acks)
    (hnew : b.last msg.header.client < msg.header.request) {im : InboundMessage}
    (hcommit : im.message.header.commit = b.entries.length + 1) :
    Settled (r.handleCommit im).state v (b.add v msg hnew) := by
  have hnews : im.message.header.commit > r.state.commit := by
    rw [hcommit, h.commit]
    exact Nat.lt_succ_self _
  rw [handleCommit, raiseCommit, if_pos hnews, hcommit, ← h.op, h.executeCommitedOps_eq,
    executeOp_state]
  exact h.settles hnew

/-! ## Acknowledgements -/

section

variable {f k : Nat} {e : LogEntry} {log : Log}

theorem advanceLoop_short (hk : k + 1 < 2 ^ 64) (hentry : log[k + 1]? = some e)
    (hshort : e.prepareOkAcks.card < f + 1) (fuel : Nat) : advanceLoop f log fuel k = k := by
  cases fuel with
  | zero => rfl
  | succ fuel =>
      rw [advanceLoop, u64_eq hk]
      simp only [hentry, if_pos hshort]

theorem advanceLoop_last (hlog : GapFree log (k + 1)) (hk : k + 1 < 2 ^ 64)
    (hentry : log[k + 1]? = some e) (hquorum : f + 1 ≤ e.prepareOkAcks.card) :
    advanceLoop f log log.size k = k + 1 := by
  have hend : ∀ fuel, advanceLoop f log fuel (k + 1) = k + 1 := by
    intro fuel
    cases fuel with
    | zero => rfl
    | succ fuel =>
        have hnone : log[u64 (k + 1 + 1)]? = none := by
          rw [Std.ExtTreeMap.getElem?_eq_none (fun hmem => ?_)]
          have hle := (hlog _).mp hmem
          rw [u64] at hle
          omega
        rw [advanceLoop, hnone]
  rw [hlog.size_eq, advanceLoop, u64_eq hk]
  simp only [hentry, if_neg (show ¬e.prepareOkAcks.card < f + 1 by omega), hend]

end

theorem Pending.recordAck (h : Pending s v b msg acks) (q : Nat) :
    Pending (recordAck s s.op q (entryOf v msg acks)) v b msg (insert q acks) where
  status := h.status
  view := h.view
  log := h.log.insert_same h.entry rfl
  entry := Std.ExtTreeMap.getElem?_insert_self
  commit := h.commit
  executed := h.executed
  machine := h.machine
  noted := h.noted
  last := h.last

theorem handlePrepareOk_eq (h : Pending r.state v b msg acks) {im : InboundMessage}
    (hop : im.message.header.op = r.state.op) :
    r.handlePrepareOk im = advancePrimaryCommitNumber { r with
      state := recordAck r.state r.state.op im.message.header.replica (entryOf v msg acks) } := by
  unfold handlePrepareOk
  simp only [hop, h.entry]
  rfl

/-- An acknowledgement short of a quorum is noted. -/
theorem handlePrepareOk_short (h : Pending r.state v b msg acks)
    (hk : b.entries.length + 1 < 2 ^ 64) (im : InboundMessage)
    (hop : im.message.header.op = r.state.op)
    (hshort : (insert im.message.header.replica acks).card < r.state.faultToleranceF + 1) :
    r.handlePrepareOk im = { r with
      state := recordAck r.state r.state.op im.message.header.replica (entryOf v msg acks) } := by
  rw [handlePrepareOk_eq h hop]
  have hacked := h.recordAck im.message.header.replica
  have hf : (recordAck r.state r.state.op im.message.header.replica
      (entryOf v msg acks)).faultToleranceF = r.state.faultToleranceF := rfl
  generalize recordAck r.state r.state.op im.message.header.replica (entryOf v msg acks) = s
    at hacked hf
  have hentry := hacked.entry
  rw [hacked.op, ← hacked.commit] at hentry
  have hstays := advanceLoop_short (by rw [hacked.commit]; exact hk) hentry (hf ▸ hshort)
    s.log.size
  have hdone : executeCommitedOps { r with state := s } = { r with state := s } := by
    show executeLoop (s.commit - s.lastExecutedOp) _ = _
    rw [hacked.commit, hacked.executed, Nat.sub_self]
    rfl
  rw [advancePrimaryCommitNumber]
  split
  · simp only [hstays]
    exact hdone
  · rfl

/-- The one that makes a quorum commits the request, executes it and answers. -/
theorem handlePrepareOk_last (h : Pending r.state v b msg acks)
    (hk : b.entries.length + 1 < 2 ^ 64) (hprimary : r.state.isPrimary = true)
    (hconnection : r.clientConnections[msg.header.client]? = some (.client fd))
    (hnew : b.last msg.header.client < msg.header.request) (im : InboundMessage)
    (hop : im.message.header.op = r.state.op)
    (hquorum : r.state.faultToleranceF + 1 ≤ (insert im.message.header.replica acks).card) :
    Settled (r.handlePrepareOk im).state v (b.add v msg hnew)
      ∧ ∃ n e res, (r.handlePrepareOk im).out = r.out ++ [.executed v n e res,
          .toConnection (.client fd) (answerTo v b.machine (entryOf v msg ∅))] := by
  rw [handlePrepareOk_eq h hop]
  have hacked := h.recordAck im.message.header.replica
  have hsame : (recordAck r.state r.state.op im.message.header.replica
        (entryOf v msg acks)).faultToleranceF = r.state.faultToleranceF
      ∧ (recordAck r.state r.state.op im.message.header.replica
        (entryOf v msg acks)).isPrimary = r.state.isPrimary := ⟨rfl, rfl⟩
  generalize recordAck r.state r.state.op im.message.header.replica (entryOf v msg acks) = s
    at hacked hsame
  have hentry := hacked.entry
  rw [hacked.op, ← hacked.commit] at hentry
  have hgap := hacked.log.gapFree
  rw [hacked.op, ← hacked.commit] at hgap
  have hmoves := advanceLoop_last hgap (by rw [hacked.commit]; exact hk) hentry
    (hsame.1 ▸ hquorum)
  rw [hacked.commit, ← hacked.op, ← hacked.commit] at hmoves
  rw [advancePrimaryCommitNumber, if_pos (hsame.2.trans hprimary)]
  simp only [hmoves]
  have hexec := hacked.executeCommitedOps_eq (r := { r with state := s })
  simp only [] at hexec
  rw [hexec]
  refine ⟨?_, s.op, entryOf v msg (insert im.message.header.replica acks),
    some (applyOperation b.machine (entryOf v msg ∅)).2, ?_⟩
  · rw [executeOp_state]
    exact hacked.settles hnew
  · rw [executeOp_answers (hsame.2.trans hprimary) (hacked.not_skips _) hconnection]
    simp only [hacked.view, hacked.machine]
    rfl

end

end VsrKv
