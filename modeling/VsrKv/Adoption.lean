import VsrKv.Quorums
import VsrKv.Rebuilding

/-!
# Adopted logs and the client table

Three handlers adopt a log as a whole and then execute what is committed
of it. A client that resends a request is recognised by the client table,
so after an adoption the table should have heard of every request in the
log.

Two of the three go over the log and raise the table's request numbers.
The new primary does not. And execution writes the number of each entry
it passes into the table, also over a higher one: what the table has in
the end is the last passed request of a client, if there is one, and
else what it had before (`executeLoop_requestNumber`). When that is
enough is a condition on the log that is adopted (`KeepsClients`), and
`adoption_covers_clients_iff` says that it is exact.
-/

namespace VsrKv

open Assignments Replica TransitionSystem
open Event (process receive request)

/-! ## Execution and request numbers -/

/-- The entries the execution loop passes in `k` turns, beginning after `op`. -/
def passed (log : Log) : Nat → Nat → List LogEntry
  | 0, _ => []
  | k + 1, op =>
      match log[op + 1]? with
      | none => []
      | some e => e :: passed log k (op + 1)

/-- The request number a client's last entry has. -/
def lastRequest? (entries : List LogEntry) (client : UInt128) : Option Nat :=
  latest (entries.map fun e => (e.clientId, e.requestNum)) client

theorem requestNumber_turnState (s : ReplicaState) (n : Nat) (e : LogEntry) (client : UInt128) :
    ((turnState s n e).clientEntry client).requestNumber
      = if client = e.clientId then e.requestNum else (s.clientEntry client).requestNumber := by
  rw [clientEntry_turnState]
  unfold turnResult
  by_cases hskip : skips s e
  · rw [if_pos hskip]
    simp only []
    split
    · rename_i hclient
      have hnumber : (s.clientEntry e.clientId).requestNumber = e.requestNum := by
        simp only [skips, not_or, ne_eq, not_not] at hskip
        exact hskip.1
      rw [hclient]
      exact hnumber
    · rfl
  · rw [if_neg hskip]
    simp only []
    split <;> rfl

/-- A client's last entry that is passed leaves its request number. -/
theorem executeLoop_requestNumber (k : Nat) (r : Replica) (client : UInt128) :
    ((executeLoop k r).state.clientEntry client).requestNumber
      = (lastRequest? (passed r.state.log k r.state.lastExecutedOp) client).getD
        (r.state.clientEntry client).requestNumber := by
  induction k generalizing r with
  | zero => rfl
  | succ k ih =>
      rw [executeLoop, passed]
      cases he : r.state.log[r.state.lastExecutedOp + 1]? with
      | none => rfl
      | some e =>
          simp only []
          obtain ⟨_, _, _, hsame⟩ := turnState_same r.state (r.state.lastExecutedOp + 1) e
          have hlog : (turnState r.state (r.state.lastExecutedOp + 1) e).log = r.state.log := by
            rw [hsame]
          rw [ih, executeOp_state, hlog, turnState_lastExecutedOp, requestNumber_turnState,
            lastRequest?, lastRequest?, List.map_cons, latest_cons]
          cases latest _ client with
          | some n => rfl
          | none =>
              by_cases hclient : client = e.clientId
              · simp [hclient]
              · have hne : ¬e.clientId = client := fun h => hclient h.symm
                simp [hclient, hne]

/-! ## Going over the log -/

theorem requestNumber_coverEntry (t : StdMap UInt128 ClientTableEntry) (e : LogEntry)
    (client : UInt128) :
    (t.getD client {}).requestNumber ≤ ((coverEntry t e).getD client {}).requestNumber
      ∧ e.requestNum ≤ ((coverEntry t e).getD e.clientId {}).requestNumber := by
  unfold coverEntry
  simp only [getD_insert_table, if_true]
  constructor
  · split
    · rename_i hclient
      subst hclient
      split
      · rename_i hlt
        exact Nat.le_of_lt hlt
      · exact Nat.le_refl _
    · exact Nat.le_refl _
  · split
    · exact Nat.le_refl _
    · rename_i hnot
      exact Nat.le_of_not_lt hnot

theorem requestNumber_foldl_coverEntry (l : List (Nat × LogEntry))
    (t : StdMap UInt128 ClientTableEntry) (client : UInt128) :
    (t.getD client {}).requestNumber
      ≤ ((l.foldl (fun table p => coverEntry table p.2) t).getD client {}).requestNumber := by
  induction l generalizing t with
  | nil => exact Nat.le_refl _
  | cons p l ih => exact (requestNumber_coverEntry t p.2 client).1.trans (ih _)

/-- Once gone over, the log has no request the table has not heard of. -/
theorem requestNum_le_coverLog (t : StdMap UInt128 ClientTableEntry) {log : Log} {n : Nat}
    {e : LogEntry} (he : log[n]? = some e) :
    e.requestNum ≤ ((coverLog t log).getD e.clientId {}).requestNumber := by
  have hmem : (n, e) ∈ log.toList := Std.ExtTreeMap.mem_toList_iff_getElem?_eq_some.mpr he
  unfold coverLog
  generalize log.toList = l at hmem
  induction l generalizing t with
  | nil => cases hmem
  | cons p l ih =>
      rcases List.mem_cons.mp hmem with rfl | hmem
      · exact (requestNumber_coverEntry t e e.clientId).2.trans
          (requestNumber_foldl_coverEntry l _ e.clientId)
      · exact ih _ hmem

/-! ## Adopting a log -/

/-- A log that is adopted, up to where it is committed and has been executed,
the client table it comes to, and whether the log is gone over for its sake. -/
structure Adoption where
  log : Log
  commit : Nat
  lastExecutedOp : Nat
  table : StdMap UInt128 ClientTableEntry
  goesOver : Bool

/-- The log that is adopted when `msg` is handled. -/
def adoption? (env : Env) (s : ReplicaState) (msg : VsrMessage) : Option Adoption :=
  match msg.header.command with
  | .startView =>
      match StartViewPayload.deserialize msg.payload {} with
      | (false, _) => none
      | (true, payload) => some
          { log := payload.log, commit := msg.header.commit, lastExecutedOp := s.lastExecutedOp,
            table := s.clientTable, goesOver := true }
  | .recoveryResponse =>
      match RecoveryResponsePayload.deserialize msg.payload {} with
      | (false, _) => none
      | (true, payload) =>
          if payload.nonce = s.recoveryNonce
              ∧ s.faultToleranceF + 1 ≤ (s.recoveryResponses ++ [msg]).length then
            some
              { log := recoveredLog s msg, commit := (bestResponse s msg).header.commit,
                lastExecutedOp := 0, table := ∅, goesOver := true }
          else none
  | _ =>
      (completingVotes? s msg).map fun votes =>
        let best := selectLog env.uninitialized s.commit votes
        { log := best.payload.log, commit := best.commit, lastExecutedOp := s.lastExecutedOp,
          table := s.clientTable, goesOver := false }

/-- The entries that are executed, or skipped, in the course of the adoption. -/
def Adoption.executes (a : Adoption) : List LogEntry :=
  passed a.log (a.commit - a.lastExecutedOp) a.lastExecutedOp

/-- The last executed request of the entry's client is not below the entry's; if
the client has none, the log is gone over or the table knows better already. -/
def Adoption.keeps (a : Adoption) (e : LogEntry) : Bool :=
  match lastRequest? a.executes e.clientId with
  | some request => decide (e.requestNum ≤ request)
  | none => a.goesOver || decide (e.requestNum ≤ (a.table.getD e.clientId {}).requestNumber)

def Adoption.KeepsClients (a : Adoption) : Prop := ∀ p ∈ a.log.toList, a.keeps p.2 = true

instance (a : Adoption) : Decidable a.KeepsClients :=
  inferInstanceAs (Decidable (∀ p ∈ a.log.toList, _))

/-- The replica has heard of every request in its log. -/
def ClientsCovered (s : ReplicaState) : Prop :=
  ∀ (n : Nat) (e : LogEntry), s.log[n]? = some e →
    e.requestNum ≤ (s.clientEntry e.clientId).requestNumber

instance (s : ReplicaState) : Decidable (ClientsCovered s) :=
  decidable_of_iff
    (∀ p ∈ s.log.toList, p.2.requestNum ≤ (s.clientEntry p.2.clientId).requestNumber) <| by
    refine ⟨fun h n e he => ?_, fun h p hp => ?_⟩
    · exact h (n, e) (Std.ExtTreeMap.mem_toList_iff_getElem?_eq_some.mpr he)
    · exact h p.1 p.2 (Std.ExtTreeMap.mem_toList_iff_getElem?_eq_some.mp hp)

/-- The replica that has adopted the log and is about to execute. -/
structure Adoption.Made (a : Adoption) (r : Replica) : Prop where
  log : r.state.log = a.log
  commit : r.state.commit = a.commit
  lastExecutedOp : r.state.lastExecutedOp = a.lastExecutedOp
  table : r.state.clientTable = if a.goesOver then coverLog a.table a.log else a.table

theorem Adoption.Made.clientsCovered_iff {a : Adoption} {r : Replica} (h : a.Made r) :
    ClientsCovered r.executeCommitedOps.state ↔ a.KeepsClients := by
  have hlog : r.executeCommitedOps.state.log = a.log := by
    obtain ⟨_, _, _, hsame⟩ := executeLoop_same (r.state.commit - r.state.lastExecutedOp) r
    rw [executeCommitedOps, hsame]
    exact h.log
  have hnumber (client : UInt128) :
      (r.executeCommitedOps.state.clientEntry client).requestNumber
        = (lastRequest? a.executes client).getD (r.state.clientEntry client).requestNumber := by
    rw [executeCommitedOps, executeLoop_requestNumber, h.log, h.commit, h.lastExecutedOp]
    rfl
  have hone (n : Nat) (e : LogEntry) (he : a.log[n]? = some e) :
      e.requestNum ≤ (r.executeCommitedOps.state.clientEntry e.clientId).requestNumber
        ↔ a.keeps e = true := by
    rw [hnumber, Adoption.keeps]
    cases lastRequest? a.executes e.clientId with
    | some request => simp
    | none =>
        rw [Option.getD_none, ReplicaState.clientEntry, h.table]
        cases a.goesOver with
        | true => simpa using requestNum_le_coverLog a.table he
        | false => simp
  constructor
  · rintro hcovered ⟨n, e⟩ hp
    have he := Std.ExtTreeMap.mem_toList_iff_getElem?_eq_some.mp hp
    exact (hone n e he).mp (hcovered n e (hlog ▸ he))
  · intro hkeeps n e he
    rw [hlog] at he
    exact (hone n e he).mpr
      (hkeeps (n, e) (Std.ExtTreeMap.mem_toList_iff_getElem?_eq_some.mpr he))

section

variable {env : Env} {r : Replica} {im : InboundMessage} {a : Adoption}

/-- Handling `im` comes down to adopting the log and executing. -/
def AdoptsBy (a : Adoption) (r' : Replica) : Prop :=
  ∃ r₁, a.Made r₁ ∧ r'.state.log = r₁.executeCommitedOps.state.log
    ∧ r'.state.clientTable = r₁.executeCommitedOps.state.clientTable

theorem handleStartView_adopts (hcmd : im.message.header.command = .startView)
    (h : adoption? env r.state im.message = some a) : AdoptsBy a (r.handleStartView im) := by
  unfold adoption? at h
  simp only [hcmd] at h
  split at h
  · cases h
  · rename_i payload hpayload
    obtain rfl := Option.some.inj h
    unfold handleStartView
    simp only [hpayload]
    exact ⟨{ r with state := adoptedState r.state im.message.header payload.log },
      ⟨rfl, rfl, rfl, rfl⟩, rfl, rfl⟩

theorem handleRecoveryResponse_adopts (hcmd : im.message.header.command = .recoveryResponse)
    (h : adoption? env r.state im.message = some a) :
    AdoptsBy a (r.handleRecoveryResponse im) := by
  unfold adoption? at h
  simp only [hcmd] at h
  split at h
  · cases h
  · rename_i payload hpayload
    split at h
    · rename_i hcond
      obtain rfl := Option.some.inj h
      have hstate := handleRecoveryResponse_state hpayload hcond.1 hcond.2
      refine ⟨{ r with state := adoptResponse r.state (bestResponse r.state im.message) },
        ⟨rfl, rfl, rfl, rfl⟩, ?_, ?_⟩
      · rw [hstate]
      · rw [hstate]
    · cases h

theorem handleDoViewChange_adopts (env : Env) (r : Replica) (im : InboundMessage)
    (hquorum : r.state.faultToleranceF + 1
      ≤ (r.state.doViewChangeReceived ++ [im.message]).length) :
    AdoptsBy
      { log := (selectLog env.uninitialized r.state.commit
          (r.state.doViewChangeReceived ++ [im.message])).payload.log
        commit := (selectLog env.uninitialized r.state.commit
          (r.state.doViewChangeReceived ++ [im.message])).commit
        lastExecutedOp := r.state.lastExecutedOp
        table := r.state.clientTable
        goesOver := false } (r.handleDoViewChange env im) := by
  unfold handleDoViewChange
  simp only []
  rw [if_pos hquorum]
  exact ⟨broadcastToPeers
      { r with state := startedState r.state (selectLog env.uninitialized r.state.commit
          (r.state.doViewChangeReceived ++ [im.message])) }
      (startViewMessage (startedState r.state (selectLog env.uninitialized r.state.commit
        (r.state.doViewChangeReceived ++ [im.message])))),
    ⟨rfl, rfl, rfl, rfl⟩, rfl, rfl⟩

theorem dispatch_adopts (h : adoption? env r.state im.message = some a) :
    AdoptsBy a (Node.dispatch env r im) := by
  by_cases hstart : im.message.header.command = .startView
  · simp only [Node.dispatch, hstart]
    exact handleStartView_adopts hstart h
  by_cases hresponse : im.message.header.command = .recoveryResponse
  · simp only [Node.dispatch, hresponse]
    exact handleRecoveryResponse_adopts hresponse h
  obtain ⟨votes, hvotes, rfl⟩ : ∃ votes, completingVotes? r.state im.message = some votes ∧ _ := by
    unfold adoption? at h
    split at h
    · rename_i hcmd
      exact absurd hcmd hstart
    · rename_i hcmd
      exact absurd hcmd hresponse
    · exact Option.map_eq_some_iff.mp h
  obtain ⟨d, hd, hvotes⟩ := Option.bind_eq_some_iff.mp hvotes
  split at hvotes
  · rename_i hquorum
    obtain rfl := Option.some.inj hvotes
    unfold collectedVote? at hd
    split at hd
    · rename_i hcmd
      obtain rfl := Option.some.inj hd
      simp only [Node.dispatch, hcmd]
      exact handleDoViewChange_adopts env r im hquorum
    · split at hd
      · rename_i hprimary
        have hcmd := (builtVote?_eq_some hd).1
        simp only [Node.dispatch, hcmd]
        rw [handleStartViewChange_eq env r hcmd, hd]
        have hself : ReplicaState.getPrimaryIdForView
            { r.state with startViewChangeReceived := ∅ } r.state.view = some r.state.id :=
          hprimary
        simp only [hself, if_true]
        exact handleDoViewChange_adopts env
          { r with state := { r.state with startViewChangeReceived := ∅ } } ⟨.null, d⟩ hquorum
      · cases hd
  · cases hvotes

end

/-- A request that is in the log is not logged again. -/
theorem ClientsCovered.resend {r : Replica} (h : ClientsCovered r.state) {n : Nat} {e : LogEntry}
    (he : r.state.log[n]? = some e) {im : InboundMessage}
    (hclient : im.message.header.client = e.clientId)
    (hrequest : im.message.header.request = e.requestNum) :
    (r.handleRequest im).state.log = r.state.log
      ∧ (r.handleRequest im).state.op = r.state.op := by
  have hle : im.message.header.request
      ≤ (r.state.clientTable.getD im.message.header.client {}).requestNumber := by
    rw [hclient, hrequest]
    exact h n e he
  unfold handleRequest
  simp only []
  split
  · exact ⟨rfl, rfl⟩
  · split
    · exact ⟨rfl, rfl⟩
    · omega

namespace Cluster

/-- The replica that adopts a log in this step, and the log. -/
def adopts? (c : Cluster) (ev : Event) : Option (Nat × Adoption) :=
  match ev with
  | .tick i env => (c.nodes i).handles?.bind fun im =>
      (adoption? env (c.state i) im.message).map (i, ·)
  | _ => none

end Cluster

open Cluster

/-- In every run, whenever a replica adopts a log, the client table has heard of
every request in it, and no resend of one is logged again, if and only if the
last executed request of each client is its highest in the log and a new
primary knows those of the clients it executes nothing of. -/
theorem adoption_covers_clients_iff {ok : Cluster → Event → Cluster → Prop} {f i : Nat}
    {c c' : Cluster} {ev : Event} {a : Adoption} (run : Run ok (init (2 * f + 1)) c)
    (hstep : c.step ev = some c') (hadopts : c.adopts? ev = some (i, a)) :
    (ClientsCovered (c'.state i) ↔ a.KeepsClients)
      ∧ (a.KeepsClients → ∀ (n : Nat) (e : LogEntry) (im : InboundMessage),
        (c'.state i).log[n]? = some e → im.message.header.client = e.clientId →
        im.message.header.request = e.requestNum →
        ((c'.nodes i).replica.handleRequest im).state.log = (c'.state i).log
          ∧ ((c'.nodes i).replica.handleRequest im).state.op = (c'.state i).op) := by
  cases ev with
  | tick k env =>
      obtain ⟨im, hhandles, hadopts⟩ := Option.bind_eq_some_iff.mp hadopts
      obtain ⟨a', hadoption, heq⟩ := Option.map_eq_some_iff.mp hadopts
      cases heq
      obtain ⟨-, rest, -, -, hlocal⟩ := local_of_handles (static_run run) hstep hhandles
      obtain ⟨r₁, hmade, hlog, htable⟩ := dispatch_adopts hadoption
      have hiff : ClientsCovered (c'.state i) ↔ a.KeepsClients := by
        rw [← hmade.clientsCovered_iff, hlocal.state_self]
        unfold ClientsCovered ReplicaState.clientEntry
        rw [hlog, htable]
      exact ⟨hiff, fun hkeeps n e im he hclient hrequest =>
        (hiff.mpr hkeeps).resend (r := (c'.nodes i).replica) he hclient hrequest⟩
  | _ => cases hadopts

/-- Primary 0 logs a request of client 1, and backup `i` gets the `Prepare`. The
two backups change to view 1, and replica 1 is about to have both votes. -/
def viewOneAbout (i : Nat) : List Event :=
  request 0 7 (setRequest 1 1 [97, 32, 98]) ++ receive (i - 1) i ++ [.timeout 1, .timeout 2]
    ++ receive 5 1 ++ receive 3 2 ++ [.deliver 4, .start 1]

/-- The new primary has had the request itself. -/
theorem adoption_covers_clients_known :
    ∃ c c' a, Run Unbroken (init (2 * 1 + 1)) c ∧ c.step (.tick 1 {}) = some c'
      ∧ c.adopts? (.tick 1 {}) = some (1, a) ∧ (c'.state 1).op = 1
      ∧ ClientsCovered (c'.state 1) := by
  obtain ⟨c, run, c', hstep, ⟨i, a⟩, hadopts, hi, hop, hkeeps⟩ := exists_of_replay step Unbroken
    (init (2 * 1 + 1)) (viewOneAbout 1)
    (P := fun c => ∃ c' ∈ c.step (.tick 1 {}), ∃ x ∈ c.adopts? (.tick 1 {}), x.1 = 1
      ∧ (c'.state 1).op = 1 ∧ x.2.KeepsClients) (by decide +kernel)
  obtain rfl : i = 1 := hi
  exact ⟨c, c', a, run, hstep, hadopts, hop,
    (adoption_covers_clients_iff run hstep hadopts).1.mpr hkeeps⟩

/-- The new primary has the request from the other backup's vote. It has not
heard of it, and logs it again when the client resends it. -/
theorem resend_logged_again :
    ∃ c c' a, Run Unbroken (init (2 * 1 + 1)) c ∧ c.step (.tick 1 {}) = some c'
      ∧ c.adopts? (.tick 1 {}) = some (1, a) ∧ ¬ClientsCovered (c'.state 1)
      ∧ ((c'.nodes 1).replica.handleRequest
        ⟨.client 8, setRequest 1 1 [97, 32, 98]⟩).state.op = 2 := by
  obtain ⟨c, run, c', hstep, ⟨i, a⟩, hadopts, hi, hnot, hop⟩ := exists_of_replay step Unbroken
    (init (2 * 1 + 1)) (viewOneAbout 2)
    (P := fun c => ∃ c' ∈ c.step (.tick 1 {}), ∃ x ∈ c.adopts? (.tick 1 {}), x.1 = 1
      ∧ ¬ClientsCovered (c'.state 1) ∧ ((c'.nodes 1).replica.handleRequest
        ⟨.client 8, setRequest 1 1 [97, 32, 98]⟩).state.op = 2) (by decide +kernel)
  obtain rfl : i = 1 := hi
  exact ⟨c, c', a, run, hstep, hadopts, hnot, hop⟩

end VsrKv
