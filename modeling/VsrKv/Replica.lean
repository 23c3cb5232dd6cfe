import VsrKv.ReplicaState
import VsrKv.Words

/-!
# The replica: one definition per handler

`replica.cpp` from the ping handler down to
`advance_primary_commit_number`. A handler takes the replica and the
message and returns the replica; what it hands to the networking layer
is appended to `out` in program order. Log output and the clock behind
`last_primary_contact_` are left out: nothing but the liveness timer,
which the environment fires, reads the latter.

Two inputs come from the environment and not from the message: the
clock reading that goes into a recovery nonce, and the value an
uninitialised `do_view_change_payload` happens to hold.
-/

namespace VsrKv

open Words (isSpace)

/-- What a replica does that can be seen from outside. `executed` records
one turn of the loop of `execute_commited_ops`: the replica's view, the op
number, the entry, and the result unless the entry was skipped. -/
inductive Effect where
  | toPeer (id : Nat) (msg : VsrMessage)
  | broadcast (msg : VsrMessage)
  | toConnection (connection : Connection) (msg : VsrMessage)
  | executed (view op : Nat) (entry : LogEntry) (result : Option Bytes)
deriving DecidableEq

structure Env where
  now : UInt64 := 0
  uninitialized : Nat := 0
deriving Repr, DecidableEq

structure Replica where
  state : ReplicaState
  clientConnections : StdMap UInt128 Connection := ∅
  nonceCounter : UInt32 := 0
  out : List Effect := []

inductive StateAction where
  | processNormally
  | initiateViewChange
  | initiateRecovery
deriving Repr, DecidableEq

/-- `utilities::generate_nonce`; `counter` is the process-local counter
before the call. -/
def generateNonce (now : UInt64) (replicaId : Nat) (counter : UInt32) : UInt128 where
  high := now
  low := (UInt64.ofNat replicaId <<< 32) ||| counter.toUInt64

/-! ## The key-value state machine -/

/-- `stream >> token`: skip white space, take up to the next white space.
An exhausted stream leaves the token empty. -/
def nextToken (stream : Bytes) : Bytes × Bytes :=
  let stream := stream.dropWhile isSpace
  (stream.takeWhile (!isSpace ·), stream.dropWhile (!isSpace ·))

/-- `"SET " + key + "=" + value`. -/
def setResult (key value : Bytes) : Bytes := [83, 69, 84, 32] ++ key ++ [61] ++ value

/-- `"NOT_FOUND"`. -/
def notFound : Bytes := [78, 79, 84, 95, 70, 79, 85, 78, 68]

/-- The map after an entry's operation, and the result for the client. -/
def applyOperation (stateMachine : StdMap Bytes Bytes) (entry : LogEntry) :
    StdMap Bytes Bytes × Bytes :=
  match entry.opType with
  | .set =>
      let (key, stream) := nextToken entry.payload
      let (value, _) := nextToken stream
      (stateMachine.insert key value, setResult key value)
  | .get =>
      let (key, _) := nextToken entry.payload
      (stateMachine, stateMachine[key]?.getD notFound)
  | _ => (stateMachine, [])

namespace Replica

/-! ## Sending -/

def emit (r : Replica) (e : Effect) : Replica := { r with out := r.out ++ [e] }

def sendMessage (r : Replica) (connection : Connection) (msg : VsrMessage) : Replica :=
  r.emit (.toConnection connection msg)

def sendToPeer (r : Replica) (id : Nat) (msg : VsrMessage) : Replica :=
  r.emit (.toPeer id msg)

def broadcastToPeers (r : Replica) (msg : VsrMessage) : Replica := r.emit (.broadcast msg)

/-! ## Execution and commit -/

def replyMessage (s : ReplicaState) (entry : LogEntry) (result : Bytes) : VsrMessage where
  header :=
    { command := .reply, view := s.view, client := entry.clientId, request := entry.requestNum }
  payload := result

/-- The primary answers the client it knows a connection for. -/
def sendReply (r : Replica) (entry : LogEntry) (result : Bytes) : Replica :=
  if r.state.isPrimary then
    match r.clientConnections[entry.clientId]? with
    | none | some .null => r
    | some connection => r.sendMessage connection (replyMessage r.state entry result)
  else r

/-- The body of the loop of `execute_commited_ops` for a logged entry. -/
def executeOp (r : Replica) (opToExecute : Nat) (entry : LogEntry) : Replica :=
  let s := r.state
  let clientEntry := s.clientTable.getD entry.clientId {}
  if clientEntry.requestNumber ≠ entry.requestNum ∨ clientEntry.executed = false then
    let (stateMachine, result) := applyOperation s.stateMachine entry
    let clientEntry := { requestNumber := entry.requestNum, executed := true, result }
    let clientTable := s.clientTable.insert entry.clientId clientEntry
    let r := { r with state := { s with stateMachine, clientTable } }
    let r := r.emit (.executed s.view opToExecute entry (some result))
    let r := r.sendReply entry result
    { r with state := { r.state with lastExecutedOp := opToExecute } }
  else
    let r := r.emit (.executed s.view opToExecute entry none)
    { r with state := { r.state with lastExecutedOp := opToExecute } }

/-- The loop, given how many ops the commit number is ahead. -/
def executeLoop : Nat → Replica → Replica
  | 0, r => r
  | k + 1, r =>
      let opToExecute := r.state.lastExecutedOp + 1
      match r.state.log[opToExecute]? with
      | none => r
      | some entry => executeLoop k (r.executeOp opToExecute entry)

def executeCommitedOps (r : Replica) : Replica :=
  executeLoop (r.state.commit - r.state.lastExecutedOp) r

/-- The commit number the loop of `advance_primary_commit_number` stops
at. Every turn passes a logged op, so the size of the log bounds them. -/
def advanceLoop (f : Nat) (log : Log) : Nat → Nat → Nat
  | 0, commit => commit
  | k + 1, commit =>
      let nextOpToCommit := u64 (commit + 1)
      match log[nextOpToCommit]? with
      | none => commit
      | some entry =>
          if entry.prepareOkAcks.card < f + 1 then commit
          else advanceLoop f log k nextOpToCommit

def advancePrimaryCommitNumber (r : Replica) : Replica :=
  let s := r.state
  if s.isPrimary then
    let commit := advanceLoop s.faultToleranceF s.log s.log.size s.commit
    executeCommitedOps { r with state := { s with commit } }
  else r

/-- Set the commit number a backup has been told of, if it is news. -/
def raiseCommit (r : Replica) (commit : Nat) : Replica :=
  if commit > r.state.commit then
    executeCommitedOps { r with state := { r.state with commit } }
  else r

/-! ## Admission -/

def checkCanProcessRequest (s : ReplicaState) (_ : VsrMessage) : Bool :=
  s.status == .normal && s.isPrimary

def checkCanProcessPrepare (s : ReplicaState) (msg : VsrMessage) : Bool :=
  s.status == .normal && !s.isPrimary && msg.header.view == s.view
    && msg.header.op == u64 (s.op + 1)

def checkCanProcessPrepareOk (s : ReplicaState) (msg : VsrMessage) : Bool :=
  s.status == .normal && s.isPrimary && msg.header.view == s.view

def checkCanProcessCommit (s : ReplicaState) (msg : VsrMessage) : Bool :=
  s.status == .normal && !s.isPrimary && msg.header.view == s.view

def checkCanProcessStartViewChange (s : ReplicaState) (msg : VsrMessage) : Bool :=
  msg.header.view == s.view && s.status == .viewChange

def checkCanProcessDoViewChange (s : ReplicaState) (msg : VsrMessage) : Bool :=
  msg.header.view == s.view && s.status == .viewChange
    && s.getPrimaryIdForView s.view == some s.id

def checkCanProcessStartView (s : ReplicaState) (msg : VsrMessage) : Bool :=
  msg.header.view == s.view && s.status == .viewChange
    && s.getPrimaryIdForView s.view == some msg.header.replica

def checkCanProcessRecoveryRequest (s : ReplicaState) (_ : VsrMessage) : Bool :=
  s.status == .normal

def checkCanProcessRecoveryResponse (s : ReplicaState) (_ : VsrMessage) : Bool :=
  s.status == .recovery

def canProcess (r : Replica) (inbound : InboundMessage) : Bool :=
  let msg := inbound.message
  match msg.header.command with
  | .ping => true
  | .pong => true
  | .request => checkCanProcessRequest r.state msg
  | .prepare => checkCanProcessPrepare r.state msg
  | .prepareOk => checkCanProcessPrepareOk r.state msg
  | .commit => checkCanProcessCommit r.state msg
  | .startViewChange => checkCanProcessStartViewChange r.state msg
  | .doViewChange => checkCanProcessDoViewChange r.state msg
  | .startView => checkCanProcessStartView r.state msg
  | .recovery => checkCanProcessRecoveryRequest r.state msg
  | .recoveryResponse => checkCanProcessRecoveryResponse r.state msg
  | _ => false

/-! ## Normal operation -/

def handlePing (r : Replica) (inbound : InboundMessage) : Replica :=
  let h := inbound.message.header
  r.sendMessage inbound.connection
    { header :=
        { command := .pong, view := r.state.view, replica := u8 r.state.id,
          client := h.client, request := h.request } }

def cachedReply (msg : VsrMessage) (result : Bytes) : VsrMessage where
  header := { command := .reply, client := msg.header.client, request := msg.header.request }
  payload := result

def prepareMessage (s : ReplicaState) (msg : VsrMessage) : VsrMessage where
  header :=
    { command := .prepare, operation := msg.header.operation, replica := u8 s.id,
      client := msg.header.client, request := msg.header.request,
      view := s.view, op := s.op, commit := s.commit }
  payload := msg.payload

/-- The entry a request or a prepare message is logged as. -/
def entryOf (view : Nat) (msg : VsrMessage) (prepareOkAcks : Finset Nat) : LogEntry where
  view := view
  opType := msg.header.operation
  clientId := msg.header.client
  requestNum := msg.header.request
  payload := msg.payload
  prepareOkAcks := prepareOkAcks

/-- Log an entry at the next op number and note the request as in
progress, as the primary and the backups both do. -/
def appendEntry (s : ReplicaState) (entry : LogEntry) : ReplicaState :=
  { s with
    op := u64 (s.op + 1)
    log := s.log.insert (u64 (s.op + 1)) entry
    clientTable := s.clientTable.insert entry.clientId { requestNumber := entry.requestNum } }

def handleRequest (r : Replica) (inbound : InboundMessage) : Replica :=
  let msg := inbound.message
  let clientEntry := r.state.clientTable.getD msg.header.client {}
  -- `operator[]` creates the entry of a client not seen before.
  let clientTable := r.state.clientTable.insert msg.header.client clientEntry
  let r := { r with state := { r.state with clientTable } }
  if clientEntry.requestNumber > msg.header.request then r
  else if clientEntry.requestNumber = msg.header.request then
    r.sendMessage inbound.connection (cachedReply msg clientEntry.result)
  else
    let clientConnections := r.clientConnections.insert msg.header.client inbound.connection
    let state := appendEntry r.state (entryOf r.state.view msg {r.state.id})
    let r := { r with state, clientConnections }
    r.broadcastToPeers (prepareMessage r.state msg)

def prepareOkMessage (s : ReplicaState) (op : Nat) : VsrMessage where
  header := { command := .prepareOk, view := s.view, op, replica := u8 s.id }

def handlePrepare (r : Replica) (inbound : InboundMessage) : Replica :=
  let msg := inbound.message
  let r := { r with state := appendEntry r.state (entryOf r.state.view msg ∅) }
  let r := r.sendMessage inbound.connection (prepareOkMessage r.state r.state.op)
  r.raiseCommit msg.header.commit

def handlePrepareOk (r : Replica) (inbound : InboundMessage) : Replica :=
  let h := inbound.message.header
  let s := r.state
  match s.log[h.op]? with
  | none => r
  | some entry =>
      let entry := { entry with prepareOkAcks := insert h.replica entry.prepareOkAcks }
      advancePrimaryCommitNumber { r with state := { s with log := s.log.insert h.op entry } }

def handleCommit (r : Replica) (inbound : InboundMessage) : Replica :=
  r.raiseCommit inbound.message.header.commit

def commitMessage (s : ReplicaState) : VsrMessage where
  header := { command := .commit, view := s.view, commit := s.commit }

def sendCommitMessageIfNeeded (r : Replica) : Replica :=
  if r.state.isPrimary && r.state.status == .normal then
    r.broadcastToPeers (commitMessage r.state)
  else r

/-! ## View changes -/

def startViewChangeMessage (s : ReplicaState) : VsrMessage where
  header := { command := .startViewChange, view := s.view, replica := u8 s.id }

def initiateViewChange (r : Replica) : Replica :=
  let r := { r with state := r.state.enterNewView (u32 (r.state.view + 1)) }
  r.broadcastToPeers (startViewChangeMessage r.state)

/-- The liveness timer, at a moment when the primary timeout has expired. -/
def checkPrimaryLiveness (r : Replica) : Replica :=
  if !r.state.isPrimary && r.state.status == .normal then r.initiateViewChange else r

/-- The candidate of the selection loop of `handle_do_view_change`. -/
structure LogChoice where
  payload : DoViewChangePayload
  op : Nat
  commit : Nat

def LogChoice.consider (uninitialized : Nat) (best : LogChoice) (msg : VsrMessage) : LogChoice :=
  match DoViewChangePayload.deserialize msg.payload { lastNormalView := uninitialized } with
  | (false, _) => best
  | (true, payload) =>
      let commit := max best.commit msg.header.commit
      if payload.lastNormalView > best.payload.lastNormalView then
        { payload, op := msg.header.op, commit }
      else if payload.lastNormalView = best.payload.lastNormalView ∧ msg.header.op > best.op then
        { payload, op := msg.header.op, commit }
      else { best with commit }

/-- The selection: the first message is taken as it comes, its decoding
unchecked, and the others compete with it. -/
def selectLog (uninitialized commit : Nat) : List VsrMessage → LogChoice
  | [] => { payload := { lastNormalView := uninitialized }, op := 0, commit }
  | first :: rest =>
      let payload := (DoViewChangePayload.deserialize first.payload
        { lastNormalView := uninitialized }).2
      rest.foldl (LogChoice.consider uninitialized)
        { payload, op := first.header.op, commit := max commit first.header.commit }

def startViewMessage (s : ReplicaState) : VsrMessage where
  header :=
    { command := .startView, view := s.view, op := s.op, commit := s.commit, replica := u8 s.id }
  payload := StartViewPayload.serialize { log := s.log }

def handleDoViewChange (env : Env) (r : Replica) (inbound : InboundMessage) : Replica :=
  let s := r.state
  let received := s.doViewChangeReceived ++ [inbound.message]
  if received.length ≥ s.faultToleranceF + 1 then
    let best := selectLog env.uninitialized s.commit received
    let s := { s with
      doViewChangeReceived := []
      log := best.payload.log
      op := best.op
      commit := best.commit
      status := .normal }
    let r := { r with state := s }
    executeCommitedOps (r.broadcastToPeers (startViewMessage s))
  else { r with state := { s with doViewChangeReceived := received } }

def doViewChangeMessage (s : ReplicaState) : VsrMessage where
  header :=
    { command := .doViewChange, view := s.view, op := s.op, commit := s.commit,
      replica := u8 s.id }
  payload := DoViewChangePayload.serialize { lastNormalView := s.lastNormalView, log := s.log }

def handleStartViewChange (env : Env) (r : Replica) (inbound : InboundMessage) : Replica :=
  let s := r.state
  let received := insert inbound.message.header.replica s.startViewChangeReceived
  if received.card ≥ s.faultToleranceF + 1 then
    let s := { s with startViewChangeReceived := ∅ }
    let r := { r with state := s }
    match s.getPrimaryIdForView s.view with
    | none => r
    | some newPrimaryId =>
        if newPrimaryId = s.id then
          handleDoViewChange env r { connection := .null, message := doViewChangeMessage s }
        else r.sendToPeer newPrimaryId (doViewChangeMessage s)
  else { r with state := { s with startViewChangeReceived := received } }

/-- The loop over an adopted log that brings the client table up to it. -/
def coverEntry (table : StdMap UInt128 ClientTableEntry) (entry : LogEntry) :
    StdMap UInt128 ClientTableEntry :=
  let clientEntry := table.getD entry.clientId {}
  table.insert entry.clientId
    (if entry.requestNum > clientEntry.requestNumber then
      { clientEntry with requestNumber := entry.requestNum, executed := false }
    else clientEntry)

def coverLog (table : StdMap UInt128 ClientTableEntry) (log : Log) :
    StdMap UInt128 ClientTableEntry :=
  log.toList.foldl (fun table p => coverEntry table p.2) table

/-- The acknowledgements a backup owes the new primary for the part of the
log that is not known to be committed. -/
def retroactivePrepareOks (s : ReplicaState) (newPrimaryCommitNumber : Nat) : List Effect :=
  let first := u64 (newPrimaryCommitNumber + 1)
  ((List.range' first (s.op + 1 - first)).filter (s.log.contains ·)).map fun opNum =>
    .toPeer s.getPrimaryId (prepareOkMessage s opNum)

def handleStartView (r : Replica) (inbound : InboundMessage) : Replica :=
  let h := inbound.message.header
  match StartViewPayload.deserialize inbound.message.payload {} with
  | (false, _) => r
  | (true, payload) =>
      let s := { r.state with
        view := h.view
        op := h.op
        commit := h.commit
        log := payload.log
        status := .normal
        clientTable := coverLog r.state.clientTable payload.log }
      let r := executeCommitedOps { r with state := s }
      { r with out := r.out ++ retroactivePrepareOks r.state h.commit }

/-! ## Recovery -/

def recoveryMessage (s : ReplicaState) : VsrMessage where
  header := { command := .recovery, replica := u8 s.id }
  payload := RecoveryRequestPayload.serialize { nonce := s.recoveryNonce }

def initiateRecovery (env : Env) (r : Replica) : Replica :=
  let s := r.state
  if s.status = .recovery then r
  else
    let s := { s with
      status := .recovery
      recoveryNonce := generateNonce env.now s.id r.nonceCounter
      recoveryResponses := [] }
    let r := { r with state := s, nonceCounter := r.nonceCounter + 1 }
    r.broadcastToPeers (recoveryMessage s)

def recoveryResponseMessage (s : ReplicaState) (nonce : UInt128) : VsrMessage where
  header :=
    { command := .recoveryResponse, replica := u8 s.id, view := s.view, op := s.op,
      commit := s.commit }
  payload := RecoveryResponsePayload.serialize { nonce, log := s.log }

def handleRecoveryRequest (r : Replica) (inbound : InboundMessage) : Replica :=
  match RecoveryRequestPayload.deserialize inbound.message.payload with
  | none => r
  | some request =>
      r.sendToPeer inbound.message.header.replica
        (recoveryResponseMessage r.state request.nonce)

/-- One turn of the loop that looks for the best response. -/
def betterResponse (best current : VsrMessage) : VsrMessage :=
  if current.header.view > best.header.view then current
  else if current.header.view = best.header.view ∧ current.header.op > best.header.op then current
  else best

/-- The state a replica leaves recovery in, before it executes. -/
def adoptResponse (s : ReplicaState) (best : VsrMessage) : ReplicaState :=
  let payload := (RecoveryResponsePayload.deserialize best.payload {}).2
  { s with
    view := best.header.view
    op := best.header.op
    commit := best.header.commit
    log := payload.log
    lastExecutedOp := 0
    status := .normal
    clientTable := coverLog ∅ payload.log }

def handleRecoveryResponse (r : Replica) (inbound : InboundMessage) : Replica :=
  let s := r.state
  match RecoveryResponsePayload.deserialize inbound.message.payload {} with
  | (false, _) => r
  | (true, payload) =>
      if payload.nonce ≠ s.recoveryNonce then r
      else
        match s.recoveryResponses ++ [inbound.message] with
        | [] => r
        | first :: rest =>
            if rest.length + 1 ≥ s.faultToleranceF + 1 then
              let best := rest.foldl betterResponse first
              let r := executeCommitedOps { r with state := adoptResponse s best }
              { r with state := { r.state with recoveryNonce := {}, recoveryResponses := [] } }
            else { r with state := { s with recoveryResponses := first :: rest } }

/-! ## What to do about a message that cannot be processed -/

def determineStateAction (s : ReplicaState) (stuckMsg : VsrMessage) : StateAction :=
  let h := stuckMsg.header
  if h.view > s.view then
    if h.view = u32 (s.view + 1) ∧ (h.command = .startViewChange ∨ h.command = .doViewChange) then
      .initiateViewChange
    else .initiateRecovery
  else if !s.isPrimary && h.command == .prepare && h.view == s.view
      && decide (h.op > u64 (s.op + 1)) then
    .initiateRecovery
  else .processNormally

end Replica

end VsrKv
