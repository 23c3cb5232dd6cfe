import VsrKv.Execution
import VsrKv.MessageQueue

/-!
# What handling a message can do

The inversion lemma the invariants are proved from. `Acts s im s' effs`
lists, once, every outcome of dispatching the message `im` in state
`s`: the guard under which it happens, the state it leaves and what it
emits. `dispatch_acts` says the list is complete; after it no proof
about the protocol looks inside a handler again.

The outcomes are named after what they mean to the protocol. Where two
handlers share one, as the handler of a received `DoViewChange` and the
one that hands a new primary its own, they share a constructor.
-/

namespace VsrKv

open Replica

/-- The state after being told that ops up to `c` are committed. -/
def raiseTo (s : ReplicaState) (c : Nat) : ReplicaState :=
  { s with commit := if c > s.commit then c else s.commit }

/-- The state in which the vote `d` is collected and the vote itself: a
received one, or, once enough replicas want the view change, one's own. -/
inductive CollectsVote (s : ReplicaState) (im : InboundMessage) :
    ReplicaState → VsrMessage → Prop where
  | received (hcmd : im.message.header.command = .doViewChange)
      (hview : im.message.header.view = s.view) (hst : s.status = .viewChange)
      (hprimary : s.getPrimaryIdForView s.view = some s.id) :
      CollectsVote s im s im.message
  | own (hcmd : im.message.header.command = .startViewChange)
      (hview : im.message.header.view = s.view) (hst : s.status = .viewChange)
      (hquorum : s.faultToleranceF + 1
        ≤ (insert im.message.header.replica s.startViewChangeReceived).card)
      (hprimary : s.getPrimaryIdForView s.view = some s.id) :
      CollectsVote s im { s with startViewChangeReceived := ∅ }
        (doViewChangeMessage { s with startViewChangeReceived := ∅ })

theorem CollectsVote.status {s s₁ : ReplicaState} {im : InboundMessage} {d : VsrMessage}
    (h : CollectsVote s im s₁ d) : s.status = .viewChange := by
  cases h with
  | received hcmd hview hst => exact hst
  | own hcmd hview hst => exact hst

/-- Votes are collected by the primary of the new view. -/
theorem CollectsVote.primary {s s₁ : ReplicaState} {im : InboundMessage} {d : VsrMessage}
    (h : CollectsVote s im s₁ d) : s.getPrimaryIdForView s.view = some s.id := by
  cases h with
  | received hcmd hview hst hprimary => exact hprimary
  | own hcmd hview hst hquorum hprimary => exact hprimary

/-- Whoever cast it, it is a vote for the current view. -/
theorem CollectsVote.header {s s₁ : ReplicaState} {im : InboundMessage} {d : VsrMessage}
    (h : CollectsVote s im s₁ d) :
    d.header.command = .doViewChange ∧ d.header.view = s.view := by
  cases h with
  | received hcmd hview => exact ⟨hcmd, hview⟩
  | own => exact ⟨rfl, rfl⟩

/-- What the client table has on a client; a client not seen before has the
default entry. -/
def ReplicaState.clientEntry (s : ReplicaState) (client : UInt128) : ClientTableEntry :=
  s.clientTable.getD client {}

/-- The state after looking a client up with `operator[]`. -/
def touched (s : ReplicaState) (client : UInt128) : ReplicaState :=
  { s with clientTable := s.clientTable.insert client (s.clientEntry client) }

/-- The replica takes the message for a new request, and logs it. -/
def takesForNew (s : ReplicaState) (msg : VsrMessage) : Bool :=
  msg.header.command == .request && checkCanProcessRequest s msg
    && decide ((s.clientEntry msg.header.client).requestNumber < msg.header.request)

/-- The new primary's state once it has chosen a log. -/
def startedState (s : ReplicaState) (best : LogChoice) : ReplicaState :=
  { s with
    doViewChangeReceived := []
    log := best.payload.log
    op := best.op
    commit := best.commit
    status := .normal }

/-- A backup's state once it has adopted a `StartView`. -/
def adoptedState (s : ReplicaState) (h : VsrHeader) (log : Log) : ReplicaState :=
  { s with
    view := h.view
    op := h.op
    commit := h.commit
    log := log
    status := .normal
    clientTable := coverLog s.clientTable log }

/-- The primary's log with one more acknowledgement of `entry` at `op`. -/
def recordAck (s : ReplicaState) (op backup : Nat) (entry : LogEntry) : ReplicaState :=
  { s with
    log := s.log.insert op
      { entry with prepareOkAcks := insert backup entry.prepareOkAcks } }

/-- The commit number moved as far as the acknowledgements allow. -/
def advanced (s : ReplicaState) : ReplicaState :=
  { s with commit := advanceLoop s.faultToleranceF s.log s.log.size s.commit }

inductive Acts (env : Env) (s : ReplicaState) (im : InboundMessage) :
    ReplicaState → List Effect → Prop where
  /-- Nothing happens: an undecodable or unexpected message. -/
  | ignore : Acts env s im s []
  | pong (msg : VsrMessage) (hcmd : im.message.header.command = .ping)
      (hmsg : msg.header.command = .pong) :
      Acts env s im s [.toConnection im.connection msg]
  /-- A request that is not new: silence, or the cached result. -/
  | old (hcmd : im.message.header.command = .request) (hst : s.status = .normal)
      (hprimary : s.isPrimary = true) (effs : List Effect)
      (heffs : ∀ e ∈ effs,
        (s.clientEntry im.message.header.client).requestNumber = im.message.header.request
        ∧ e = .toConnection im.connection
          (cachedReply im.message (s.clientEntry im.message.header.client).result)) :
      Acts env s im (touched s im.message.header.client) effs
  | propose (hcmd : im.message.header.command = .request) (hst : s.status = .normal)
      (hprimary : s.isPrimary = true)
      (hnew : (s.clientEntry im.message.header.client).requestNumber
        < im.message.header.request) :
      Acts env s im
        (appendEntry (touched s im.message.header.client) (entryOf s.view im.message {s.id}))
        [.broadcast (prepareMessage { s with op := u64 (s.op + 1) } im.message)]
  | accept (s' : ReplicaState) (effs : List Effect)
      (hcmd : im.message.header.command = .prepare) (hst : s.status = .normal)
      (hprimary : s.isPrimary = false) (hview : im.message.header.view = s.view)
      (hop : im.message.header.op = u64 (s.op + 1))
      (hexec : Executed (raiseTo (appendEntry s (entryOf s.view im.message ∅))
        im.message.header.commit) s' effs) :
      Acts env s im s'
        (.toConnection im.connection (prepareOkMessage s (u64 (s.op + 1))) :: effs)
  | acknowledge (entry : LogEntry) (s' : ReplicaState) (effs : List Effect)
      (hcmd : im.message.header.command = .prepareOk) (hst : s.status = .normal)
      (hprimary : s.isPrimary = true) (hview : im.message.header.view = s.view)
      (hentry : s.log[im.message.header.op]? = some entry)
      (hexec : Executed (advanced
        (recordAck s im.message.header.op im.message.header.replica entry)) s' effs) :
      Acts env s im s' effs
  | learn (s' : ReplicaState) (effs : List Effect)
      (hcmd : im.message.header.command = .commit) (hst : s.status = .normal)
      (hprimary : s.isPrimary = false) (hview : im.message.header.view = s.view)
      (hexec : Executed (raiseTo s im.message.header.commit) s' effs) :
      Acts env s im s' effs
  /-- A `StartViewChange` short of a quorum. -/
  | join (hcmd : im.message.header.command = .startViewChange)
      (hview : im.message.header.view = s.view) (hst : s.status = .viewChange) :
      Acts env s im
        { s with
          startViewChangeReceived :=
            insert im.message.header.replica s.startViewChangeReceived }
        []
  | vote (p : Nat) (hcmd : im.message.header.command = .startViewChange)
      (hview : im.message.header.view = s.view) (hst : s.status = .viewChange)
      (hquorum : s.faultToleranceF + 1
        ≤ (insert im.message.header.replica s.startViewChangeReceived).card)
      (hp : s.getPrimaryIdForView s.view = some p) (hne : p ≠ s.id) :
      Acts env s im { s with startViewChangeReceived := ∅ }
        [.toPeer p (doViewChangeMessage { s with startViewChangeReceived := ∅ })]
  /-- A quorum of `StartViewChange` in a cluster with no primary to tell. -/
  | discard (hcmd : im.message.header.command = .startViewChange)
      (hview : im.message.header.view = s.view) (hst : s.status = .viewChange)
      (hquorum : s.faultToleranceF + 1
        ≤ (insert im.message.header.replica s.startViewChangeReceived).card)
      (hp : s.getPrimaryIdForView s.view = none) :
      Acts env s im { s with startViewChangeReceived := ∅ } []
  | collect (s₁ : ReplicaState) (d : VsrMessage) (h : CollectsVote s im s₁ d) :
      Acts env s im { s₁ with doViewChangeReceived := s₁.doViewChangeReceived ++ [d] } []
  | startView (s₁ : ReplicaState) (d : VsrMessage) (h : CollectsVote s im s₁ d)
      (hquorum : s.faultToleranceF + 1 ≤ (s₁.doViewChangeReceived ++ [d]).length)
      (best : LogChoice)
      (hbest : best = selectLog env.uninitialized s.commit (s₁.doViewChangeReceived ++ [d]))
      (s' : ReplicaState) (effs : List Effect)
      (hexec : Executed (startedState s₁ best) s' effs) :
      Acts env s im s' (.broadcast (startViewMessage (startedState s₁ best)) :: effs)
  | adopt (payload : StartViewPayload) (s' : ReplicaState) (effs : List Effect)
      (hcmd : im.message.header.command = .startView)
      (hview : im.message.header.view = s.view) (hst : s.status = .viewChange)
      (hprimary : s.getPrimaryIdForView s.view = some im.message.header.replica)
      (hpayload : StartViewPayload.deserialize im.message.payload {} = (true, payload))
      (hexec : Executed (adoptedState s im.message.header payload.log) s' effs) :
      Acts env s im s' (effs ++ retroactivePrepareOks s' im.message.header.commit)
  | respond (request : RecoveryRequestPayload)
      (hcmd : im.message.header.command = .recovery) (hst : s.status = .normal)
      (hrequest : RecoveryRequestPayload.deserialize im.message.payload = some request) :
      Acts env s im s
        [.toPeer im.message.header.replica (recoveryResponseMessage s request.nonce)]
  | gather (payload : RecoveryResponsePayload)
      (hcmd : im.message.header.command = .recoveryResponse) (hst : s.status = .recovery)
      (hpayload : RecoveryResponsePayload.deserialize im.message.payload {} = (true, payload))
      (hnonce : payload.nonce = s.recoveryNonce) :
      Acts env s im { s with recoveryResponses := s.recoveryResponses ++ [im.message] } []
  | recover (payload : RecoveryResponsePayload)
      (hcmd : im.message.header.command = .recoveryResponse) (hst : s.status = .recovery)
      (hpayload : RecoveryResponsePayload.deserialize im.message.payload {} = (true, payload))
      (hnonce : payload.nonce = s.recoveryNonce)
      (first : VsrMessage) (rest : List VsrMessage)
      (hresponses : s.recoveryResponses ++ [im.message] = first :: rest)
      (hquorum : s.faultToleranceF + 1 ≤ rest.length + 1)
      (s₁ : ReplicaState) (effs : List Effect)
      (hexec : Executed (adoptResponse s (rest.foldl betterResponse first)) s₁ effs) :
      Acts env s im { s₁ with recoveryNonce := {}, recoveryResponses := [] } effs

/-! ## Messages that carry a log or an entry

Three kinds of messages carry a log, and a `Prepare` carries an entry. Of
everything a handler emits, these are the ones later results look into. -/

/-- The message an effect carries. -/
def Effect.message? : Effect → Option VsrMessage
  | .toPeer _ msg => some msg
  | .broadcast msg => some msg
  | .toConnection _ msg => some msg
  | .executed .. => none

/-- A single effect sends a single message. -/
theorem forall_message_singleton {P : VsrMessage → Prop} {eff : Effect} {m : VsrMessage}
    (hm : eff.message? = some m) (h : P m) :
    ∀ eff' ∈ [eff], ∀ m', eff'.message? = some m' → P m' := by
  intro eff' heff m' hm'
  obtain rfl := List.mem_singleton.mp heff
  obtain rfl := Option.some.inj (hm.symm.trans hm')
  exact h

inductive LogCarrier (env : Env) (s : ReplicaState) (im : InboundMessage) (eff : Effect)
    (m : VsrMessage) : Prop where
  | plain (hcmd : m.header.command ≠ .doViewChange ∧ m.header.command ≠ .startView
      ∧ m.header.command ≠ .recoveryResponse)
  | vote (p : Nat) (heff : eff = .toPeer p m)
      (hmsg : m = doViewChangeMessage { s with startViewChangeReceived := ∅ })
  | start (s₁ : ReplicaState) (d : VsrMessage) (hcollect : CollectsVote s im s₁ d)
      (hprimary : s.getPrimaryIdForView s.view = some s.id) (heff : eff = .broadcast m)
      (hmsg : m = startViewMessage (startedState s₁
        (selectLog env.uninitialized s.commit (s₁.doViewChangeReceived ++ [d]))))
  | response (p : Nat) (nonce : UInt128) (heff : eff = .toPeer p m)
      (hmsg : m = recoveryResponseMessage s nonce)

section

variable {env : Env} {s s' : ReplicaState} {im : InboundMessage} {effs : List Effect}

theorem LogCarrier.of_executed {s₁ : ReplicaState} (hexec : Executed s₁ s' effs) :
    ∀ eff ∈ effs, ∀ m, eff.message? = some m → LogCarrier env s im eff m := by
  intro eff heff m hm
  cases hexec.effects eff heff with
  | executed => cases hm
  | reply => cases hm; exact .plain (by simp [replyMessage])

theorem Acts.logCarrier (h : Acts env s im s' effs) :
    ∀ eff ∈ effs, ∀ m, eff.message? = some m → LogCarrier env s im eff m := by
  intro eff heff m hm
  cases h with
  | ignore => cases heff
  | pong msg hcmd hmsg =>
      obtain rfl := List.mem_singleton.mp heff
      cases hm
      exact .plain (by simp [hmsg])
  | old _ _ _ effs heffs =>
      rw [(heffs eff heff).2] at hm
      cases hm
      exact .plain (by simp [cachedReply])
  | propose =>
      obtain rfl := List.mem_singleton.mp heff
      cases hm
      exact .plain (by simp [prepareMessage])
  | accept _ effs _ _ _ _ _ hexec =>
      rcases List.mem_cons.mp heff with rfl | heff
      · cases hm
        exact .plain (by simp [prepareOkMessage])
      · exact .of_executed hexec eff heff m hm
  | acknowledge _ _ _ _ _ _ _ _ hexec => exact .of_executed hexec eff heff m hm
  | learn _ _ _ _ _ _ hexec => exact .of_executed hexec eff heff m hm
  | join => cases heff
  | vote p =>
      obtain rfl := List.mem_singleton.mp heff
      cases hm
      exact .vote p rfl rfl
  | discard => cases heff
  | collect => cases heff
  | startView s₁ d hcollect hquorum best hbest _ effs hexec =>
      rcases List.mem_cons.mp heff with rfl | heff
      · cases hm
        subst hbest
        exact .start s₁ d hcollect hcollect.primary rfl rfl
      · exact .of_executed hexec eff heff m hm
  | adopt _ _ effs _ _ _ _ _ hexec =>
      rcases List.mem_append.mp heff with heff | heff
      · exact .of_executed hexec eff heff m hm
      · obtain ⟨n, -, rfl⟩ := List.mem_map.mp heff
        cases hm
        exact .plain (by simp [prepareOkMessage])
  | respond request =>
      obtain rfl := List.mem_singleton.mp heff
      cases hm
      exact .response _ request.nonce rfl rfl
  | gather => cases heff
  | recover _ _ _ _ _ _ _ _ _ _ _ hexec => exact .of_executed hexec eff heff m hm

/-- Only a primary that takes a request sends a `Prepare`. -/
theorem Acts.prepare (h : Acts env s im s' effs) :
    ∀ eff ∈ effs, ∀ m, eff.message? = some m → m.header.command = .prepare →
      im.message.header.command = .request ∧ s.isPrimary = true ∧ eff = .broadcast m
        ∧ m = prepareMessage { s with op := u64 (s.op + 1) } im.message := by
  have hexecuted : ∀ {s₁ s' : ReplicaState} {effs : List Effect}, Executed s₁ s' effs →
      ∀ eff ∈ effs, ∀ m, eff.message? = some m → m.header.command ≠ .prepare := by
    intro s₁ s' effs hexec eff heff m hm
    cases hexec.effects eff heff with
    | executed => cases hm
    | reply => cases hm; simp [replyMessage]
  intro eff heff m hm hprepare
  cases h with
  | propose hcmd _ hprimary =>
      obtain rfl := List.mem_singleton.mp heff
      cases hm
      exact ⟨hcmd, hprimary, rfl, rfl⟩
  | ignore | join | discard | collect | gather => cases heff
  | pong msg _ hmsg =>
      obtain rfl := List.mem_singleton.mp heff
      cases hm
      simp [hmsg] at hprepare
  | old _ _ _ effs heffs =>
      rw [(heffs eff heff).2] at hm
      cases hm
      simp [cachedReply] at hprepare
  | accept _ effs _ _ _ _ _ hexec =>
      rcases List.mem_cons.mp heff with rfl | heff
      · cases hm
        simp [prepareOkMessage] at hprepare
      · exact absurd hprepare (hexecuted hexec eff heff m hm)
  | acknowledge _ _ _ _ _ _ _ _ hexec => exact absurd hprepare (hexecuted hexec eff heff m hm)
  | learn _ _ _ _ _ _ hexec => exact absurd hprepare (hexecuted hexec eff heff m hm)
  | vote =>
      obtain rfl := List.mem_singleton.mp heff
      cases hm
      simp [doViewChangeMessage] at hprepare
  | startView s₁ d hcollect hquorum best hbest _ effs hexec =>
      rcases List.mem_cons.mp heff with rfl | heff
      · cases hm
        simp [startViewMessage] at hprepare
      · exact absurd hprepare (hexecuted hexec eff heff m hm)
  | adopt _ _ effs _ _ _ _ _ hexec =>
      rcases List.mem_append.mp heff with heff | heff
      · exact absurd hprepare (hexecuted hexec eff heff m hm)
      · obtain ⟨n, -, rfl⟩ := List.mem_map.mp heff
        cases hm
        simp [prepareOkMessage] at hprepare
  | respond =>
      obtain rfl := List.mem_singleton.mp heff
      cases hm
      simp [recoveryResponseMessage] at hprepare
  | recover _ _ _ _ _ _ _ _ _ _ _ hexec => exact absurd hprepare (hexecuted hexec eff heff m hm)

end

/-! ## The list is complete -/

section

variable {env : Env} {r : Replica} {im : InboundMessage}

theorem Acts.of_out {s : ReplicaState} {r' : Replica} {effs : List Effect}
    (h : Acts env s im r'.state effs) (hout : r'.out = effs) :
    Acts env s im r'.state r'.out := hout ▸ h

theorem raiseCommit_spec (r : Replica) (c : Nat) :
    ∃ effs, (r.raiseCommit c).out = r.out ++ effs
      ∧ Executed (raiseTo r.state c) (r.raiseCommit c).state effs := by
  unfold raiseCommit raiseTo
  split
  · exact executeCommitedOps_spec _
  · exact ⟨[], by simp, .refl⟩

theorem handleRequest_acts (hout : r.out = []) (hcmd : im.message.header.command = .request)
    (hcan : r.canProcess im = true) :
    Acts env r.state im (r.handleRequest im).state (r.handleRequest im).out := by
  simp only [canProcess, hcmd, checkCanProcessRequest, Bool.and_eq_true, beq_iff_eq] at hcan
  unfold handleRequest
  simp only []
  split
  · rw [hout]
    exact .old hcmd hcan.1 hcan.2 [] (by simp)
  · rename_i hle
    split
    · rename_i heq
      refine .old hcmd hcan.1 hcan.2 _ ?_
      intro e he
      simp only [sendMessage, emit, hout, List.nil_append, List.mem_singleton] at he
      exact ⟨heq, he⟩
    · rename_i hne
      have h : Acts env r.state im _ _ := .propose hcmd hcan.1 hcan.2
        (lt_of_le_of_ne (not_lt.mp hle) hne)
      simpa [broadcastToPeers, emit, hout, appendEntry, prepareMessage, touched,
        ReplicaState.clientEntry] using h

theorem handlePrepare_acts (hout : r.out = []) (hcmd : im.message.header.command = .prepare)
    (hcan : r.canProcess im = true) :
    Acts env r.state im (r.handlePrepare im).state (r.handlePrepare im).out := by
  simp only [canProcess, hcmd, checkCanProcessPrepare, Bool.and_eq_true, beq_iff_eq,
    Bool.not_eq_true'] at hcan
  obtain ⟨⟨⟨hst, hprimary⟩, hview⟩, hop⟩ := hcan
  unfold handlePrepare
  obtain ⟨effs, hout', hexec⟩ := raiseCommit_spec
    (sendMessage { r with state := appendEntry r.state (entryOf r.state.view im.message ∅) }
      im.connection (prepareOkMessage (appendEntry r.state (entryOf r.state.view im.message ∅))
        (u64 (r.state.op + 1)))) im.message.header.commit
  refine Acts.of_out (.accept _ effs hcmd hst hprimary hview hop hexec) (hout'.trans ?_)
  rw [sendMessage, emit, hout]
  rfl

theorem handlePrepareOk_acts (hout : r.out = [])
    (hcmd : im.message.header.command = .prepareOk) (hcan : r.canProcess im = true) :
    Acts env r.state im (r.handlePrepareOk im).state (r.handlePrepareOk im).out := by
  simp only [canProcess, hcmd, checkCanProcessPrepareOk, Bool.and_eq_true, beq_iff_eq] at hcan
  obtain ⟨⟨hst, hprimary⟩, hview⟩ := hcan
  unfold handlePrepareOk
  simp only []
  split
  · rw [hout]
    exact .ignore
  · rename_i entry hentry
    unfold advancePrimaryCommitNumber
    simp only []
    split
    · exact .acknowledge entry _ _ hcmd hst hprimary hview hentry
        (executeCommitedOps_executed
          (r := { r with
            state := advanced
              (recordAck r.state im.message.header.op im.message.header.replica entry) })
          hout)
    · rename_i hnot
      exact absurd hprimary hnot

theorem handleCommit_acts (hout : r.out = []) (hcmd : im.message.header.command = .commit)
    (hcan : r.canProcess im = true) :
    Acts env r.state im (r.handleCommit im).state (r.handleCommit im).out := by
  simp only [canProcess, hcmd, checkCanProcessCommit, Bool.and_eq_true, beq_iff_eq,
    Bool.not_eq_true'] at hcan
  obtain ⟨⟨hst, hprimary⟩, hview⟩ := hcan
  obtain ⟨effs, hout', hexec⟩ := raiseCommit_spec r im.message.header.commit
  refine Acts.of_out (.learn _ effs hcmd hst hprimary hview hexec) (hout'.trans ?_)
  rw [hout, List.nil_append]

/-- Collecting a vote, whoever cast it. -/
theorem handleDoViewChange_acts (r₀ : Replica) {d : InboundMessage} (hout : r.out = [])
    (hf : r.state.faultToleranceF = r₀.state.faultToleranceF)
    (hcommit : r.state.commit = r₀.state.commit)
    (h : CollectsVote r₀.state im r.state d.message) :
    Acts env r₀.state im (r.handleDoViewChange env d).state (r.handleDoViewChange env d).out := by
  unfold handleDoViewChange
  simp only []
  split
  · rename_i hquorum
    obtain ⟨effs, hout', hexec⟩ := executeCommitedOps_spec
      (broadcastToPeers
        { r with state := startedState r.state (selectLog env.uninitialized r.state.commit
            (r.state.doViewChangeReceived ++ [d.message])) }
        (startViewMessage (startedState r.state (selectLog env.uninitialized r.state.commit
          (r.state.doViewChangeReceived ++ [d.message])))))
    refine Acts.of_out (.startView _ _ h (hf ▸ hquorum) _ (hcommit ▸ rfl) _ effs hexec)
      (hout'.trans ?_)
    rw [broadcastToPeers, emit, hout]
    rfl
  · rw [hout]
    exact .collect _ _ h

theorem handleStartViewChange_acts (hout : r.out = [])
    (hcmd : im.message.header.command = .startViewChange) (hcan : r.canProcess im = true) :
    Acts env r.state im (r.handleStartViewChange env im).state
      (r.handleStartViewChange env im).out := by
  simp only [canProcess, hcmd, checkCanProcessStartViewChange, Bool.and_eq_true,
    beq_iff_eq] at hcan
  obtain ⟨hview, hst⟩ := hcan
  unfold handleStartViewChange
  simp only []
  split
  · rename_i hquorum
    split
    · rename_i hp
      rw [hout]
      exact .discard hcmd hview hst hquorum hp
    · rename_i p hp
      split
      · rename_i heq
        subst heq
        exact handleDoViewChange_acts r hout rfl rfl (.own hcmd hview hst hquorum hp)
      · rename_i hne
        rw [sendToPeer, emit, hout]
        exact .vote p hcmd hview hst hquorum hp hne
  · rw [hout]
    exact .join hcmd hview hst

theorem handleStartView_acts (hout : r.out = [])
    (hcmd : im.message.header.command = .startView) (hcan : r.canProcess im = true) :
    Acts env r.state im (r.handleStartView im).state (r.handleStartView im).out := by
  simp only [canProcess, hcmd, checkCanProcessStartView, Bool.and_eq_true, beq_iff_eq] at hcan
  obtain ⟨⟨hview, hst⟩, hprimary⟩ := hcan
  unfold handleStartView
  simp only []
  split
  · rw [hout]
    exact .ignore
  · rename_i payload hpayload
    exact .adopt payload _ _ hcmd hview hst hprimary hpayload
      (executeCommitedOps_executed
        (r := { r with state := adoptedState r.state im.message.header payload.log }) hout)

theorem handleRecoveryRequest_acts (hout : r.out = [])
    (hcmd : im.message.header.command = .recovery) (hcan : r.canProcess im = true) :
    Acts env r.state im (r.handleRecoveryRequest im).state (r.handleRecoveryRequest im).out := by
  simp only [canProcess, hcmd, checkCanProcessRecoveryRequest, beq_iff_eq] at hcan
  unfold handleRecoveryRequest
  split
  · rw [hout]
    exact .ignore
  · rename_i request hrequest
    rw [sendToPeer, emit, hout]
    exact .respond request hcmd hcan hrequest

theorem handleRecoveryResponse_acts (hout : r.out = [])
    (hcmd : im.message.header.command = .recoveryResponse) (hcan : r.canProcess im = true) :
    Acts env r.state im (r.handleRecoveryResponse im).state
      (r.handleRecoveryResponse im).out := by
  simp only [canProcess, hcmd, checkCanProcessRecoveryResponse, beq_iff_eq] at hcan
  unfold handleRecoveryResponse
  simp only []
  split
  · rw [hout]
    exact .ignore
  · rename_i payload hpayload
    split
    · rw [hout]
      exact .ignore
    · rename_i hnonce
      have hnonce := not_not.mp hnonce
      split
      · rw [hout]
        exact .ignore
      · rename_i first rest hresponses
        split
        · rename_i hquorum
          exact .recover payload hcmd hcan hpayload hnonce first rest hresponses hquorum _ _
            (executeCommitedOps_executed
              (r := { r with state := adoptResponse r.state (rest.foldl betterResponse first) })
              hout)
        · rw [hout, ← hresponses]
          exact .gather payload hcmd hcan hpayload hnonce

theorem dispatch_acts (hout : r.out = []) (hcan : r.canProcess im = true) :
    Acts env r.state im (Node.dispatch env r im).state (Node.dispatch env r im).out := by
  unfold Node.dispatch
  split
  · rename_i hcmd
    rw [handlePing, sendMessage, emit, hout]
    exact .pong _ hcmd rfl
  · rename_i hcmd; exact handleRequest_acts hout hcmd hcan
  · rename_i hcmd; exact handlePrepare_acts hout hcmd hcan
  · rename_i hcmd; exact handlePrepareOk_acts hout hcmd hcan
  · rename_i hcmd; exact handleCommit_acts hout hcmd hcan
  · rename_i hcmd; exact handleStartViewChange_acts hout hcmd hcan
  · rename_i hcmd
    have h := hcan
    simp only [canProcess, hcmd, checkCanProcessDoViewChange, Bool.and_eq_true, beq_iff_eq] at h
    exact handleDoViewChange_acts r hout rfl rfl (.received hcmd h.1.1 h.1.2 h.2)
  · rename_i hcmd; exact handleStartView_acts hout hcmd hcan
  · rename_i hcmd; exact handleRecoveryRequest_acts hout hcmd hcan
  · rename_i hcmd; exact handleRecoveryResponse_acts hout hcmd hcan
  · rw [hout]
    exact .ignore

end

end VsrKv
