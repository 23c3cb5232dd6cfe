import VsrKv.Submissions

/-!
# Who is answered

Beside its protocol state a replica keeps the connection each client last
sent a new request over, and the counter its recovery nonces are made
with. Handling a message changes the first for a new request only, and
the second never (`Serving`, `tick_serving`).

So no reply goes astray: whatever is said about a client's request is
said on a connection over which that client has sent one to the same
replica (`replies_to_askers`). A replica that is restarted has forgotten
all connections; what it executes then it does not report to anyone.
-/

namespace VsrKv

open Replica TransitionSystem
open Event (process receive request)

/-! ## What handlers leave alone -/

/-- An effect that announces no recovery, and goes to a client's own connection if
it is a reply. -/
structure Routed (connections : StdMap UInt128 Connection) (eff : Effect) : Prop where
  nonce : eff.nonce? = none
  reply : ∀ m, eff.message? = some m → m.header.command = .reply →
    ∃ conn, connections[m.header.client]? = some conn ∧ eff = .toConnection conn m

/-- What becomes of a replica that takes no new request and does not recover. -/
structure Serving (r r' : Replica) : Prop where
  connections : r'.clientConnections = r.clientConnections
  counter : r'.nonceCounter = r.nonceCounter
  out : ∀ eff ∈ r'.out, eff ∈ r.out ∨ Routed r.clientConnections eff

/-- A message of another kind is neither a reply nor a recovery request. -/
theorem Routed.of_command {connections : StdMap UInt128 Connection} {eff : Effect}
    {m : VsrMessage} (hm : eff.message? = some m)
    (hcmd : m.header.command ≠ .recovery ∧ m.header.command ≠ .reply) :
    Routed connections eff where
  nonce := by rw [Effect.nonce?, hm, Option.bind_some, VsrMessage.nonce?, if_neg hcmd.1]
  reply m' hm' hreply := by
    obtain rfl := Option.some.inj (hm.symm.trans hm')
    exact absurd hreply hcmd.2

namespace Serving

variable {r r₁ r₂ : Replica}

theorem refl (r : Replica) : Serving r r := ⟨rfl, rfl, fun _ heff => Or.inl heff⟩

theorem state (h : Serving r r₁) (s : ReplicaState) : Serving r { r₁ with state := s } :=
  ⟨h.connections, h.counter, h.out⟩

theorem emit (h : Serving r r₁) {eff : Effect} (heff : Routed r.clientConnections eff) :
    Serving r (r₁.emit eff) := by
  refine ⟨h.connections, h.counter, ?_⟩
  intro eff' heff'
  rcases List.mem_append.mp heff' with heff' | heff'
  · exact h.out eff' heff'
  · rw [List.mem_singleton.mp heff']
    exact Or.inr heff

/-- A reply goes to the connection on record. -/
theorem sendReply (h : Serving r r₁) (e : LogEntry) (res : Bytes) :
    Serving r (r₁.sendReply e res) := by
  unfold Replica.sendReply
  split
  · split
    · exact h
    · exact h
    · rename_i conn _ hconn
      refine h.emit ⟨?_, ?_⟩
      · simp [Effect.nonce?, Effect.message?, VsrMessage.nonce?, replyMessage]
      · intro m hm _
        cases hm
        exact ⟨conn, h.connections ▸ hconn, rfl⟩
  · exact h

theorem executeOp (h : Serving r r₁) (n : Nat) (e : LogEntry) :
    Serving r (r₁.executeOp n e) := by
  have hexecuted : ∀ res, Routed r.clientConnections (.executed r₁.state.view n e res) :=
    fun res => ⟨rfl, fun m hm => by cases hm⟩
  unfold Replica.executeOp
  simp only []
  split
  · exact (((h.state _).emit (hexecuted _)).sendReply _ _).state _
  · exact (h.emit (hexecuted _)).state _

theorem executeCommitedOps (h : Serving r r₁) : Serving r r₁.executeCommitedOps :=
  executeCommitedOps_induct (P := Serving r) h fun _ _ h _ _ => h.executeOp _ _

theorem raiseCommit (h : Serving r r₁) (commit : Nat) : Serving r (r₁.raiseCommit commit) := by
  unfold Replica.raiseCommit
  split
  · exact (h.state _).executeCommitedOps
  · exact h

theorem handleDoViewChange (h : Serving r r₁) (env : Env) (im : InboundMessage) :
    Serving r (r₁.handleDoViewChange env im) := by
  unfold Replica.handleDoViewChange
  simp only []
  split
  · refine Serving.executeCommitedOps (emit (h.state _) ?_)
    exact .of_command rfl (by simp [startViewMessage])
  · exact h.state _

end Serving

/-- Only a request changes the connections on record. -/
theorem dispatch_serving (env : Env) (r : Replica) {im : InboundMessage}
    (hcmd : im.message.header.command ≠ .request) : Serving r (Node.dispatch env r im) := by
  have h := Serving.refl r
  unfold Node.dispatch
  split
  · exact h.emit (.of_command rfl (by simp))
  · rename_i hrequest
    exact absurd hrequest hcmd
  · unfold handlePrepare
    exact ((h.state _).emit (.of_command rfl (by simp [prepareOkMessage]))).raiseCommit _
  · unfold handlePrepareOk advancePrimaryCommitNumber
    simp only []
    split
    · exact h
    · split
      · exact (h.state _).executeCommitedOps
      · exact h.state _
  · exact h.raiseCommit _
  · unfold handleStartViewChange
    simp only []
    split
    · split
      · exact h.state _
      · split
        · exact (h.state _).handleDoViewChange env _
        · exact (h.state _).emit (.of_command rfl (by simp [doViewChangeMessage]))
    · exact h.state _
  · exact h.handleDoViewChange env im
  · unfold handleStartView
    simp only []
    split
    · exact h
    · rename_i payload _
      have hexec :=
        (h.state (adoptedState r.state im.message.header payload.log)).executeCommitedOps
      refine ⟨hexec.connections, hexec.counter, ?_⟩
      intro eff heff
      rcases List.mem_append.mp heff with heff | heff
      · exact hexec.out eff heff
      · obtain ⟨k, -, rfl⟩ := List.mem_map.mp heff
        exact Or.inr (.of_command rfl (by simp [prepareOkMessage]))
  · unfold handleRecoveryRequest
    split
    · exact h
    · exact h.emit (.of_command rfl (by simp [recoveryResponseMessage]))
  · unfold handleRecoveryResponse
    simp only []
    split
    · exact h
    · split
      · exact h
      · split
        · exact h
        · split
          · exact ((h.state _).executeCommitedOps).state _
          · exact h.state _
  · exact h

theorem sendCommitMessageIfNeeded_serving (r : Replica) :
    Serving r r.sendCommitMessageIfNeeded := by
  unfold sendCommitMessageIfNeeded
  split
  · exact (Serving.refl r).emit (.of_command rfl (by simp [commitMessage]))
  · exact .refl r

theorem checkPrimaryLiveness_serving (r : Replica) : Serving r r.checkPrimaryLiveness := by
  unfold checkPrimaryLiveness
  split
  · exact ((Serving.refl r).state _).emit (.of_command rfl (by simp [startViewChangeMessage]))
  · exact .refl r

/-- A request is answered on the connection it came over, or not yet. -/
structure Answering (im : InboundMessage) (r r' : Replica) : Prop where
  connections : ∀ x conn, r'.clientConnections[x]? = some conn →
    r.clientConnections[x]? = some conn ∨ x = im.message.header.client ∧ conn = im.connection
  counter : r'.nonceCounter = r.nonceCounter
  out : ∀ eff ∈ r'.out, eff ∈ r.out ∨ eff.nonce? = none
    ∧ ∀ m, eff.message? = some m → m.header.command = .reply →
      m.header.client = im.message.header.client ∧ eff = .toConnection im.connection m

theorem handleRequest_answering (r : Replica) (im : InboundMessage) :
    Answering im r (r.handleRequest im) := by
  unfold handleRequest
  simp only []
  split
  · exact ⟨fun _ _ h => Or.inl h, rfl, fun _ h => Or.inl h⟩
  · split
    · refine ⟨fun _ _ h => Or.inl h, rfl, fun eff heff => ?_⟩
      rcases List.mem_append.mp heff with heff | heff
      · exact Or.inl heff
      · rw [List.mem_singleton.mp heff]
        refine Or.inr ⟨?_, fun m hm _ => by cases hm; exact ⟨rfl, rfl⟩⟩
        simp [Effect.nonce?, Effect.message?, VsrMessage.nonce?, cachedReply]
    · refine ⟨fun x conn hconn => ?_, rfl, fun eff heff => ?_⟩
      · change (r.clientConnections.insert _ _)[x]? = some conn at hconn
        rw [Std.ExtTreeMap.getElem?_insert] at hconn
        split at hconn
        · rename_i heq
          exact Or.inr ⟨(UInt128.eq_of_compare heq).symm, (Option.some.inj hconn).symm⟩
        · exact Or.inl hconn
      · rcases List.mem_append.mp heff with heff | heff
        · exact Or.inl heff
        · rw [List.mem_singleton.mp heff]
          refine Or.inr ⟨?_, fun m hm hreply => ?_⟩
          · simp [Effect.nonce?, Effect.message?, VsrMessage.nonce?, prepareMessage]
          · cases hm
            simp [prepareMessage] at hreply

/-! ## Turns of the queue loop -/

/-- What a turn of the queue loop is to the replica. -/
inductive Turned (n : Node) (r' : Replica) : Prop where
  | serving (h : Serving n.replica r')
  | answering (im : InboundMessage) (rest : List InboundMessage)
      (hqueue : n.messageQueue = im :: rest) (hcmd : im.message.header.command = .request)
      (h : Answering im n.replica r')
  | recovering (env : Env) (hst : n.replica.state.status = .normal)
      (h : r' = n.replica.initiateRecovery env)

theorem tick_turned (env : Env) (n : Node) : Turned n (n.tick env).replica := by
  have hend : ∀ b, Turned n (n.endPass env b).replica := by
    intro b
    unfold Node.endPass Node.reactToStuck
    split
    · exact .serving (.refl _)
    · split
      · rename_i hst
        split
        · exact .recovering env hst rfl
        · exact .serving (((Serving.refl n.replica).state _).emit
            (.of_command rfl (by simp [startViewChangeMessage])))
        · exact .serving (.refl _)
      · exact .serving (.refl _)
  unfold Node.tick
  split
  · exact .serving (.refl _)
  · split
    · exact hend _
    · rename_i im rest hqueue
      split
      · exact .serving (.refl _)
      · split
        · by_cases hcmd : im.message.header.command = .request
          · refine .answering im rest hqueue hcmd ?_
            simp only [Node.dispatch, hcmd]
            exact handleRequest_answering _ im
          · exact .serving (dispatch_serving env _ hcmd)
        · exact hend _

/-! ## Along a run -/

namespace Cluster

variable {es : List Event} {c c' : Cluster} {ev : Event}

/-- The client has sent a request to `i` over this connection. -/
def Asked (es : List Event) (i : Nat) (client : UInt128) (conn : Connection) : Prop :=
  ∃ fd msg, conn = .client fd ∧ Event.client i fd msg ∈ es ∧ msg.header.command = .request
    ∧ msg.header.client = client

/-- The connections on record are those of the clients they stand for, and so are
those that replies have gone to. -/
structure Linked (es : List Event) (c : Cluster) : Prop where
  connections : ∀ i x conn, (c.nodes i).replica.clientConnections[x]? = some conn →
    Asked es i x conn
  replies : ∀ i eff m, (i, eff) ∈ c.trace → eff.message? = some m → m.header.command = .reply →
    ∃ conn, eff = .toConnection conn m ∧ Asked es i m.header.client conn

theorem Asked.append {i : Nat} {client : UInt128} {conn : Connection} (es' : List Event)
    (h : Asked es i client conn) : Asked (es ++ es') i client conn := by
  obtain ⟨fd, msg, hconn, hmem, h⟩ := h
  exact ⟨fd, msg, hconn, List.mem_append_left _ hmem, h⟩

theorem Linked.mono (es' : List Event) (h : Linked es c) : Linked (es ++ es') c where
  connections i x conn hconn := (h.connections i x conn hconn).append es'
  replies i eff m hmem hm hreply := by
    obtain ⟨conn, heff, hasked⟩ := h.replies i eff m hmem hm hreply
    exact ⟨conn, heff, hasked.append es'⟩

/-- A node is replaced by one that knows no other connections. -/
theorem Linked.setNode (h : Linked es c) {i : Nat} {n : Node}
    (hn : ∀ x conn, n.replica.clientConnections[x]? = some conn → Asked es i x conn) :
    Linked es (c.setNode i n) where
  connections j x conn hconn := by
    by_cases hj : j = i
    · subst hj
      exact hn x conn (by simpa [Cluster.setNode] using hconn)
    · exact h.connections j x conn (by simpa [Cluster.setNode, hj] using hconn)
  replies := h.replies

theorem Linked.put (h : Linked es c) {i : Nat} {n : Node}
    (hn : ∀ x conn, n.replica.clientConnections[x]? = some conn → Asked es i x conn)
    (hout : ∀ eff ∈ n.replica.out, ∀ m, eff.message? = some m → m.header.command = .reply →
      ∃ conn, eff = .toConnection conn m ∧ Asked es i m.header.client conn) :
    Linked es (c.put i n) where
  connections j x conn hconn := by
    by_cases hj : j = i
    · subst hj
      exact hn x conn (by simpa [Cluster.put] using hconn)
    · exact h.connections j x conn (by simpa [Cluster.put, hj] using hconn)
  replies j eff m hmem hm hreply := by
    rcases List.mem_append.mp hmem with hmem | hmem
    · exact h.replies j eff m hmem hm hreply
    · obtain ⟨eff', heff', heq⟩ := List.mem_map.mp hmem
      obtain ⟨rfl, rfl⟩ := Prod.mk.inj heq
      exact hout eff' heff' m hm hreply

theorem Linked.serving (h : Linked es c) {i : Nat} {n : Node} (hout : (c.nodes i).replica.out = [])
    (hserving : Serving (c.nodes i).replica n.replica) : Linked es (c.put i n) := by
  refine h.put (fun x conn hconn => ?_) (fun eff heff m hm hreply => ?_)
  · rw [hserving.connections] at hconn
    exact h.connections i x conn hconn
  · rcases hserving.out eff heff with heff | hrouted
    · rw [hout] at heff
      cases heff
    · obtain ⟨conn, hconn, heq⟩ := hrouted.reply m hm hreply
      exact ⟨conn, heq, h.connections i _ conn hconn⟩

theorem Linked.tick (h : Linked es c) {i : Nat} {env : Env} (hout : (c.nodes i).replica.out = [])
    (hqueue : ∀ im ∈ c.queue i, im.message.header.command = .request →
      Asked es i im.message.header.client im.connection) :
    Linked es (c.put i ((c.nodes i).tick env)) := by
  cases tick_turned env (c.nodes i) with
  | serving hserving => exact h.serving hout hserving
  | answering im rest hq hcmd hanswering =>
      have hasked := hqueue im (by rw [queue, hq]; exact List.mem_cons_self) hcmd
      refine h.put (fun x conn hconn => ?_) (fun eff heff m hm hreply => ?_)
      · rcases hanswering.connections x conn hconn with hconn | ⟨rfl, rfl⟩
        · exact h.connections i x conn hconn
        · exact hasked
      · rcases hanswering.out eff heff with heff | ⟨-, hsent⟩
        · rw [hout] at heff
          cases heff
        · obtain ⟨hclient, heq⟩ := hsent m hm hreply
          exact ⟨_, heq, hclient ▸ hasked⟩
  | recovering env' hst heq =>
      rw [initiateRecovery, if_neg (by simp [hst])] at heq
      refine h.put (fun x conn hconn => ?_) (fun eff heff m hm hreply => ?_)
      · rw [heq] at hconn
        exact h.connections i x conn hconn
      · rw [heq, broadcastToPeers, emit, hout, List.nil_append] at heff
        obtain rfl := List.mem_singleton.mp heff
        cases hm
        simp [recoveryMessage] at hreply

theorem Linked.step (h : Linked es c) (hstatic : c.Static) (hbounded : Bounded c)
    (harrived : Arrived es c) (hstep : c.step ev = some c') : Linked (es ++ [ev]) c' := by
  refine Linked.mono [ev] ?_
  have hself : ∀ i x conn, (c.nodes i).replica.clientConnections[x]? = some conn →
      Asked es i x conn := h.connections
  cases ev with
  | client i fd msg =>
      simp only [Cluster.step, Option.ite_none_right_eq_some, Option.some.injEq] at hstep
      obtain ⟨-, rfl⟩ := hstep
      exact h.setNode (hself i)
  | deliver k =>
      simp only [Cluster.step, Option.bind_eq_bind, Option.bind_eq_some_iff,
        Option.ite_none_right_eq_some, Option.some.injEq] at hstep
      obtain ⟨p, -, -, rfl⟩ := hstep
      have h' := h.setNode (n := (c.nodes p.dst).enqueueMessage p.inbound) (hself p.dst)
      exact ⟨h'.connections, h'.replies⟩
  | drop k | duplicate k =>
      simp only [Cluster.step, Option.bind_eq_bind, Option.bind_eq_some_iff,
        Option.some.injEq] at hstep
      obtain ⟨p, -, rfl⟩ := hstep
      exact ⟨h.connections, h.replies⟩
  | start i =>
      simp only [Cluster.step, Option.ite_none_right_eq_some, Option.some.injEq] at hstep
      obtain ⟨-, rfl⟩ := hstep
      exact h.setNode (hself i)
  | tick i env =>
      simp only [Cluster.step, Option.ite_none_right_eq_some, Option.some.injEq] at hstep
      obtain ⟨-, rfl⟩ := hstep
      refine h.tick (hstatic.out i) fun im him hcmd => ?_
      rcases harrived.queue i im him with ⟨fd, hconn, hmem, -⟩ | ⟨k, hsent⟩
      · exact ⟨fd, im.message, hconn, hmem, hcmd, rfl⟩
      · exact absurd hcmd (hbounded.sent k _ hsent).request
  | heartbeat i =>
      simp only [Cluster.step, Option.ite_none_right_eq_some, Option.some.injEq] at hstep
      obtain ⟨-, rfl⟩ := hstep
      exact h.serving (hstatic.out i) (sendCommitMessageIfNeeded_serving _)
  | timeout i =>
      simp only [Cluster.step, Option.ite_none_right_eq_some, Option.some.injEq] at hstep
      obtain ⟨-, rfl⟩ := hstep
      exact h.serving (hstatic.out i) (checkPrimaryLiveness_serving _)
  | restart i =>
      simp only [Cluster.step, Option.ite_none_right_eq_some, Option.some.injEq] at hstep
      obtain ⟨-, rfl⟩ := hstep
      have h' := h.setNode (i := i) (n := freshNode i c.size) fun x conn hconn => by
        simp [freshNode] at hconn
      exact ⟨h'.connections, h'.replies⟩

theorem linked_path {ok : Cluster → Event → Cluster → Prop} {n : Nat}
    (path : Path Cluster.step ok (init n) es c) : Linked es c := by
  refine path.invariant ⟨?_, fun i eff m hmem => by cases hmem⟩ ?_
  · intro i x conn hconn
    simp [init, freshNode] at hconn
  · intro es u ev v path hstep _ h
    exact h.step (static_run path.steps) (bounded_run path.steps) (arrived_path path) hstep

end Cluster

/-- Whatever happens, a reply goes to a connection over which its client has sent a
request to the replica that answers. -/
theorem replies_to_askers {ok : Cluster → Event → Cluster → Prop} {n : Nat} {es : List Event}
    {c : Cluster} (path : Path Cluster.step ok (Cluster.init n) es c) {i : Nat} {eff : Effect}
    {m : VsrMessage} (hmem : (i, eff) ∈ c.trace) (hm : eff.message? = some m)
    (hreply : m.header.command = .reply) :
    ∃ conn, eff = .toConnection conn m ∧ Cluster.Asked es i m.header.client conn :=
  (Cluster.linked_path path).replies i eff m hmem hm hreply

/-- Client 1 is answered on the connection of its request, and on another one when
it asks again. -/
def answeredTwice : List Event :=
  request 0 7 (setRequest 1 1 [97, 32, 98]) ++ receive 0 1 ++ receive 1 0
    ++ request 0 8 (setRequest 1 1 [97, 32, 98])

theorem replies_to_askers_twice :
    ∃ c, Path Cluster.step Cluster.OpsFit (Cluster.init 3) answeredTwice c
      ∧ Cluster.Asked answeredTwice 0 { low := 1 } (.client 7)
      ∧ Cluster.Asked answeredTwice 0 { low := 1 } (.client 8) := by
  obtain ⟨c, path, hfirst, hagain⟩ := exists_path_of_replay Cluster.step Cluster.OpsFit
    (Cluster.init 3) answeredTwice
    (P := fun c =>
      (0, .toConnection (.client 7) (cachedReply (setRequest 1 1 []) (setResult [97] [98])))
          ∈ c.trace
        ∧ (0, .toConnection (.client 8) (cachedReply (setRequest 1 1 []) (setResult [97] [98])))
          ∈ c.trace) (by decide +kernel)
  refine ⟨c, path, ?_, ?_⟩
  · obtain ⟨conn, heq, hasked⟩ := replies_to_askers path hfirst rfl rfl
    cases heq
    exact hasked
  · obtain ⟨conn, heq, hasked⟩ := replies_to_askers path hagain rfl rfl
    cases heq
    exact hasked

end VsrKv
