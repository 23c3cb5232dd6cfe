import VsrKv.Agreement
import VsrKv.ClientTable

/-!
# What replies rest on

A client is answered from two places. `execute_commited_ops` answers
right after executing a committed op. `handle_request` answers a request
whose number the client table has on record from the table, and does not
ask whether the request has been executed: the client that resends while
its request is in progress gets an empty reply, or the result of an
older request of its own (`resend_answered_unexecuted`). Where it has
been, and the commit number has not fallen behind what has been executed
since, the table's result is the result (`replies_grounded`).
-/

namespace VsrKv

open Replica TransitionSystem
open Event (process receive request)

/-! ## Replies and the past -/

/-- In `past`, request `r` of `client` was executed with result `res`, at an op
number not above `n`. -/
def ExecutedIn (past : List Effect) (client : UInt128) (r : Nat) (res : Bytes) (n : Nat) : Prop :=
  ∃ v k e, Effect.executed v k e (some res) ∈ past ∧ e.clientId = client ∧ e.requestNum = r ∧ k ≤ n

/-- What the client table calls executed has been. -/
def Recorded (past : List Effect) (s : ReplicaState) : Prop :=
  ∀ client, (s.clientEntry client).executed = true →
    ExecutedIn past client (s.clientEntry client).requestNumber (s.clientEntry client).result
      s.lastExecutedOp

/-- Every reply among `effs` has the result of a request executed before it, at
an op number not above `commit`. -/
def Grounded (past : List Effect) (commit : Nat) (effs : List Effect) : Prop :=
  ∀ pre eff post m, effs = pre ++ eff :: post → eff.message? = some m →
    m.header.command = .reply →
      ExecutedIn (past ++ pre) m.header.client m.header.request m.payload commit

section

variable {past past' effs effs' : List Effect} {commit n n' : Nat} {s s' : ReplicaState}

theorem ExecutedIn.mono {client : UInt128} {r : Nat} {res : Bytes} (hsub : past ⊆ past')
    (hle : n ≤ n') (h : ExecutedIn past client r res n) : ExecutedIn past' client r res n' := by
  obtain ⟨v, k, e, hmem, hclient, hrequest, hk⟩ := h
  exact ⟨v, k, e, hsub hmem, hclient, hrequest, hk.trans hle⟩

theorem Recorded.mono (h : Recorded past s) (hsub : past ⊆ past')
    (hop : s.lastExecutedOp ≤ s'.lastExecutedOp)
    (htable : ∀ client, (s'.clientEntry client).executed = true →
      s'.clientEntry client = s.clientEntry client) : Recorded past' s' := by
  intro client hexec
  have heq := htable client hexec
  rw [heq] at hexec ⊢
  exact (h client hexec).mono hsub hop

theorem Grounded.of_not_reply
    (h : ∀ eff ∈ effs, ∀ m, eff.message? = some m → m.header.command ≠ .reply) :
    Grounded past commit effs := by
  intro pre eff post m heq hm hreply
  exact absurd hreply (h eff (by simp [heq]) m hm)

theorem Grounded.append (h : Grounded past commit effs)
    (h' : Grounded (past ++ effs) commit effs') : Grounded past commit (effs ++ effs') := by
  intro pre eff post m heq hm hreply
  rcases List.append_eq_append_iff.mp heq with ⟨l, rfl, hl⟩ | ⟨l, rfl, hl⟩
  · have := h' l eff post m hl hm hreply
    rwa [List.append_assoc] at this
  · cases l with
    | nil =>
        have := h' [] eff post m hl.symm hm hreply
        simpa using this
    | cons x l =>
        obtain ⟨rfl, rfl⟩ := List.cons.inj hl
        exact h pre eff l m rfl hm hreply

theorem Grounded.cons {eff : Effect}
    (heff : ∀ m, eff.message? = some m → m.header.command ≠ .reply)
    (h : Grounded (past ++ [eff]) commit effs) : Grounded past commit (eff :: effs) := by
  refine Grounded.append (.of_not_reply ?_) h
  intro eff' heff'
  rw [List.mem_singleton.mp heff']
  exact heff

/-! ## Execution -/

/-- Execution answers with what it has just executed, and records it. -/
theorem Replica.Executed.recorded (h : Executed s s' effs) (hrec : Recorded past s) :
    Recorded (past ++ effs) s' ∧ Grounded past s'.commit effs := by
  induction h with
  | refl => exact ⟨by simpa using hrec, .of_not_reply (by simp)⟩
  | @turn s₁ effs e h hlt hlog replies hreplies ih =>
      obtain ⟨hrec₁, hgrounded⟩ := ih
      have hcommit : (turnState s₁ (s₁.lastExecutedOp + 1) e).commit = s₁.commit := by
        obtain ⟨n, t, m, heq⟩ := turnState_same s₁ (s₁.lastExecutedOp + 1) e
        rw [heq]
      rw [hcommit]
      have hsub : past ++ effs ⊆ past ++ (effs
          ++ (.executed s₁.view (s₁.lastExecutedOp + 1) e (turnResult s₁ e) :: replies)) := by
        rw [← List.append_assoc]
        exact List.subset_append_left _ _
      constructor
      · intro client hexec
        rw [turnState_lastExecutedOp]
        rw [clientEntry_turnState] at hexec ⊢
        cases hres : turnResult s₁ e with
        | none =>
            simp only [hres] at hexec ⊢
            exact (hrec₁ client hexec).mono (hres ▸ hsub) (Nat.le_succ _)
        | some res =>
            simp only [hres] at hexec ⊢
            split
            · rename_i hclient
              exact ⟨s₁.view, _, e, by simp, hclient.symm, rfl, Nat.le_refl _⟩
            · rename_i hclient
              rw [if_neg hclient] at hexec
              exact (hrec₁ client hexec).mono (hres ▸ hsub) (Nat.le_succ _)
      · refine hgrounded.append (.cons (fun m hm => by cases hm) ?_)
        · intro pre eff post m heq hm hreply
          obtain ⟨conn, res, hres, rfl⟩ := hreplies eff (by simp [heq])
          cases hm
          exact ⟨s₁.view, _, e, by simp [hres, replyMessage], rfl, rfl, hlt⟩

/-! ## Handling a message -/

/-- The replica answers the request from the client table. -/
def answersCached (s : ReplicaState) (msg : VsrMessage) : Bool :=
  msg.header.command == .request && checkCanProcessRequest s msg
    && (s.clientEntry msg.header.client).requestNumber == msg.header.request

/-- What it answers with is the result of an op it has executed, and it has
executed nothing that it does not know to be committed. -/
def CacheCurrent (s : ReplicaState) (msg : VsrMessage) : Prop :=
  answersCached s msg = true →
    (s.clientEntry msg.header.client).executed = true ∧ s.lastExecutedOp ≤ s.commit

instance (s : ReplicaState) (msg : VsrMessage) : Decidable (CacheCurrent s msg) :=
  inferInstanceAs (Decidable (_ → _))

/-- Only an answer from the table needs something of the table. -/
theorem Acts.recorded {env : Env} {im : InboundMessage} (h : Acts env s im s' effs)
    (hrec : Recorded past s) :
    Recorded (past ++ effs) s' ∧ (CacheCurrent s im.message → Grounded past s'.commit effs) := by
  have halways : ∀ {P Q : Prop}, P ∧ Q → P ∧ (CacheCurrent s im.message → Q) :=
    fun h => ⟨h.1, fun _ => h.2⟩
  -- nothing is executed and nobody is answered
  have hquiet : ∀ {s' : ReplicaState} {effs : List Effect}, s'.clientTable = s.clientTable →
      s'.lastExecutedOp = s.lastExecutedOp →
      (∀ eff ∈ effs, ∀ m, eff.message? = some m → m.header.command ≠ .reply) →
      Recorded (past ++ effs) s'
        ∧ (CacheCurrent s im.message → Grounded past s'.commit effs) := by
    intro s' effs htable hop hno
    refine halways ⟨hrec.mono (List.subset_append_left _ _) hop.ge ?_, .of_not_reply hno⟩
    intro client _
    rw [ReplicaState.clientEntry, htable]
    rfl
  -- execution, after something that is not a reply
  have hexecuted : ∀ {s₁ s' : ReplicaState} {eff : Effect} {effs : List Effect},
      Executed s₁ s' effs → Recorded past s₁ →
      (∀ m, eff.message? = some m → m.header.command ≠ .reply) →
      Recorded (past ++ (eff :: effs)) s'
        ∧ (CacheCurrent s im.message → Grounded past s'.commit (eff :: effs)) := by
    intro s₁ s' eff effs hexec hrec₁ hno
    obtain ⟨hrec', hgrounded⟩ := hexec.recorded
      (hrec₁.mono (List.subset_append_left past [eff]) (Nat.le_refl _) fun _ _ => rfl)
    rw [List.append_assoc] at hrec'
    exact halways ⟨hrec', hgrounded.cons hno⟩
  cases h with
  | ignore => exact hquiet rfl rfl (by simp)
  | pong msg hcmd hmsg =>
      refine hquiet rfl rfl ?_
      exact forall_message_singleton rfl (by simp [hmsg])
  | old hcmd hst hprimary effs heffs =>
      refine ⟨hrec.mono (List.subset_append_left _ _) (Nat.le_refl _) fun client _ =>
        clientEntry_touched _, ?_⟩
      intro hcurrent pre eff post m heq hm _
      obtain ⟨hnumber, rfl⟩ := heffs eff (by simp [heq])
      cases hm
      obtain ⟨hexec, hle⟩ := hcurrent (by
        simp [answersCached, hcmd, checkCanProcessRequest, hst, hprimary, hnumber])
      have := hrec _ hexec
      rw [hnumber] at this
      exact this.mono (List.subset_append_left _ _) hle
  | propose hcmd hst hprimary hnew =>
      refine halways ⟨hrec.mono (List.subset_append_left _ _) (Nat.le_refl _) ?_, .of_not_reply ?_⟩
      · intro client hexec
        rw [clientEntry_appendEntry_of_executed _ hexec, clientEntry_touched]
      · exact forall_message_singleton rfl (by simp [prepareMessage])
  | accept s' effs hcmd hst hprimary hview hop hexec =>
      refine hexecuted hexec (hrec.mono (List.Subset.refl _) (Nat.le_refl _)
        fun client hexec => clientEntry_appendEntry_of_executed _ hexec) ?_
      intro m hm
      cases hm
      simp [prepareOkMessage]
  | acknowledge entry s' effs hcmd hst hprimary hview hentry hexec =>
      exact halways (hexec.recorded hrec)
  | learn s' effs hcmd hst hprimary hview hexec =>
      exact halways (hexec.recorded hrec)
  | join => exact hquiet rfl rfl (by simp)
  | vote p =>
      refine hquiet rfl rfl ?_
      exact forall_message_singleton rfl (by simp [doViewChangeMessage])
  | discard => exact hquiet rfl rfl (by simp)
  | collect s₁ d h => cases h <;> exact hquiet rfl rfl (by simp)
  | startView s₁ d h hquorum best hbest s' effs hexec =>
      have hrec₁ : Recorded past (startedState s₁ best) := by cases h <;> exact hrec
      refine hexecuted hexec hrec₁ ?_
      intro m hm
      cases hm
      simp [startViewMessage]
  | adopt payload s' effs hcmd hview hst hprimary hpayload hexec =>
      obtain ⟨hrec', hgrounded⟩ := hexec.recorded
        (hrec.mono (List.Subset.refl _) (Nat.le_refl _) fun client hexec =>
          clientEntry_adoptedState _ _ hexec)
      refine halways ⟨hrec'.mono ?_ (Nat.le_refl _) fun _ _ => rfl,
        hgrounded.append (.of_not_reply ?_)⟩
      · rw [← List.append_assoc]
        exact List.subset_append_left _ _
      · intro eff heff m hm
        obtain ⟨k, -, rfl⟩ := List.mem_map.mp heff
        cases hm
        simp [prepareOkMessage]
  | respond request =>
      refine hquiet rfl rfl ?_
      exact forall_message_singleton rfl (by simp [recoveryResponseMessage])
  | gather => exact hquiet rfl rfl (by simp)
  | recover payload hcmd hst hpayload hnonce first rest hresponses hquorum s₁ effs hexec =>
      have hnone : Recorded past (adoptResponse s (rest.foldl betterResponse first)) := by
        intro client hexec
        rw [executed_adoptResponse] at hexec
        cases hexec
      exact halways (hexec.recorded hnone)

end

namespace Cluster

/-! ## Runs -/

variable {c c' : Cluster} {ev : Event}

/-- A request answered from the client table has been executed, at an op number
known to be committed. -/
def AnswersExecuted (c : Cluster) (ev : Event) (_ : Cluster) : Prop :=
  ∀ i ∈ ev.ticked?, ∀ im ∈ (c.queue i).head?, CacheCurrent (c.state i) im.message

instance (c : Cluster) (ev : Event) (c' : Cluster) : Decidable (c.AnswersExecuted ev c') :=
  inferInstanceAs (Decidable (∀ i ∈ ev.ticked?, _))

/-- Every reply the step sends has the result of an op its sender had executed
before, at an op number not above the sender's commit number. -/
def RepliesGrounded (c c' : Cluster) : Prop :=
  ∀ i effs, c'.history i = c.history i ++ effs →
    Grounded (c.history i) (c'.state i).commit effs

/-- The tables of all replicas are right about what has been executed. -/
def TablesRecorded (c : Cluster) : Prop := ∀ i, Recorded (c.history i) (c.state i)

theorem history_congr (htrace : c'.trace = c.trace) (j : Nat) : c'.history j = c.history j := by
  rw [history, htrace, history]

/-- A replica that does nothing. -/
theorem TablesRecorded.of_same (h : c.TablesRecorded) {j : Nat}
    (hstate : c'.state j = c.state j) (hhistory : c'.history j = c.history j) :
    Recorded (c'.history j) (c'.state j)
      ∧ ∀ effs, c'.history j = c.history j ++ effs →
        Grounded (c.history j) (c'.state j).commit effs := by
  refine ⟨by rw [hstate, hhistory]; exact h j, fun effs heq => .of_not_reply ?_⟩
  rw [hhistory, List.self_eq_append_right] at heq
  simp [heq]

/-- A replica that does something. -/
theorem Local.tablesRecorded {i : Nat} {s' : ReplicaState} {q' : List InboundMessage}
    {effs : List Effect} {P : Prop} (hl : Local c c' i s' q' effs) (h : c.TablesRecorded)
    (hrec : Recorded (c.history i ++ effs) s')
    (hgrounded : P → Grounded (c.history i) s'.commit effs) :
    c'.TablesRecorded ∧ (P → c.RepliesGrounded c') := by
  have hother : ∀ j, j ≠ i → c'.history j = c.history j := fun j hj => by
    rw [hl.history, if_neg hj]
  refine ⟨?_, ?_⟩
  · intro j
    by_cases hj : j = i
    · subst hj
      rw [hl.history, if_pos rfl, hl.state_self]
      exact hrec
    · exact (h.of_same (hl.state_ne j hj) (hother j hj)).1
  · intro hok j effs' heq
    by_cases hj : j = i
    · subst hj
      rw [hl.history, if_pos rfl, List.append_cancel_left_eq] at heq
      rw [hl.state_self, ← heq]
      exact hgrounded hok
    · exact (h.of_same (hl.state_ne j hj) (hother j hj)).2 effs' heq

theorem tablesRecorded_step (hstatic : c.Static) (hstep : c.step ev = some c')
    (h : c.TablesRecorded) :
    c'.TablesRecorded ∧ (c.AnswersExecuted ev c' → c.RepliesGrounded c') := by
  have hquiet : (∀ j, c'.state j = c.state j) → c'.trace = c.trace →
      c'.TablesRecorded ∧ (c.AnswersExecuted ev c' → c.RepliesGrounded c') := by
    intro hstate htrace
    exact ⟨fun j => (h.of_same (hstate j) (history_congr htrace j)).1,
      fun _ j => (h.of_same (hstate j) (history_congr htrace j)).2⟩
  cases step_moves hstatic hstep with
  | quiet _ hstate htrace => exact hquiet hstate htrace
  | duplicate _ _ _ hstate htrace => exact hquiet hstate htrace
  | act i env hev im rest s' effs hqueue hstale hacts hl =>
      obtain ⟨hrec, hgrounded⟩ := hacts.recorded (h i)
      exact hl.tablesRecorded h hrec fun hok =>
        hgrounded (hok i (by rw [hev]; rfl) im (by rw [hqueue]; rfl))
  | enterView i s' hst hs' hl =>
      refine hl.tablesRecorded h ((h i).mono (List.subset_append_left _ _) ?_ ?_) fun _ =>
        .of_not_reply ?_
      · rw [hs']; exact Nat.le_refl _
      · intro client _; rw [hs']; rfl
      · exact forall_message_singleton rfl (by simp [startViewChangeMessage])
  | enterRecovery i stuck rest nonce s' hst hqueue hcan haction hs' hl =>
      refine hl.tablesRecorded h ((h i).mono (List.subset_append_left _ _) ?_ ?_) fun _ =>
        .of_not_reply ?_
      · rw [hs']
      · intro client _; rw [hs']; rfl
      · exact forall_message_singleton rfl (by simp [recoveryMessage])
  | heartbeat i hst hprimary hl =>
      refine hl.tablesRecorded h ((h i).mono (List.subset_append_left _ _) (Nat.le_refl _)
        fun _ _ => rfl) fun _ => .of_not_reply ?_
      exact forall_message_singleton rfl (by simp [commitMessage])
  | restart i hev hlt hsize hself hne htrace hpend =>
      refine ⟨?_, fun _ j effs heq => .of_not_reply ?_⟩
      · intro j
        by_cases hj : j = i
        · subst hj
          intro client hexec
          rw [hself] at hexec
          simp [ReplicaState.clientEntry, ReplicaState.new] at hexec
        · exact (h.of_same (hne j hj) (history_congr htrace j)).1
      · rw [history_congr htrace, List.self_eq_append_right] at heq
        simp [heq]

theorem tablesRecorded_run {ok : Cluster → Event → Cluster → Prop} {n : Nat}
    (run : Run ok (init n) c) : c.TablesRecorded := by
  refine run.invariant (I := TablesRecorded) ?_
    fun u ev v run hstep _ h => (tablesRecorded_step (static_run run) hstep h).1
  intro i client hexec
  simp [ReplicaState.clientEntry, state, init, freshNode, ReplicaState.new] at hexec

end Cluster

/-- In every run, whenever a request answered from the client table has been
executed, every reply is the result of an executed, committed op. -/
theorem replies_grounded {ok : Cluster → Event → Cluster → Prop} {n : Nat} {c c' : Cluster}
    {ev : Event} (run : Cluster.Run ok (Cluster.init n) c) (hstep : c.step ev = some c')
    (hcond : c.AnswersExecuted ev c') : c.RepliesGrounded c' :=
  (Cluster.tablesRecorded_step (Cluster.static_run run) hstep
    (Cluster.tablesRecorded_run run)).2 hcond

/-- Replica 0 executes request 1 of client 1, and the client sends it again. -/
def executedThenResent : List Event :=
  request 0 7 (setRequest 1 1 [97, 32, 98]) ++ receive 0 1 ++ receive 1 0
    ++ [.client 0 8 (setRequest 1 1 [97, 32, 98]), .start 0]

theorem replies_grounded_resend :
    ∃ c c', Cluster.Run Cluster.AnswersExecuted (Cluster.init (2 * 1 + 1)) c
      ∧ c.step (.tick 0 {}) = some c'
      ∧ c'.history 0 = c.history 0 ++ [.toConnection (.client 8)
        (cachedReply (setRequest 1 1 [97, 32, 98]) (setResult [97] [98]))]
      ∧ c.RepliesGrounded c' := by
  obtain ⟨c, run, c', hstep, hcond, hhistory⟩ := exists_of_replay Cluster.step
    Cluster.AnswersExecuted (Cluster.init (2 * 1 + 1)) executedThenResent
    (P := fun c => ∃ c' ∈ c.step (.tick 0 {}), c.AnswersExecuted (.tick 0 {}) c'
      ∧ c'.history 0 = c.history 0 ++ [.toConnection (.client 8)
        (cachedReply (setRequest 1 1 [97, 32, 98]) (setResult [97] [98]))]) (by decide +kernel)
  exact ⟨c, c', run, hstep, hhistory, replies_grounded run hstep hcond⟩

/-- Client 1 resends its request before any backup has acknowledged it, and is
answered with nothing. -/
theorem resend_answered_unexecuted :
    ∃ c c', Cluster.Run Cluster.ViewChangesOnly (Cluster.init (2 * 1 + 1)) c
      ∧ c.step (.tick 0 {}) = some c' ∧ c.ViewChangesOnly (.tick 0 {}) c'
      ∧ ¬c.RepliesGrounded c' := by
  obtain ⟨c, run, c', hstep, hok, hhistory, hnone⟩ := exists_of_replay Cluster.step
    Cluster.ViewChangesOnly (Cluster.init (2 * 1 + 1))
    (request 0 7 (setRequest 1 1 [97, 32, 98])
      ++ [.client 0 8 (setRequest 1 1 [97, 32, 98]), .start 0])
    (P := fun c => ∃ c' ∈ c.step (.tick 0 {}), c.ViewChangesOnly (.tick 0 {}) c'
      ∧ c'.history 0 = c.history 0
        ++ [.toConnection (.client 8) (cachedReply (setRequest 1 1 [97, 32, 98]) [])]
      ∧ ∀ eff ∈ c.history 0, eff.executed? = none) (by decide +kernel)
  refine ⟨c, c', run, hstep, hok, ?_⟩
  intro hgrounded
  obtain ⟨v, k, e, hmem, -⟩ := hgrounded 0 _ hhistory [] _ [] _ rfl rfl rfl
  rw [List.append_nil] at hmem
  cases hnone _ hmem

end VsrKv
