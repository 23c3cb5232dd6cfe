import VsrKv.Agreement

/-!
# What recovery may cost

A backup that acknowledges an entry promises to keep it, and the primary
counts on that. A backup that misses a `Prepare` recovers, in the same
view, from the best of any `f + 1` responses, and these need not include
one that has all it acknowledged: with `f = 2` three peers that have
heard nothing are enough, and the promise is gone
(`acknowledgement_lost`). Nothing else in the protocol loses a promise:
as long as each recovery is covered by some response (`CoversLogs`)
acknowledged entries stay (`acknowledged_kept`) and agreement holds in
clusters of any size (`agreement_of_covered`), even if replicas that have
nothing yet restart. A restart of one that has acknowledged something is
not survived if it goes on to vote with the log it has then
(`committed_entry_lost`).
-/

namespace VsrKv

open Replica Viewstamped TransitionSystem
open Event (process receive request)

/-! ## Recoveries that are covered -/

/-- Handling `msg` completes the recovery. -/
def completesRecovery (s : ReplicaState) (msg : VsrMessage) : Bool :=
  s.status == .recovery && msg.header.command == .recoveryResponse && !Node.isStale s msg
    && (match RecoveryResponsePayload.deserialize msg.payload {} with
      | (true, payload) => payload.nonce == s.recoveryNonce
      | (false, _) => false)
    && decide (s.faultToleranceF + 1 ≤ s.recoveryResponses.length + 1)

theorem completesRecovery_of_recover {s : ReplicaState} {im : InboundMessage}
    {payload : RecoveryResponsePayload}
    (hcmd : im.message.header.command = .recoveryResponse) (hst : s.status = .recovery)
    (hstale : Node.isStale s im.message = false)
    (hpayload : RecoveryResponsePayload.deserialize im.message.payload {} = (true, payload))
    (hnonce : payload.nonce = s.recoveryNonce) {first : VsrMessage} {rest : List VsrMessage}
    (hlist : s.recoveryResponses ++ [im.message] = first :: rest)
    (hquorum : s.faultToleranceF + 1 ≤ rest.length + 1) :
    completesRecovery s im.message = true := by
  have hlen := congrArg List.length hlist
  rw [List.length_append, List.length_singleton, List.length_cons] at hlen
  simp only [completesRecovery, hst, hcmd, hstale, hpayload, hnonce, beq_self_eq_true,
    Bool.not_false, Bool.and_self, Bool.true_and, decide_eq_true_eq]
  omega

/-- Some response comes from a later view, or from the replica's own view and
reaches its op number. -/
def RecoveryCovers (s : ReplicaState) (msg : VsrMessage) : Prop :=
  ∃ m ∈ s.recoveryResponses ++ [msg],
    s.view < m.header.view ∨ m.header.view = s.view ∧ s.op ≤ m.header.op

instance (s : ReplicaState) (msg : VsrMessage) : Decidable (RecoveryCovers s msg) :=
  inferInstanceAs (Decidable (∃ m ∈ s.recoveryResponses ++ [msg], _))

namespace Cluster

/-- If the turn the event makes completes a recovery, that recovery is
covered. -/
def CoversLogs (c : Cluster) (ev : Event) : Prop :=
  ∀ i ∈ ev.ticked?, ∀ im ∈ (c.queue i).head?,
    completesRecovery (c.state i) im.message = true → RecoveryCovers (c.state i) im.message

instance (c : Cluster) (ev : Event) : Decidable (c.CoversLogs ev) :=
  inferInstanceAs (Decidable (∀ i ∈ ev.ticked?, ∀ im ∈ (c.queue i).head?, _ → _))

variable {c c' : Cluster} {ev : Event}

/-- A covered recovery that ends in the view it began in ends no shorter. -/
theorem recover_keeps {s : ReplicaState} {im : InboundMessage} {first : VsrMessage}
    {rest : List VsrMessage} (hresponses : s.recoveryResponses ++ [im.message] = first :: rest)
    (hcovers : RecoveryCovers s im.message)
    (hview : (rest.foldl betterResponse first).header.view = s.view) :
    s.op ≤ (rest.foldl betterResponse first).header.op := by
  obtain ⟨m, hm, hahead⟩ := hcovers
  rw [hresponses] at hm
  have hbest := (bestResponse_spec first rest).2 m hm
  unfold NotAhead at hbest
  omega

theorem act_keeps {i : Nat} {env : Env} {im : InboundMessage} {s' : ReplicaState}
    {effs : List Effect} (hstale : Node.isStale (c.state i) im.message = false)
    (hacts : Acts env (c.state i) im s' effs) (hrec : (c.state i).status = .recovery)
    (hcovers : completesRecovery (c.state i) im.message = true →
      RecoveryCovers (c.state i) im.message)
    (hview : s'.view = (c.state i).view) : (c.state i).op ≤ s'.op := by
  cases hacts with
  | recover payload hcmd hst hpayload hnonce first rest hresponses hquorum s₁ effs hexec =>
      obtain ⟨n, t, m, rfl⟩ := hexec.state
      exact recover_keeps hresponses
        (hcovers (completesRecovery_of_recover hcmd hst hstale hpayload hnonce hresponses hquorum))
        hview
  | ignore => exact Nat.le_refl _
  | pong => exact Nat.le_refl _
  | old => exact Nat.le_refl _
  | respond => exact Nat.le_refl _
  | gather => exact Nat.le_refl _
  | collect s₁ d h => cases h <;> exact Nat.le_refl _
  | startView s₁ d h => cases h <;> simp_all
  | _ => simp_all

theorem Moves.keepsLogs (hmoves : c.Moves ev c')
    (hrestart : ∀ i ∈ ev.restarted?, (c.state i).Pristine) (hcovers : c.CoversLogs ev) :
    c.KeepsLogs c' := by
  intro j _ hrec hview
  have hchanges := hmoves.changes j
  generalize c'.state j = s' at hchanges hview ⊢
  cases hchanges with
  | same => exact le_rfl
  | act env im rest s' effs hlt hev hqueue hstale hacts =>
      exact act_keeps hstale hacts hrec
        (hcovers j (by rw [hev]; rfl) im (by rw [hqueue]; rfl)) hview
  | enterView => exact le_rfl
  | enterRecovery => exact le_rfl
  | restart hev =>
      rw [(hrestart j (by rw [hev]; rfl)).2]
      exact Nat.zero_le _

theorem Moves.three_or_keepsLogs {f : Nat} (hmoves : c.Moves ev c') (hsize : c.size = 2 * f + 1)
    (hadm : c.Admissible ev c') (hcovers : c.size = 3 ∨ c.CoversLogs ev) :
    f = 1 ∨ c.KeepsLogs c' :=
  hcovers.imp (fun hthree => by omega) (hmoves.keepsLogs hadm.restart)

end Cluster

/-! ## Acknowledgements -/

/-- A step without duplicates or restarts in which every recovery that
completes is covered, unless there are only three replicas. -/
def Cluster.CoveredSteps (c : Cluster) (ev : Event) (c' : Cluster) : Prop :=
  c.NoRestarts ev c' ∧ (c.size = 3 ∨ c.CoversLogs ev)

instance (c : Cluster) (ev : Event) (c' : Cluster) : Decidable (c.CoveredSteps ev c') :=
  inferInstanceAs (Decidable (_ ∧ _))

/-- What a replica has acknowledged in the view it is in, it holds. -/
theorem Safe.acknowledged {f : Nat} {c : Cluster} {a : Abs} (h : Safe f c a) {i : Nat}
    (hi : i < c.size) {m : VsrMessage} (hsent : c.Sent i m)
    (hcmd : m.header.command = .prepareOk) (hview : (c.state i).view = m.header.view) :
    ∃ e, (c.state i).log[m.header.op]? = some e
      ∧ entryAt (a.viewLog m.header.view) m.header.op = some e.strip := by
  have htracks := h.refines.nodes i hi
  have hmem := mem_members.mpr (h.refines.lt hi)
  have hmeaning := (h.refines.sent i m hsent).2
  simp only [hcmd] at hmeaning
  obtain ⟨-, -, hpos, hpromise⟩ := hmeaning
  rw [← hview, ← htracks.view] at hpromise
  have hnot : (a.node i).status ≠ .changing := fun hch => by
    rw [h.promises.unfollowed i hmem hch] at hpromise
    omega
  have hheld := h.promises.held i hmem hnot
  obtain ⟨e, he⟩ := exists_entryAt (l := (a.node i).log) hpos (hpromise.trans hheld)
  obtain ⟨e', he', hstrip⟩ := htracks.log.exists_get he
  obtain ⟨b, -, -, hle⟩ := h.refines.inv.active i hmem hnot
  rw [htracks.view, hview] at hle
  exact ⟨e', he', by rw [hstrip]; exact entryAt_mono hle he⟩

/-- An acknowledged entry stays in the log for as long as the replica is in
the view it acknowledged it in. -/
theorem acknowledged_kept (f : Nat) (hsmall : 2 * f + 1 ≤ 256) {c₁ c₂ : Cluster}
    (run₁ : Cluster.Run Cluster.CoveredSteps (Cluster.init (2 * f + 1)) c₁)
    (run₂ : Cluster.Run Cluster.CoveredSteps c₁ c₂) {i : Nat} (hi : i < 2 * f + 1)
    {m : VsrMessage} (hsent : c₁.Sent i m) (hcmd : m.header.command = .prepareOk)
    (hview₁ : (c₁.state i).view = m.header.view) (hview₂ : (c₂.state i).view = m.header.view) :
    ∃ e₁ e₂, (c₁.state i).log[m.header.op]? = some e₁
      ∧ (c₂.state i).log[m.header.op]? = some e₂ ∧ e₁.strip = e₂.strip := by
  have hok : ∀ {c ev c'}, c.Moves ev c' → c.size = 2 * f + 1 → Cluster.CoveredSteps c ev c' →
      c.Admissible ev c' ∧ (f = 1 ∨ c.KeepsLogs c') := fun hmoves hsize hcovered =>
    have hadm := hcovered.1.admissible
    ⟨hadm, hmoves.three_or_keepsLogs hsize hadm hcovered.2⟩
  obtain ⟨a₁, h₁, -⟩ := (safe_init f).run hsmall hok run₁
  obtain ⟨a₂, h₂, hext⟩ := h₁.run hsmall hok run₂
  have hsent₂ : c₂.Sent i m := hsent.mono (Cluster.trace_subset_run h₁.refines.static run₂)
  obtain ⟨e₁, he₁, hlog₁⟩ := h₁.acknowledged (h₁.refines.size ▸ hi) hsent hcmd hview₁
  obtain ⟨e₂, he₂, hlog₂⟩ := h₂.acknowledged (h₂.refines.size ▸ hi) hsent₂ hcmd hview₂
  refine ⟨e₁, e₂, he₁, he₂, ?_⟩
  exact Option.some.inj ((entryAt_mono (hext.viewLog _) hlog₁).symm.trans hlog₂)

/-- Replica 1 acknowledges op 1. -/
def acknowledged : List Event := request 0 7 (setRequest 1 1 [97, 32, 98]) ++ receive 0 1

/-- It misses op 2, is sent op 3, and recovers from the primary and two more. -/
def recoveredFromPrimary : List Event :=
  [.client 0 8 (setRequest 2 1 [97, 32, 98]), .client 0 9 (setRequest 3 1 [97, 32, 98])]
    ++ process 0 4 ++ [.deliver 8] ++ process 1 1 ++ receive 11 0 ++ receive 11 2 ++ receive 11 3
    ++ receive 12 1 ++ receive 12 1 ++ receive 12 1

theorem acknowledged_kept_from_primary :
    ∃ c₁ c₂, Cluster.Run Cluster.CoveredSteps (Cluster.init (2 * 2 + 1)) c₁
      ∧ Cluster.Run Cluster.CoveredSteps c₁ c₂
      ∧ (c₁.Sent 1 (prepareOkMessage (c₁.state 1) 1)
        ∧ (c₂.state 1).status = .normal ∧ (c₂.state 1).op = 3)
      ∧ ∃ e₁ e₂, (c₁.state 1).log[1]? = some e₁ ∧ (c₂.state 1).log[1]? = some e₂
        ∧ e₁.strip = e₂.strip := by
  obtain ⟨c₁, c₂, run₁, run₂, ⟨hsent, hrest⟩, hview⟩ := exists_of_replay₂ Cluster.step
    Cluster.CoveredSteps (Cluster.init (2 * 2 + 1)) acknowledged recoveredFromPrimary
    (P := fun c₁ c₂ => (c₁.Sent 1 (prepareOkMessage (c₁.state 1) 1)
      ∧ (c₂.state 1).status = .normal ∧ (c₂.state 1).op = 3)
      ∧ (c₂.state 1).view = (c₁.state 1).view) (by decide +kernel)
  exact ⟨c₁, c₂, run₁, run₂, ⟨hsent, hrest⟩,
    acknowledged_kept 2 (by norm_num) run₁ run₂ (by norm_num) hsent rfl rfl hview⟩

/-- As before, but it recovers from replicas 2, 3 and 4, which have heard of
nothing. -/
def recoveredFromNothing : List Event :=
  [.client 0 8 (setRequest 2 1 [97, 32, 98]), .client 0 9 (setRequest 3 1 [97, 32, 98])]
    ++ process 0 4 ++ [.deliver 8] ++ process 1 1 ++ receive 12 2 ++ receive 12 3 ++ receive 12 4
    ++ receive 12 1 ++ receive 12 1 ++ receive 12 1

theorem acknowledgement_lost :
    ∃ c₁ c₂, Cluster.Run Cluster.NoRestarts (Cluster.init (2 * 2 + 1)) c₁
      ∧ Cluster.Run Cluster.NoRestarts c₁ c₂
      ∧ c₁.Sent 1 (prepareOkMessage (c₁.state 1) 1) ∧ (c₁.state 1).log[1]? ≠ none
      ∧ (c₂.state 1).status = .normal ∧ (c₂.state 1).view = (c₁.state 1).view
      ∧ (c₂.state 1).log[1]? = none :=
  exists_of_replay₂ Cluster.step Cluster.NoRestarts (Cluster.init (2 * 2 + 1)) acknowledged
    recoveredFromNothing (by decide +kernel)

/-! ## Restarts -/

/-- A step without duplicates in which only replicas that have nothing to lose
restart and, unless there are only three replicas, every recovery that
completes is covered. -/
def Cluster.HarmlessRestarts (c : Cluster) (ev : Event) (c' : Cluster) : Prop :=
  c.Admissible ev c' ∧ (c.size = 3 ∨ c.CoversLogs ev)

instance (c : Cluster) (ev : Event) (c' : Cluster) : Decidable (c.HarmlessRestarts ev c') :=
  inferInstanceAs (Decidable (_ ∧ _))

/-- Agreement in clusters of any size, with recoveries and restarts. -/
theorem agreement_of_covered (f : Nat) (hsmall : 2 * f + 1 ≤ 256) {c : Cluster}
    (run : Cluster.Run Cluster.HarmlessRestarts (Cluster.init (2 * f + 1)) c) :
    c.ExecutionsAgree := by
  obtain ⟨a, h, -⟩ := (safe_init f).run hsmall
    (fun hmoves hsize hok => ⟨hok.1, hmoves.three_or_keepsLogs hsize hok.1 hok.2⟩) run
  exact h.executionsAgree

/-- Replica 2 restarts before it has heard of anything; replicas 0 and 1
execute a request. -/
def restartedThenExecuted : List Event :=
  [.restart 2] ++ request 0 7 (setRequest 1 1 [97, 32, 98]) ++ receive 0 1 ++ receive 1 0
    ++ [.heartbeat 0] ++ receive 1 1

theorem agreement_after_restart :
    ∃ c, Cluster.Run Cluster.HarmlessRestarts (Cluster.init (2 * 1 + 1)) c
      ∧ (∃ x ∈ c.executions, ∃ y ∈ c.executions, x.1 = 0 ∧ y.1 = 1 ∧ x.2 = y.2)
      ∧ c.ExecutionsAgree := by
  obtain ⟨c, run, h⟩ := exists_of_replay Cluster.step Cluster.HarmlessRestarts
    (Cluster.init (2 * 1 + 1)) restartedThenExecuted
    (P := fun c => ∃ x ∈ c.executions, ∃ y ∈ c.executions, x.1 = 0 ∧ y.1 = 1 ∧ x.2 = y.2)
    (by decide +kernel)
  exact ⟨c, run, h, agreement_of_covered 1 (by norm_num) run⟩

/-- Without duplicates, and with no restarts but those of `k`. -/
def Cluster.RestartsOf (k : Nat) (c : Cluster) (ev : Event) (c' : Cluster) : Prop :=
  ev.isDuplicate = false ∧ (∀ i ∈ ev.restarted?, i = k) ∧ c.FreshNonces c' ∧ c'.InRange

instance (k : Nat) (c : Cluster) (ev : Event) (c' : Cluster) :
    Decidable (c.RestartsOf k ev c') :=
  inferInstanceAs (Decidable (_ ∧ _ ∧ _ ∧ _))

/-- Replica 0 executes what replica 1 has acknowledged; replica 1 restarts and
changes view with replica 2, neither of which has anything. -/
def restartedThenViewChange : List Event :=
  request 0 7 (setRequest 1 1 [97, 32, 98]) ++ receive 0 1 ++ receive 1 0
    ++ [.restart 1, .drop 0, .timeout 1, .timeout 2] ++ receive 3 1 ++ receive 1 2 ++ receive 2 1
    ++ receive 3 2 ++ request 1 8 (setRequest 2 1 [97, 32, 98]) ++ receive 4 2 ++ receive 4 1

theorem committed_entry_lost :
    ∃ c, Cluster.Run (Cluster.RestartsOf 1) (Cluster.init (2 * 1 + 1)) c ∧ ¬c.ExecutionsAgree := by
  obtain ⟨c, run, x, hx, y, hy, hop, hne⟩ := exists_of_replay Cluster.step (Cluster.RestartsOf 1)
    (Cluster.init (2 * 1 + 1)) restartedThenViewChange
    (P := fun c => ∃ x ∈ c.executions, ∃ y ∈ c.executions, x.2.1 = y.2.1 ∧ x.2.2 ≠ y.2.2)
    (by decide +kernel)
  obtain ⟨v, e, res, he, hstrip⟩ := Cluster.exists_of_mem_executions hx
  obtain ⟨w, e', res', he', hstrip'⟩ := Cluster.exists_of_mem_executions hy
  refine ⟨c, run, fun hagree => hne ?_⟩
  rw [← hop] at he'
  rw [← hstrip, ← hstrip', hagree _ _ _ _ _ _ _ _ _ he he']

end VsrKv
