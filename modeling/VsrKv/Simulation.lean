import Mathlib.Logic.Relation
import VsrKv.Simulation.Recovery
import VsrKv.Simulation.ViewChange

/-!
# Every step of the cluster is a step of the protocol

`Refines.act` goes through the outcomes of handling a message,
`Refines.step` through the moves of the cluster. Most of them leave the
protocol's state alone: they gather, count, learn what is already known,
or answer. The others are the protocol's own steps. A run of the cluster thereby is a
run of the protocol (`runs_refine_protocol`), in which the members have
the replicas' views and logs and what a replica executes is committed.
-/

namespace VsrKv

open Replica Viewstamped TransitionSystem
open Event (process receive request)

section

variable {f i : Nat} {c c' : Cluster} {a : Abs} {ev : Event}

theorem Refines.act (h : Refines f c a) (hsmall : 2 * f + 1 ≤ 2 ^ 8) (hi : i < c.size)
    {env : Env} {im : InboundMessage} {rest : List InboundMessage}
    (hqueue : c.queue i = im :: rest) {s' : ReplicaState} {effs : List Effect}
    (hacts : Acts env (c.state i) im s' effs) (hwrap : 0 ∉ s'.log) :
    ∃ a', Outcome f c a i s' effs a' := by
  have htracks := h.nodes i hi
  have hmem := h.lt hi
  cases hacts with
  | ignore => exact ⟨a, h.stutter htracks (fun _ heff => by cases heff)
      (fun _ _ _ _ heff => by cases heff)⟩
  | pong msg hcmd hmsg =>
      refine ⟨a, h.stutter htracks ?_ ?_⟩
      · exact forall_message_singleton rfl ⟨hmem, by simp [hmsg]⟩
      · intro v n e res heff
        simp at heff
  | old hcmd hst hprimary effs heffs =>
      refine ⟨a, h.stutter ⟨htracks.view, htracks.status, htracks.log, htracks.nonce,
        htracks.lastNormalView, htracks.commit, htracks.acks, htracks.votes, htracks.responses⟩
        ?_ ?_⟩
      · intro eff heff m hm
        obtain ⟨-, rfl⟩ := heffs eff heff
        cases hm
        exact ⟨hmem, [], h.inv.base_zero⟩
      · intro v n e res heff
        obtain ⟨-, heq⟩ := heffs _ heff
        cases heq
  | propose hcmd hst hprimary hnew =>
      exact ⟨_, h.propose hi hqueue hcmd hst hprimary _ hwrap⟩
  | accept s' effs hcmd hst hprimary hview hop hexec =>
      exact ⟨_, h.accept hi hsmall hqueue hcmd hst hview hop hexec⟩
  | acknowledge entry s' effs hcmd hst hprimary hview hentry hexec =>
      exact ⟨a, h.acknowledge hi hqueue hcmd hst hview hentry hexec⟩
  | learn s' effs hcmd hst hprimary hview hexec =>
      exact ⟨a, h.learn hi hqueue hcmd hst hview hexec⟩
  | join hcmd hview hst =>
      exact ⟨a, h.stutter ⟨htracks.view, htracks.status, htracks.log, htracks.nonce,
        htracks.lastNormalView, htracks.commit, htracks.acks, htracks.votes, htracks.responses⟩
        (fun _ heff => by cases heff) (fun _ _ _ _ heff => by cases heff)⟩
  | vote p hcmd hview hst hquorum hp hne =>
      refine ⟨a, h.stutter ⟨htracks.view, htracks.status, htracks.log, htracks.nonce,
        htracks.lastNormalView, htracks.commit, htracks.acks, htracks.votes, htracks.responses⟩
        ?_ ?_⟩
      · exact forall_message_singleton rfl (h.own_vote hi hsmall hst)
      · intro v n e res heff
        simp at heff
  | discard hcmd hview hst hquorum hp =>
      exact ⟨a, h.stutter ⟨htracks.view, htracks.status, htracks.log, htracks.nonce,
        htracks.lastNormalView, htracks.commit, htracks.acks, htracks.votes, htracks.responses⟩
        (fun _ heff => by cases heff) (fun _ _ _ _ heff => by cases heff)⟩
  | collect s₁ d hcollect => exact ⟨a, h.collect hi hsmall hqueue hcollect⟩
  | startView s₁ d hcollect hquorum best hbest s' effs hexec =>
      exact h.startView hi hsmall hqueue hcollect hquorum hbest hexec
  | adopt payload s' effs hcmd hview hst hprimary hpayload hexec =>
      exact h.adopt hi hsmall hqueue hcmd hview hst hpayload hexec
  | respond request hcmd hst hrequest =>
      exact ⟨_, h.respond hi hsmall hqueue hcmd hst hrequest⟩
  | gather payload hcmd hst hpayload hnonce =>
      exact ⟨a, h.gather hi hqueue hcmd hst hpayload hnonce⟩
  | recover payload hcmd hst hpayload hnonce first others hresponses hquorum s₁ effs hexec =>
      exact h.recover hi hqueue hcmd hst hpayload hnonce hresponses hquorum hexec

/-- A replica with nothing to lose starts over. -/
theorem Refines.restart (h : Refines f c a) (hsmall : 2 * f + 1 ≤ 2 ^ 8)
    (hok : c.Admissible ev c') (hmoves : c.Moves ev c') (hstatic : c'.Static) (hi : i < c.size)
    (hpristine : (c.state i).Pristine) (hsize : c'.size = c.size)
    (hself : c'.state i = .new i (clusterOf c.size))
    (hne : ∀ j, j ≠ i → c'.state j = c.state j) (htrace : c'.trace = c.trace)
    (hpend : ∀ j, c'.pend j = if j = i then [] else c.pend j) :
    Step (config f) a (a.restart i) ∧ Refines f c' (a.restart i) := by
  have htracks := h.nodes i hi
  have hmem := h.lt hi
  have hview : (a.node i).view = 0 := htracks.view.trans hpristine.1
  have hlog : (a.node i).log = [] := by
    have := htracks.log.op
    rw [hpristine.2] at this
    exact List.length_eq_zero_iff.mp this.symm
  have hstep := Step.restart (C := config f) i (mem_members.mpr hmem) hview hlog
  obtain ⟨hext, -⟩ := hstep.extends h.inv
  have hnode : (a.restart i).node i = { a.node i with status := .normal } := by
    simp [State.restart, State.set]
  have hviews : ∀ j, (c.state j).view ≤ (c'.state j).view := by
    intro j
    by_cases hj : j = i
    · subst hj
      rw [hpristine.1]
      exact Nat.zero_le _
    · rw [hne j hj]
  refine ⟨hstep, h.of_reset hstatic
    (h.counts.step hmoves h.static h.odd (h.size.trans_le hsmall) h.range hok hviews) hok.range
    hsize hne htrace hpend (hstep.inv h.inv) hext
    (fun j hj => by simp [State.restart, State.set, hj]) ?_ rfl rfl⟩
  rw [hself]
  exact
    { view := by rw [hnode]; exact hview
      status := by rw [hnode]; rfl
      log := by rw [hnode]; simp only [hlog]; exact .empty
      nonce := fun hrec => by cases hrec
      lastNormalView := fun hch => by cases hch
      commit := Or.inl rfl
      acks := fun _ n e he => by simp [ReplicaState.new] at he
      votes := fun hch => by cases hch
      responses := fun hrec => by cases hrec }

/-- The simulation: every move of an admissible run is a step of the protocol
or leaves it where it is. -/
theorem Refines.of_moves (h : Refines f c a) (hsmall : 2 * f + 1 ≤ 2 ^ 8)
    (hmoves : c.Moves ev c') (hstatic : c'.Static) (hok : c.Admissible ev c') :
    ∃ a', (a' = a ∨ Step (config f) a a') ∧ Refines f c' a' := by
  have hrange : ∀ {i : Nat} {s' : ReplicaState} {q' : List InboundMessage} {effs : List Effect},
      c.Local c' i s' q' effs → 0 ∉ s'.log := by
    intro i s' q' effs hlocal
    rw [← hlocal.state_self]
    exact (hok.range i (hlocal.size.symm ▸ hlocal.lt)).2
  have hlocal : ∀ {i : Nat} {s' : ReplicaState} {q' : List InboundMessage} {effs : List Effect},
      c.Local c' i s' q' effs → q' ⊆ c.queue i → (∃ a', Outcome f c a i s' effs a') →
      ∃ a', (a' = a ∨ Step (config f) a a') ∧ Refines f c' a' := by
    intro i s' q' effs hlocal hsub hout
    obtain ⟨a', hout⟩ := hout
    exact ⟨a', hout.step, h.of_local hsmall hok hmoves hstatic hlocal hsub hout⟩
  cases id hmoves with
  | quiet hsize hstate htrace hmem hcount =>
      exact ⟨a, Or.inl rfl, h.of_quiet hsmall hok hmoves hstatic hstate htrace hmem⟩
  | duplicate k hev => subst hev; exact absurd hok.once (by simp [Event.isDuplicate])
  | act i env hev im rest s' effs hqueue hstale hacts hl =>
      exact hlocal hl (by rw [hqueue]; exact List.subset_cons_self _ _)
        (h.act hsmall hl.lt hqueue hacts (hrange hl))
  | enterView i s' hst hs' hl =>
      exact hlocal hl (List.Subset.refl _) ⟨_, h.enterView hl.lt hst hs'⟩
  | enterRecovery i stuck rest nonce s' hst hqueue hcan haction hs' hl =>
      have hfresh : nonce ∉ c.nonces := by
        have := hok.nonces i hl.lt (by simp [hst]) (by rw [hl.state_self, hs'])
        rwa [hl.state_self, hs'] at this
      exact hlocal hl (List.nil_subset _)
        ⟨_, h.enterRecovery hl.lt hqueue hst hcan haction hs' hfresh⟩
  | heartbeat i hst hprimary hl =>
      have htracks := h.nodes i hl.lt
      refine hlocal hl (List.Subset.refl _)
        ⟨a, h.stutter htracks ?_ ?_⟩
      · exact forall_message_singleton rfl
          ⟨h.lt hl.lt, htracks.started h.inv (h.lt hl.lt) (by simp [hst]), htracks.commit⟩
      · intro v n e res heff
        simp at heff
  | restart i hev hlt hsize hself hne htrace hpend =>
      have hpristine := hok.restart i (by rw [hev]; rfl)
      obtain ⟨hstep, hrefines⟩ := h.restart hsmall hok hmoves hstatic hlt hpristine hsize hself
        hne htrace hpend
      exact ⟨_, Or.inr hstep, hrefines⟩

theorem Refines.step (h : Refines f c a) (hsmall : 2 * f + 1 ≤ 2 ^ 8)
    (hstep : c.step ev = some c') (hok : c.Admissible ev c') :
    ∃ a', (a' = a ∨ Step (config f) a a') ∧ Refines f c' a' :=
  h.of_moves hsmall (Cluster.step_moves h.static hstep) (Cluster.static_step h.static hstep) hok

theorem refines_init (f : Nat) :
    Refines f (Cluster.init (2 * f + 1)) (Viewstamped.initial {}) where
  size := rfl
  static := Cluster.static_init _
  counts := Cluster.counts_init _
  range := Cluster.inRange_init _
  inv := inv_initial _ _
  nodes i _ :=
    { view := rfl
      status := rfl
      log := .empty
      nonce := fun _ => rfl
      lastNormalView := fun hch => by cases hch
      commit := Or.inl rfl
      acks := fun _ n e he => by
        simp [Cluster.state, Cluster.init, Cluster.freshNode, ReplicaState.new] at he
      votes := fun hch => by cases hch
      responses := fun hrec => by cases hrec }
  sent k m hm := by obtain ⟨eff, heff, -⟩ := hm; cases heff
  mail j im him := by
    simp [Cluster.pend, Cluster.netFor, Cluster.queue, Cluster.init, Cluster.freshNode] at him
  executed i v n e res hexec := by cases hexec
  nonces j x v l hr := hr.elim
  entries v e he := by cases he
  length v := by simp [Viewstamped.initial]

/-- Along a run the relation is kept, and history grows. -/
theorem Refines.run {ok : Cluster → Event → Cluster → Prop} (hsmall : 2 * f + 1 ≤ 2 ^ 8)
    (hok : ∀ c ev c', ok c ev c' → c.Admissible ev c') (h : Refines f c a)
    (run : Cluster.Run ok c c') : ∃ a', Refines f c' a' ∧ Extends a a' := by
  refine run.simulation .refl .trans ?_ h
  intro u ev v b h hstep hcond
  obtain ⟨a₂, hmove, h₂⟩ := h.step hsmall hstep (hok _ _ _ hcond)
  exact ⟨a₂, h₂, (extends_of_step h.inv hmove).2.1⟩

end

/-! ## Runs -/

/-- What the protocol has to say of the cluster: each member is where its replica is,
and holds its log; what a replica has executed is in the log of the view it did so in,
and committed by then. -/
structure Cluster.Reads (f : Nat) (c : Cluster) (a : Abs) : Prop where
  view : ∀ i < 2 * f + 1, (a.node i).view = (c.state i).view
  status : ∀ i < 2 * f + 1, (a.node i).status = (c.state i).status.abs
  log : ∀ i < 2 * f + 1, Represents (c.state i).log (c.state i).op (a.node i).log
  executed : ∀ i v n e res, (i, Effect.executed v n e res) ∈ c.trace →
    entryAt (a.viewLog v) n = some e.strip ∧ ∃ v' ≤ v, Committed (config f) a v' n

theorem Refines.reads {f : Nat} {c : Cluster} {a : Abs} (h : Refines f c a) : c.Reads f a where
  view i hi := (h.nodes i (h.size ▸ hi)).view
  status i hi := (h.nodes i (h.size ▸ hi)).status
  log i hi := (h.nodes i (h.size ▸ hi)).log
  executed := h.executed

/-- Two moments of a run are two moments of a run of the protocol. -/
theorem runs_refine_protocol (f : Nat) (hsmall : 2 * f + 1 ≤ 256) {c₁ c₂ : Cluster}
    (run₁ : Cluster.Run Cluster.Admissible (Cluster.init (2 * f + 1)) c₁)
    (run₂ : Cluster.Run Cluster.Admissible c₁ c₂) :
    ∃ a₁ a₂, Relation.ReflTransGen (Step (config f)) (Viewstamped.initial {}) a₁
      ∧ Relation.ReflTransGen (Step (config f)) a₁ a₂ ∧ c₁.Reads f a₁ ∧ c₂.Reads f a₂ := by
  have hfollows : ∀ {c c' : Cluster} {a : Abs}, Refines f c a →
      Cluster.Run Cluster.Admissible c c' →
      ∃ a', Refines f c' a' ∧ Relation.ReflTransGen (Step (config f)) a a' := by
    intro c c' a h run
    refine run.simulation (fun _ => .refl) (fun hab hbd => hab.trans hbd) ?_ h
    intro u ev v b h hstep hok
    obtain ⟨b', hmove, h'⟩ := h.step hsmall hstep hok
    rcases hmove with rfl | hmove
    · exact ⟨b', h', .refl⟩
    · exact ⟨b', h', .single hmove⟩
  obtain ⟨a₁, h₁, hreach₁⟩ := hfollows (refines_init f) run₁
  obtain ⟨a₂, h₂, hreach₂⟩ := hfollows h₁ run₂
  exact ⟨a₁, a₂, hreach₁, hreach₂, h₁.reads, h₂.reads⟩

/-- A request is executed in view 0; then replicas 1 and 2 go on to view 1. -/
theorem runs_refine_protocol_to_view_one :
    ∃ c₁ c₂ : Cluster,
      (c₁.executions ≠ [] ∧ (c₂.state 1).view = 1 ∧ (c₂.state 1).status = .normal)
      ∧ ∃ a₁ a₂, Relation.ReflTransGen (Step (config 1)) (Viewstamped.initial {}) a₁
        ∧ Relation.ReflTransGen (Step (config 1)) a₁ a₂ ∧ c₁.Reads 1 a₁ ∧ c₂.Reads 1 a₂ := by
  obtain ⟨c₁, c₂, run₁, run₂, h⟩ := exists_of_replay₂ Cluster.step Cluster.Admissible
    (Cluster.init (2 * 1 + 1))
    (request 0 7 (setRequest 1 1 [97, 32, 98]) ++ receive 0 1 ++ receive 1 0)
    ([.timeout 1, .timeout 2] ++ receive 4 1 ++ receive 2 2 ++ receive 3 1)
    (P := fun c₁ c₂ : Cluster => c₁.executions ≠ [] ∧ (c₂.state 1).view = 1
      ∧ (c₂.state 1).status = .normal) (by decide +kernel)
  exact ⟨c₁, c₂, h, runs_refine_protocol 1 (by norm_num) run₁ run₂⟩

end VsrKv
