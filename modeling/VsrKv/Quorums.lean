import VsrKv.Counting
import VsrKv.Discipline
import VsrKv.Mail
import VsrKv.Waiting

/-!
# View changes rest on genuine quorums

`do_view_change_received_` is a list with no regard for who sent what,
and the set of `StartViewChange` senders is cleared once it has served.
That a replica still votes once per view, and that the votes a new
primary goes by are those of `f + 1` replicas, is a matter of counting
(`Counting`) and of no replica going through the same view change twice
(`Discipline`). Neither needs the nonces of recoveries to be fresh, so
the results hold in every run without duplicates and restarts whose
views do not wrap.
-/

namespace VsrKv

open Replica TransitionSystem
open Event (receive)

/-! ## Votes and the messages that complete a view change -/

/-- The `DoViewChange` a replica builds while it handles `msg`, to send it or
to hand it to itself. -/
def builtVote? (s : ReplicaState) (msg : VsrMessage) : Option VsrMessage :=
  if msg.header.command = .startViewChange ∧ s.faultToleranceF + 1
      ≤ (insert msg.header.replica s.startViewChangeReceived).card then
    some (doViewChangeMessage { s with startViewChangeReceived := ∅ })
  else none

/-- The message `handle_do_view_change` is called with while `msg` is handled. -/
def collectedVote? (s : ReplicaState) (msg : VsrMessage) : Option VsrMessage :=
  if msg.header.command = .doViewChange then some msg
  else if s.getPrimaryIdForView s.view = some s.id then builtVote? s msg
  else none

/-- The messages `handle_do_view_change` selects from, if handling `msg`
completes the view change. -/
def completingVotes? (s : ReplicaState) (msg : VsrMessage) : Option (List VsrMessage) :=
  (collectedVote? s msg).bind fun d =>
    if s.faultToleranceF + 1 ≤ (s.doViewChangeReceived ++ [d]).length then
      some (s.doViewChangeReceived ++ [d])
    else none

/-- `handle_start_view_change` by the vote it builds. -/
theorem handleStartViewChange_eq (env : Env) (r : Replica) {im : InboundMessage}
    (hcmd : im.message.header.command = .startViewChange) :
    r.handleStartViewChange env im
      = match builtVote? r.state im.message with
        | none =>
            { r with state := { r.state with
                startViewChangeReceived :=
                  insert im.message.header.replica r.state.startViewChangeReceived } }
        | some d =>
            let r := { r with state := { r.state with startViewChangeReceived := ∅ } }
            match r.state.getPrimaryIdForView r.state.view with
            | none => r
            | some p =>
                if p = r.state.id then r.handleDoViewChange env ⟨.null, d⟩
                else r.sendToPeer p d := by
  by_cases hquorum : r.state.faultToleranceF + 1
      ≤ (insert im.message.header.replica r.state.startViewChangeReceived).card
  · have hvote : builtVote? r.state im.message
        = some (doViewChangeMessage { r.state with startViewChangeReceived := ∅ }) :=
      if_pos ⟨hcmd, hquorum⟩
    rw [hvote]
    exact if_pos hquorum
  · have hvote : builtVote? r.state im.message = none := if_neg fun h => hquorum h.2
    rw [hvote]
    exact if_neg hquorum

/-- The quorum of votes starts the view, and execution follows. -/
theorem handleDoViewChange_started (env : Env) {r : Replica} {im : InboundMessage}
    (hquorum : r.state.faultToleranceF + 1
      ≤ (r.state.doViewChangeReceived ++ [im.message]).length) :
    SameExceptExecution
      (startedState r.state (selectLog env.uninitialized r.state.commit
        (r.state.doViewChangeReceived ++ [im.message])))
      (r.handleDoViewChange env im).state := by
  unfold handleDoViewChange
  simp only []
  rw [if_pos hquorum]
  obtain ⟨effs, -, hexec⟩ := executeCommitedOps_spec
    (broadcastToPeers
      { r with state := startedState r.state (selectLog env.uninitialized r.state.commit
          (r.state.doViewChangeReceived ++ [im.message])) }
      (startViewMessage (startedState r.state (selectLog env.uninitialized r.state.commit
        (r.state.doViewChangeReceived ++ [im.message])))))
  exact hexec.state

theorem handleDoViewChange_tickets (env : Env) (r : Replica) (im : InboundMessage) :
    (r.handleDoViewChange env im).state.view = r.state.view
      ∧ (r.handleDoViewChange env im).state.startViewChangeReceived
        = r.state.startViewChangeReceived := by
  by_cases hquorum : r.state.faultToleranceF + 1
      ≤ (r.state.doViewChangeReceived ++ [im.message]).length
  · obtain ⟨n, t, m, heq⟩ := handleDoViewChange_started env hquorum
    rw [heq]
    exact ⟨rfl, rfl⟩
  · unfold handleDoViewChange
    simp only []
    rw [if_neg hquorum]
    exact ⟨rfl, rfl⟩

theorem handleDoViewChange_completes (env : Env) {r : Replica} {im : InboundMessage}
    (hquorum : r.state.faultToleranceF + 1
      ≤ (r.state.doViewChangeReceived ++ [im.message]).length) :
    (r.handleDoViewChange env im).state.status = .normal := by
  obtain ⟨n, t, m, heq⟩ := handleDoViewChange_started env hquorum
  rw [heq]
  rfl

/-- Who builds a vote has spent its set. -/
theorem spent_of_builtVote {env : Env} {r : Replica} {im : InboundMessage} {d : VsrMessage}
    (hcmd : im.message.header.command = .startViewChange)
    (hvote : builtVote? r.state im.message = some d) :
    (Node.dispatch env r im).state.view = r.state.view
      ∧ (Node.dispatch env r im).state.startViewChangeReceived = ∅ := by
  simp only [Node.dispatch, hcmd]
  rw [handleStartViewChange_eq env r hcmd, hvote]
  simp only []
  split
  · exact ⟨rfl, rfl⟩
  · split
    · exact handleDoViewChange_tickets env _ _
    · exact ⟨rfl, rfl⟩

theorem builtVote?_eq_some {s : ReplicaState} {msg d : VsrMessage}
    (h : builtVote? s msg = some d) :
    msg.header.command = .startViewChange
      ∧ s.faultToleranceF + 1 ≤ (insert msg.header.replica s.startViewChangeReceived).card
      ∧ d = doViewChangeMessage { s with startViewChangeReceived := ∅ } := by
  unfold builtVote? at h
  split at h
  · rename_i hcond
    exact ⟨hcond.1, hcond.2, (Option.some.inj h).symm⟩
  · cases h

theorem CollectsVote.of_collectedVote {r : Replica} {im : InboundMessage} {d : VsrMessage}
    (hcan : r.canProcess im = true) (h : collectedVote? r.state im.message = some d) :
    ∃ s₁, CollectsVote r.state im s₁ d
      ∧ s₁.doViewChangeReceived = r.state.doViewChangeReceived := by
  unfold collectedVote? at h
  split at h
  · rename_i hcmd
    obtain rfl := Option.some.inj h
    simp only [canProcess, hcmd, checkCanProcessDoViewChange, Bool.and_eq_true,
      beq_iff_eq] at hcan
    exact ⟨_, .received hcmd hcan.1.1 hcan.1.2 hcan.2, rfl⟩
  · split at h
    · rename_i hprimary
      obtain ⟨hcmd, hquorum, rfl⟩ := builtVote?_eq_some h
      simp only [canProcess, hcmd, checkCanProcessStartViewChange, Bool.and_eq_true,
        beq_iff_eq] at hcan
      exact ⟨_, .own hcmd hcan.1 hcan.2 hquorum hprimary, rfl⟩
    · cases h

/-- With those messages the view change is over. -/
theorem dispatch_completes (env : Env) {r : Replica} {im : InboundMessage}
    {votes : List VsrMessage} (h : completingVotes? r.state im.message = some votes) :
    (Node.dispatch env r im).state.status = .normal
      ∧ (Node.dispatch env r im).state.view = r.state.view := by
  obtain ⟨d, hd, hvotes⟩ := Option.bind_eq_some_iff.mp h
  split at hvotes
  · rename_i hquorum
    unfold collectedVote? at hd
    split at hd
    · rename_i hcmd
      obtain rfl := Option.some.inj hd
      simp only [Node.dispatch, hcmd]
      exact ⟨handleDoViewChange_completes env hquorum, (handleDoViewChange_tickets env r im).1⟩
    · split at hd
      · rename_i hprimary
        have hcmd := (builtVote?_eq_some hd).1
        simp only [Node.dispatch, hcmd]
        rw [handleStartViewChange_eq env r hcmd, hd]
        have hself : ReplicaState.getPrimaryIdForView
            { r.state with startViewChangeReceived := ∅ } r.state.view = some r.state.id :=
          hprimary
        simp only [hself, if_true]
        exact ⟨handleDoViewChange_completes env hquorum, (handleDoViewChange_tickets env _ _).1⟩
      · cases hd
  · cases hvotes

/-! ## Broadcasts of `StartView` -/

def Effect.startsView (v : Nat) : Effect → Bool
  | .broadcast m => m.header.command == .startView && m.header.view == v
  | _ => false

theorem countP_startsView_executed {s s' : ReplicaState} {effs : List Effect}
    (h : Executed s s' effs) (v : Nat) : effs.countP (Effect.startsView v) = 0 := by
  refine List.countP_eq_zero.mpr ?_
  intro eff heff
  cases h.effects eff heff with
  | executed => simp [Effect.startsView]
  | reply => simp [Effect.startsView]

/-- A `StartView` goes out once, when the primary of its view has collected
the votes for it. -/
theorem Acts.startsView {env : Env} {s s' : ReplicaState} {im : InboundMessage}
    {effs : List Effect} (h : Acts env s im s' effs) (v : Nat) :
    effs.countP (Effect.startsView v) = 0
      ∨ effs.countP (Effect.startsView v) = 1 ∧ s.view = v ∧ s.status = .viewChange
        ∧ s.getPrimaryIdForView s.view = some s.id ∧ s'.status = .normal ∧ s'.view = v := by
  cases h with
  | old _ _ _ effs heffs =>
      refine Or.inl (List.countP_eq_zero.mpr ?_)
      intro eff heff
      rw [(heffs eff heff).2]
      simp [Effect.startsView]
  | propose => exact Or.inl (by simp [Effect.startsView, prepareMessage])
  | accept s' effs _ _ _ _ _ hexec =>
      refine Or.inl ?_
      rw [List.countP_cons, countP_startsView_executed hexec]
      simp [Effect.startsView]
  | acknowledge _ _ _ _ _ _ _ _ hexec => exact Or.inl (countP_startsView_executed hexec v)
  | learn _ _ _ _ _ _ hexec => exact Or.inl (countP_startsView_executed hexec v)
  | startView s₁ d h hquorum best hbest s' effs hexec =>
      rw [List.countP_cons, countP_startsView_executed hexec]
      obtain ⟨n, t, m, rfl⟩ := hexec.state
      have hview : s₁.view = s.view := by cases h <;> rfl
      by_cases hv : s.view = v
      · refine Or.inr ⟨?_, hv, h.status, h.primary, rfl, hview.trans hv⟩
        simp [Effect.startsView, startViewMessage, startedState, hview, hv]
      · exact Or.inl (by simp [Effect.startsView, startViewMessage, startedState, hview, hv])
  | adopt _ s' effs _ _ _ _ _ hexec =>
      refine Or.inl ?_
      rw [List.countP_append, countP_startsView_executed hexec, Nat.zero_add]
      refine List.countP_eq_zero.mpr ?_
      intro eff heff
      obtain ⟨n, -, rfl⟩ := List.mem_map.mp heff
      simp [Effect.startsView]
  | recover _ _ _ _ _ _ _ _ _ _ _ hexec => exact Or.inl (countP_startsView_executed hexec v)
  | _ => exact Or.inl (by simp [Effect.startsView])

namespace Cluster

/-- A step of a run in which no message is delivered twice, no replica
restarts and no view gets to the last one. -/
structure Unbroken (_ : Cluster) (ev : Event) (c' : Cluster) : Prop where
  once : ev.isDuplicate = false
  restart : ev.restarted? = none
  views : ∀ i < c'.size, (c'.state i).view + 1 < 2 ^ 32

instance (c : Cluster) (ev : Event) (c' : Cluster) : Decidable (Unbroken c ev c') :=
  decidable_of_iff
    (ev.isDuplicate = false ∧ ev.restarted? = none
      ∧ ∀ i < c'.size, (c'.state i).view + 1 < 2 ^ 32)
    ⟨fun ⟨h₁, h₂, h₃⟩ => ⟨h₁, h₂, h₃⟩, fun h => ⟨h.once, h.restart, h.views⟩⟩

/-- How many `StartView`s have been broadcast for view `v`. -/
def startViews (c : Cluster) (v : Nat) : Nat := c.trace.countP (·.2.startsView v)

/-- The replica that builds a `DoViewChange` in this step, and the vote. -/
def castsVote? (c : Cluster) (ev : Event) : Option (Nat × VsrMessage) :=
  ev.ticked?.bind fun i => (c.nodes i).handles?.bind fun im =>
    (builtVote? (c.state i) im.message).map (i, ·)

/-- The replica that completes a view change in this step, and the messages it
uses. -/
def completesViewChange? (c : Cluster) (ev : Event) : Option (Nat × List VsrMessage) :=
  ev.ticked?.bind fun i => (c.nodes i).handles?.bind fun im =>
    (completingVotes? (c.state i) im.message).map (i, ·)

variable {c c' : Cluster} {ev : Event} {i : Nat}

/-! ## Every replica moves forward -/

theorem Moves.forward (hmoves : Moves c ev c') (hd : ∀ j, Disciplined (c.state j))
    (hrestart : ev.restarted? = none) (hrange : ∀ i < c.size, (c.state i).view + 1 < 2 ^ 32)
    (j : Nat) : Disciplined (c'.state j) ∧ Forward (c.state j) (c'.state j) := by
  have hchanges := hmoves.changes j
  generalize c'.state j = s' at hchanges ⊢
  cases hchanges with
  | same => exact ⟨hd j, .rfl' _⟩
  | act env im rest _ effs hlt hev hqueue hstale hacts =>
      exact ⟨hacts.disciplined (hd j) hstale, hacts.forward (hd j) hstale⟩
  | enterView hlt hst =>
      rw [u32_eq (hrange j hlt)]
      exact ⟨.enterNewView hst, .enterNewView hst⟩
  | enterRecovery =>
      refine ⟨⟨fun h => by simp at h, fun h => by simp at h, ?_⟩, Nat.le_refl _,
        fun h => by simp at h⟩
      intro _ m hm
      simp at hm
  | restart hev => rw [hev] at hrestart; cases hrestart

/-! ## Where votes come from -/

theorem Emits.vote_replica (hstatic : Static c) (hsmall : c.size ≤ 2 ^ 8) {eff : Effect}
    {m : VsrMessage} (h : Emits c i eff) (hm : eff.message? = some m)
    (hcmd : m.header.command = .doViewChange) : m.header.replica = i ∧ i < c.size := by
  cases h with
  | act env im rest s' effs hlt hqueue hstale hacts eff heff =>
      have hid : u8 (c.state i).id = i := by rw [hstatic.id, u8_eq (hlt.trans_le hsmall)]
      cases hacts.tally with
      | nothing hgain heffs => exact absurd hcmd (heffs eff heff m hm).2.1
      | join hmsg hst hs' heffs => rw [heffs] at heff; cases heff
      | vote hmsg hst hquorum hspent d hd hview hreplica hcast hresponses =>
          rcases hcast with ⟨⟨p, rfl⟩, -⟩ | ⟨heffs, -⟩
          · obtain rfl := List.mem_singleton.mp heff
            cases hm
            exact ⟨hreplica.trans hid, hlt⟩
          · exact absurd hcmd (heffs eff heff m hm).2.1
      | collect hchanging hvotes hresponses heffs => exact absurd hcmd (heffs eff heff m hm).2.1
      | respond x hs' hmsg heffs =>
          rw [heffs, List.mem_singleton] at heff
          subst heff
          cases hm
          simp [recoveryResponseMessage] at hcmd
      | gather hs' heffs => rw [heffs] at heff; cases heff
  | startViewChange => cases hm; simp [startViewChangeMessage] at hcmd
  | recovery => cases hm; simp [recoveryMessage] at hcmd
  | commit => cases hm; simp [commitMessage] at hcmd

end Cluster

/-- A replica stores the vote it is handling or its own. -/
theorem Acts.stored {env : Env} {s s' : ReplicaState} {im : InboundMessage} {effs : List Effect}
    (h : Acts env s im s' effs) :
    ∀ m ∈ s'.doViewChangeReceived, m ∈ s.doViewChangeReceived
      ∨ m = im.message ∧ m.header.command = .doViewChange ∨ m.header.replica = u8 s.id := by
  intro m hm
  cases h with
  | accept _ _ _ _ _ _ _ hexec =>
      obtain ⟨_, _, _, rfl⟩ := hexec.state
      exact Or.inl hm
  | acknowledge _ _ _ _ _ _ _ _ hexec =>
      obtain ⟨_, _, _, rfl⟩ := hexec.state
      exact Or.inl hm
  | learn _ _ _ _ _ _ hexec =>
      obtain ⟨_, _, _, rfl⟩ := hexec.state
      exact Or.inl hm
  | collect s₁ d h =>
      cases h with
      | received hcmd =>
          rcases List.mem_append.mp hm with hm | hm
          · exact Or.inl hm
          · obtain rfl := List.mem_singleton.mp hm
            exact Or.inr (Or.inl ⟨rfl, hcmd⟩)
      | own =>
          rcases List.mem_append.mp hm with hm | hm
          · exact Or.inl hm
          · rw [List.mem_singleton.mp hm]
            exact Or.inr (Or.inr rfl)
  | startView _ _ _ _ _ _ _ _ hexec =>
      obtain ⟨_, _, _, rfl⟩ := hexec.state
      cases hm
  | adopt _ _ _ _ _ _ _ _ hexec =>
      obtain ⟨_, _, _, rfl⟩ := hexec.state
      exact Or.inl hm
  | recover _ _ _ _ _ _ _ _ _ _ _ hexec =>
      obtain ⟨_, _, _, rfl⟩ := hexec.state
      exact Or.inl hm
  | _ => exact Or.inl hm

namespace Cluster

variable {c c' : Cluster} {ev : Event} {i : Nat}

/-! ## What holds along an unbroken run -/

structure Fair (c : Cluster) : Prop where
  static : Static c
  odd : c.size = 2 * ((c.size - 1) / 2) + 1
  small : c.size ≤ 2 ^ 8
  views : ∀ i < c.size, (c.state i).view + 1 < 2 ^ 32
  disciplined : ∀ i, Disciplined (c.state i)
  tickets : ∀ k w, c.tickets k w ≤ c.size
  votes : ∀ p s w, c.votes p s w ≤ 1
  mail : Accounted c
  senders : ∀ k m, c.Sent k m → m.header.command = .doViewChange →
    m.header.replica = k ∧ k < c.size
  stored : ∀ i, ∀ m ∈ (c.state i).doViewChangeReceived,
    m.header.replica = i ∨ c.Sent m.header.replica m
  started : ∀ v, c.startViews v ≤ 1
  /-- Who has started a view is out of the view change for good. -/
  done : ∀ v, 0 < c.startViews v → v ≤ (c.state (v % c.size)).view
    ∧ ((c.state (v % c.size)).view = v → (c.state (v % c.size)).status ≠ .viewChange)

theorem fair_init {f : Nat} (hsmall : 2 * f + 1 ≤ 2 ^ 8) : Fair (init (2 * f + 1)) where
  static := static_init _
  odd := by
    show 2 * f + 1 = 2 * ((2 * f + 1 - 1) / 2) + 1
    omega
  small := hsmall
  views i _ := by simp [state, init, freshNode, ReplicaState.new]
  disciplined i := disciplined_new i _
  tickets := (counts_init _).tickets
  votes := (counts_init _).votes
  mail := accounted_init _
  senders k m hsent := by obtain ⟨eff, heff, -⟩ := hsent; cases heff
  stored i m hm := by simp [state, init, freshNode, ReplicaState.new] at hm
  started v := by simp [startViews, init]
  done v h := by simp [startViews, init] at h

/-- The vote of a message on its way is that of the replica that sent it. -/
theorem Fair.sent_vote (h : Fair c) {j : Nat} {im : InboundMessage} (him : im ∈ c.pend j)
    (hcmd : im.message.header.command = .doViewChange) :
    c.Sent im.message.header.replica im.message := by
  rcases h.mail j im him with hclient | ⟨k, hsent⟩
  · exact absurd hcmd (uncounted_of_client hclient).2.1
  · rw [(h.senders k _ hsent hcmd).1]
    exact hsent

theorem Moves.stored (hmoves : Moves c ev c') (h : Fair c) (hrestart : ev.restarted? = none)
    (j : Nat) : ∀ m ∈ (c'.state j).doViewChangeReceived,
      m.header.replica = j ∨ c'.Sent m.header.replica m := by
  have hold : ∀ k, ∀ m ∈ (c.state k).doViewChangeReceived,
      m.header.replica = k ∨ c'.Sent m.header.replica m := fun k m hm =>
    (h.stored k m hm).imp_right (Sent.mono hmoves.trace_subset)
  have hchanges := hmoves.changes j
  generalize c'.state j = s' at hchanges ⊢
  cases hchanges with
  | same => exact hold j
  | act env im rest _ effs hlt hev hqueue hstale hacts =>
      intro m hm
      rcases hacts.stored m hm with hm | ⟨rfl, hcmd⟩ | hown
      · exact hold j m hm
      · refine Or.inr (Sent.mono hmoves.trace_subset (h.sent_vote (j := j) ?_ hcmd))
        simp [pend, hqueue]
      · exact Or.inl (by rw [hown, h.static.id, u8_eq (hlt.trans_le h.small)])
  | enterView =>
      intro m hm
      simp [ReplicaState.enterNewView] at hm
  | enterRecovery => exact hold j
  | restart hev => rw [hev] at hrestart; cases hrestart

/-- A step starts a view at most once, and only while its primary is in the
view change. -/
theorem Moves.startViews (hmoves : Moves c ev c') (h : Fair c) (v : Nat) :
    c'.startViews v = c.startViews v
      ∨ c'.startViews v = c.startViews v + 1
        ∧ (c.state (v % c.size)).view = v ∧ (c.state (v % c.size)).status = .viewChange
        ∧ (c'.state (v % c.size)).view = v ∧ (c'.state (v % c.size)).status = .normal := by
  have hlocal : ∀ {i : Nat} {s' : ReplicaState} {q' : List InboundMessage} {effs : List Effect},
      Local c c' i s' q' effs →
      c'.startViews v = c.startViews v + effs.countP (Effect.startsView v) := by
    intro i s' q' effs hlocal
    rw [Cluster.startViews, hlocal.trace, List.countP_append, List.countP_map]
    rfl
  cases hmoves with
  | quiet _ _ htrace => exact Or.inl (by rw [Cluster.startViews, htrace, Cluster.startViews])
  | duplicate _ _ _ _ htrace =>
      exact Or.inl (by rw [Cluster.startViews, htrace, Cluster.startViews])
  | act i env hev im rest s' effs hqueue hstale hacts hl =>
      rw [hlocal hl]
      rcases hacts.startsView v with hzero | ⟨hone, hview, hst, hprimary, hst', hview'⟩
      · exact Or.inl (by rw [hzero, Nat.add_zero])
      · have hpos : 0 < c.size := Nat.zero_lt_of_lt hl.lt
        rw [h.static.getPrimaryIdForView hpos, h.static.id] at hprimary
        have hi : v % c.size = i := hview ▸ Option.some.inj hprimary
        rw [hone, hi, hl.state_self]
        exact Or.inr ⟨rfl, hview, hst, hview', hst'⟩
  | enterView i s' hst hs' hl =>
      exact Or.inl (by rw [hlocal hl]; simp [Effect.startsView, startViewChangeMessage])
  | enterRecovery i stuck rest nonce s' hst hqueue hcan haction hs' hl =>
      exact Or.inl (by rw [hlocal hl]; simp [Effect.startsView, recoveryMessage])
  | heartbeat i hst hprimary hl =>
      exact Or.inl (by rw [hlocal hl]; simp [Effect.startsView, commitMessage])
  | restart _ _ _ _ _ _ htrace =>
      exact Or.inl (by rw [Cluster.startViews, htrace, Cluster.startViews])

theorem Fair.step (h : Fair c) (hstep : step c ev = some c') (hok : Unbroken c ev c') :
    Fair c' ∧ ∀ k w, c'.tickets k w ≤ c.tickets k w := by
  have hmoves := step_moves h.static hstep
  have hsize := hmoves.size
  have hforward := hmoves.forward h.disciplined hok.restart h.views
  have hmono := hmoves.tickets_le h.static hok.once h.views fun j => (hforward j).2.view
  refine ⟨
    { static := static_step h.static hstep
      odd := by rw [hsize]; exact h.odd
      small := by rw [hsize]; exact h.small
      views := hok.views
      disciplined := fun j => (hforward j).1
      tickets := fun k w => by rw [hsize]; exact (hmono k w).trans (h.tickets k w)
      votes := fun p s w => (hmoves.votes_le h.static hok.once h.odd h.small h.tickets
        (fun j => (hforward j).2.view) hmono p s w).trans (h.votes p s w)
      mail := h.mail.step hmoves
      senders := ?_
      stored := hmoves.stored h hok.restart
      started := ?_
      done := ?_ }, hmono⟩
  · intro k m hsent hcmd
    rw [hsize]
    rcases hmoves.sent hsent with hsent | ⟨eff, hemits, hm⟩
    · exact h.senders k m hsent hcmd
    · exact hemits.vote_replica h.static h.small hm hcmd
  · intro v
    rcases hmoves.startViews h v with heq | ⟨heq, hview, hst, -⟩
    · rw [heq]
      exact h.started v
    · -- had the view been started before, its primary would be out of the view change
      by_cases hzero : c.startViews v = 0
      · omega
      · exact absurd hst ((h.done v (by omega)).2 hview)
  · intro v hpos
    rw [hsize]
    rcases hmoves.startViews h v with heq | ⟨-, -, -, hview', hst'⟩
    · obtain ⟨hle, hover⟩ := h.done v (heq ▸ hpos)
      have hfw := (hforward (v % c.size)).2
      refine ⟨hle.trans hfw.view, ?_⟩
      intro hview hst
      rcases hfw.changing hst with ⟨hst₀, hview₀⟩ | ⟨-, hview₀⟩
      · exact hover (hview₀.trans hview) hst₀
      · omega
    · exact ⟨hview'.ge, fun _ => by simp [hst']⟩

theorem Fair.run (h : Fair c) (run : Run Unbroken c c') :
    Fair c' ∧ ∀ k w, c'.tickets k w ≤ c.tickets k w := by
  refine run.invariant (I := fun c' => Fair c' ∧ ∀ k w, c'.tickets k w ≤ c.tickets k w)
    ⟨h, fun _ _ => Nat.le_refl _⟩ ?_
  intro u ev v _ hstep hok hu
  obtain ⟨hv, hmono⟩ := hu.1.step hstep hok
  exact ⟨hv, fun k w => (hmono k w).trans (hu.2 k w)⟩

/-- The turn that handles `im`, as a local step. -/
theorem local_of_handles (hstatic : Static c) {env : Env} {im : InboundMessage}
    (hstep : step c (.tick i env) = some c') (h : (c.nodes i).handles? = some im) :
    (c.nodes i).replica.canProcess im = true ∧ ∃ rest, c.queue i = im :: rest
      ∧ Acts env (c.state i) im (Node.dispatch env (c.nodes i).replica im).state
        (Node.dispatch env (c.nodes i).replica im).out
      ∧ Local c c' i (Node.dispatch env (c.nodes i).replica im).state rest
        (Node.dispatch env (c.nodes i).replica im).out := by
  unfold Node.handles? at h
  split at h
  · rename_i b im' rest hpass hqueue
    split at h
    · rename_i hcond
      obtain rfl := Option.some.inj h
      obtain ⟨hstale, hcan⟩ := Bool.and_eq_true_iff.mp hcond
      have hstale : Node.isStale (c.nodes i).replica.state im'.message = false := by
        simpa using hstale
      simp only [step, Option.ite_none_right_eq_some, Option.some.injEq] at hstep
      obtain ⟨⟨hlt, -⟩, rfl⟩ := hstep
      refine ⟨hcan, rest, hqueue, dispatch_acts (hstatic.out i) hcan, ?_⟩
      have htick : (c.nodes i).tick env
          = { c.nodes i with
              replica := Node.dispatch env (c.nodes i).replica im', messageQueue := rest,
              pass := some true } := by
        simp [Node.tick, hpass, hqueue, hstale, hcan]
      rw [htick]
      exact local_put hlt
    · cases h
  · cases h

theorem Fair.voter_lt (h : Fair c) (hi : i < c.size) {m : VsrMessage}
    (hcmd : m.header.command = .doViewChange)
    (hfrom : m.header.replica = i ∨ c.Sent m.header.replica m) : m.header.replica < c.size := by
  rcases hfrom with heq | hsent
  · rw [heq]
    exact hi
  · exact (h.senders _ m hsent hcmd).2

theorem Fair.collected_from (h : Fair c) (hi : i < c.size) {im : InboundMessage}
    {rest : List InboundMessage} (hqueue : c.queue i = im :: rest) {s₁ : ReplicaState}
    {d : VsrMessage} (hcollect : CollectsVote (c.state i) im s₁ d) :
    d.header.replica = i ∨ c.Sent d.header.replica d := by
  cases hcollect with
  | received hcmd =>
      refine Or.inr (h.sent_vote (j := i) ?_ hcmd)
      simp [pend, hqueue]
  | own =>
      refine Or.inl ?_
      show u8 (c.state i).id = i
      rw [h.static.id, u8_eq (hi.trans_le h.small)]

/-- A vote is for the view of the replica that casts it, and costs it a
quorum of tickets. -/
theorem Fair.spends (h : Fair c) {d : VsrMessage} (hstep : c.step ev = some c')
    (hok : Unbroken c ev c') (hvote : c.castsVote? ev = some (i, d)) :
    c'.tickets i d.header.view + ((c.size - 1) / 2 + 1) ≤ c.tickets i d.header.view := by
  obtain ⟨i', hev, hvote⟩ := Option.bind_eq_some_iff.mp hvote
  obtain ⟨im, hhandles, hvote⟩ := Option.bind_eq_some_iff.mp hvote
  obtain ⟨d', hbuilt, heq⟩ := Option.map_eq_some_iff.mp hvote
  cases heq
  cases ev with
  | tick k env =>
      obtain rfl := Option.some.inj hev
      obtain ⟨hcmd, hquorum, rfl⟩ := builtVote?_eq_some hbuilt
      obtain ⟨hcan, rest, hqueue, hacts, hlocal⟩ := local_of_handles h.static hstep hhandles
      have hforward := (step_moves h.static hstep).forward h.disciplined hok.restart h.views
      simp only [canProcess, hcmd, checkCanProcessStartViewChange, Bool.and_eq_true,
        beq_iff_eq] at hcan
      have hmsg : isStartViewChange (c.state k).view im.message = true := by
        have hview : im.message.header.view = (c.state k).view := hcan.1
        simp [isStartViewChange, hcmd, hview]
      have hspend := hlocal.tickets_spend hqueue (fun j => (hforward j).2.view) hacts.tally
        hmsg hcan.2 hquorum
        (fun _ => spent_of_builtVote hcmd hbuilt)
      rw [h.static.f] at hspend
      exact hspend
  | _ => cases hev

/-- The messages that complete a view change are votes for its view, cast by
as many replicas as there are messages. -/
theorem Fair.genuine (h : Fair c) {used : List VsrMessage} (hstep : c.step ev = some c')
    (hused : c.completesViewChange? ev = some (i, used)) :
    (c.size - 1) / 2 + 1 ≤ (used.map (·.header.replica)).toFinset.card
      ∧ (∀ m ∈ used, m.header.command = .doViewChange ∧ m.header.view = (c.state i).view
        ∧ m.header.replica < c.size ∧ (m.header.replica = i ∨ c.Sent m.header.replica m))
      ∧ (c'.state i).status = .normal ∧ (c'.state i).view = (c.state i).view := by
  obtain ⟨i', hev, hused⟩ := Option.bind_eq_some_iff.mp hused
  obtain ⟨im, hhandles, hused⟩ := Option.bind_eq_some_iff.mp hused
  obtain ⟨used', hvotes, heq⟩ := Option.map_eq_some_iff.mp hused
  cases heq
  cases ev with
  | tick k env =>
      obtain rfl := Option.some.inj hev
      obtain ⟨hcan, rest, hqueue, hacts, hlocal⟩ := local_of_handles h.static hstep hhandles
      have hdone := dispatch_completes env hvotes
      obtain ⟨d, hd, hquorum⟩ := Option.bind_eq_some_iff.mp hvotes
      split at hquorum
      · rename_i hcard
        obtain rfl := Option.some.inj hquorum
        obtain ⟨s₁, hcollect, hsame⟩ := CollectsVote.of_collectedVote hcan hd
        have hst := hcollect.status
        have hvotes := (h.disciplined k).votes hst
        have hnodup := nodup_votes h.votes h.static hqueue (hlocal.lt.trans_le h.small) hcollect
          hvotes
        rw [show s₁.doViewChangeReceived = (c.state k).doViewChangeReceived from hsame] at hnodup
        refine ⟨?_, ?_, ?_⟩
        · rw [List.toFinset_card_of_nodup hnodup, List.length_map, ← h.static.f k]
          exact hcard
        · intro m hm
          rcases List.mem_append.mp hm with hm | hm
          · obtain ⟨hcmd, hview⟩ := hvotes m hm
            exact ⟨hcmd, hview, h.voter_lt hlocal.lt hcmd (h.stored k m hm), h.stored k m hm⟩
          · obtain rfl := List.mem_singleton.mp hm
            obtain ⟨hcmd, hview⟩ := hcollect.header
            have hfrom := h.collected_from hlocal.lt hqueue hcollect
            exact ⟨hcmd, hview, h.voter_lt hlocal.lt hcmd hfrom, hfrom⟩
        · rw [hlocal.state_self]
          exact hdone
      · cases hquorum
  | _ => cases hev

/-- In a run without duplicates and restarts whose views do not wrap: no
replica casts two votes for a view; a view change is completed by votes for
its view from `f + 1` replicas; and no view is started twice. -/
theorem genuine_view_change_quorums (f : Nat) (hsmall : 2 * f + 1 ≤ 256)
    (run : Run Unbroken (init (2 * f + 1)) c) :
    (∀ c₁ ev₁ c₁' ev c' i d₁ d, Run Unbroken (init (2 * f + 1)) c₁ →
        c₁.step ev₁ = some c₁' → Unbroken c₁ ev₁ c₁' → Run Unbroken c₁' c →
        c.step ev = some c' → Unbroken c ev c' →
        c₁.castsVote? ev₁ = some (i, d₁) → c.castsVote? ev = some (i, d) →
        d₁.header.view ≠ d.header.view)
      ∧ (∀ ev c' i used, c.step ev = some c' → c.completesViewChange? ev = some (i, used) →
        f + 1 ≤ (used.map (·.header.replica)).toFinset.card
          ∧ (∀ m ∈ used, m.header.command = .doViewChange ∧ m.header.view = (c.state i).view
            ∧ m.header.replica < 2 * f + 1
            ∧ (m.header.replica = i ∨ c.Sent m.header.replica m))
          ∧ (c'.state i).status = .normal ∧ (c'.state i).view = (c.state i).view)
      ∧ ∀ v, c.startViews v ≤ 1 := by
  have hinit : Fair (init (2 * f + 1)) := fair_init hsmall
  have hfair := (hinit.run run).1
  have hsize : c.size = 2 * f + 1 := size_run run
  refine ⟨?_, ?_, hfair.started⟩
  · intro c₁ ev₁ c₁' ev c' i d₁ d run₁ hstep₁ hok₁ run' hstep hok hcast₁ hcast hview
    have hfair₁ := (hinit.run run₁).1
    have hsize₁ : c₁.size = 2 * f + 1 := size_run run₁
    -- the first vote leaves less than a quorum of tickets, and no more are handed out
    have hfirst := hfair₁.spends hstep₁ hok₁ hcast₁
    have hmono := ((hfair₁.step hstep₁ hok₁).1.run run').2 i d.header.view
    have hsecond := hfair.spends hstep hok hcast
    have hall := hfair₁.tickets i d.header.view
    rw [hview] at hfirst
    omega
  · intro ev c' i used hstep hused
    obtain ⟨hcard, hvotes, hdone⟩ := hfair.genuine hstep hused
    rw [hsize] at hcard hvotes
    exact ⟨by omega, hvotes, hdone⟩

/-- Replicas 1 and 2 change to view 1, and replica 1 completes the change. -/
theorem genuine_quorum_of_two :
    ∃ c c' used, Run Unbroken (init (2 * 1 + 1)) c ∧ c.step (.tick 1 {}) = some c'
      ∧ c.completesViewChange? (.tick 1 {}) = some (1, used)
      ∧ 1 + 1 ≤ (used.map (·.header.replica)).toFinset.card := by
  obtain ⟨c, run, c', hstep, x, hused, hx⟩ := exists_of_replay step Unbroken (init (2 * 1 + 1))
    ([.timeout 1, .timeout 2] ++ receive 3 1 ++ receive 1 2 ++ [.deliver 2, .start 1])
    (P := fun c => ∃ c' ∈ c.step (.tick 1 {}), ∃ x ∈ c.completesViewChange? (.tick 1 {}), x.1 = 1)
    (by decide +kernel)
  obtain ⟨i, used⟩ := x
  obtain rfl : i = 1 := hx
  have hquorum := (genuine_view_change_quorums 1 (by norm_num) run).2.1 _ c' 1 used hstep hused
  exact ⟨c, c', used, run, hstep, hused, hquorum.1⟩

end Cluster

end VsrKv
