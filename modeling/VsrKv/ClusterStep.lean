import VsrKv.Actions
import VsrKv.Cluster

/-!
# What a step of the cluster can do

The step function of the cluster seen from the protocol: `Moves` forgets
the control state of the queue loop, the posted runs and the client
connections, and keeps the replicas' states, their queues, the network
and the trace. Most events only move messages around (`quiet`); the
others change one replica and put on the network what it emits (`Local`).

A message that has been sent and not yet taken off a queue is *pending*
at its destination, be it in flight or queued. Delivery does not change
what is pending, which is why the counting arguments are about `pend`.
-/

namespace VsrKv

open Replica

namespace Cluster

/-- Replica `i` has sent `m`, to whomever. -/
def Sent (c : Cluster) (i : Nat) (m : VsrMessage) : Prop :=
  ∃ eff, (i, eff) ∈ c.trace ∧ eff.message? = some m

/-- In flight to `j`. -/
def netFor (c : Cluster) (j : Nat) : List InboundMessage :=
  (c.net.filter (·.dst == j)).map (·.inbound)

/-- Sent to `j` and not yet taken off its queue. -/
def pend (c : Cluster) (j : Nat) : List InboundMessage := c.netFor j ++ c.queue j

/-- How many messages of a kind are pending at `j`. -/
def pending (c : Cluster) (j : Nat) (kind : VsrMessage → Bool) : Nat :=
  (c.pend j).countP (kind ·.message)

/-- What the effects of `src` put on the network for `j`. -/
def mail (src : Nat) (peers : List Nat) (effs : List Effect) (j : Nat) : List InboundMessage :=
  ((effs.flatMap (Effect.packets src peers)).filter (·.dst == j)).map (·.inbound)

/-- How many messages of a kind are among it. -/
def mailed (src : Nat) (peers : List Nat) (effs : List Effect) (j : Nat)
    (kind : VsrMessage → Bool) : Nat :=
  (mail src peers effs j).countP (kind ·.message)

/-- One replica changes and emits; everything else stays. -/
structure Local (c c' : Cluster) (i : Nat) (s' : ReplicaState) (q' : List InboundMessage)
    (effs : List Effect) : Prop where
  size : c'.size = c.size
  lt : i < c.size
  state_self : c'.state i = s'
  state_ne : ∀ j, j ≠ i → c'.state j = c.state j
  queue_self : c'.queue i = q'
  queue_ne : ∀ j, j ≠ i → c'.queue j = c.queue j
  net : c'.net = c.net ++ effs.flatMap (Effect.packets i (peers s'))
  trace : c'.trace = c.trace ++ effs.map (i, ·)

inductive Moves (c : Cluster) (ev : Event) (c' : Cluster) : Prop where
  /-- Messages are queued, lost or discarded; no replica changes. -/
  | quiet (hsize : c'.size = c.size) (hstate : ∀ j, c'.state j = c.state j)
      (htrace : c'.trace = c.trace)
      (hmem : ∀ j, ∀ im ∈ c'.pend j, im ∈ c.pend j
        ∨ (∃ fd, im.connection = .client fd) ∧ isClientMessage im.message = true)
      (hcount : ∀ j kind, (∀ m, isClientMessage m = true → kind m = false) →
        c'.pending j kind ≤ c.pending j kind)
  | duplicate (k : Nat) (hev : ev = .duplicate k) (hsize : c'.size = c.size)
      (hstate : ∀ j, c'.state j = c.state j) (htrace : c'.trace = c.trace)
      (hmem : ∀ j, ∀ im ∈ c'.pend j, im ∈ c.pend j)
  | act (i : Nat) (env : Env) (hev : ev = .tick i env) (im : InboundMessage)
      (rest : List InboundMessage) (s' : ReplicaState) (effs : List Effect)
      (hqueue : c.queue i = im :: rest)
      (hstale : Node.isStale (c.state i) im.message = false)
      (hacts : Acts env (c.state i) im s' effs) (hlocal : Local c c' i s' rest effs)
  | enterView (i : Nat) (s' : ReplicaState) (hst : (c.state i).status = .normal)
      (hs' : s' = (c.state i).enterNewView (u32 ((c.state i).view + 1)))
      (hlocal : Local c c' i s' (c.queue i) [.broadcast (startViewChangeMessage s')])
  | enterRecovery (i : Nat) (stuck : InboundMessage) (rest : List InboundMessage)
      (nonce : UInt128) (s' : ReplicaState) (hst : (c.state i).status = .normal)
      (hqueue : c.queue i = stuck :: rest)
      (hcan : (c.nodes i).replica.canProcess stuck = false)
      (haction : determineStateAction (c.state i) stuck.message = .initiateRecovery)
      (hs' : s' = { c.state i with
        status := .recovery, recoveryNonce := nonce, recoveryResponses := [] })
      (hlocal : Local c c' i s' [] [.broadcast (recoveryMessage s')])
  | heartbeat (i : Nat) (hst : (c.state i).status = .normal)
      (hprimary : (c.state i).isPrimary = true)
      (hlocal : Local c c' i (c.state i) (c.queue i) [.broadcast (commitMessage (c.state i))])
  | restart (i : Nat) (hev : ev = .restart i) (hlt : i < c.size) (hsize : c'.size = c.size)
      (hself : c'.state i = .new i (clusterOf c.size))
      (hne : ∀ j, j ≠ i → c'.state j = c.state j)
      (htrace : c'.trace = c.trace)
      (hpend : ∀ j, c'.pend j = if j = i then [] else c.pend j)

/-! ## The configuration never changes -/

/-- Between events a replica has its own id, the cluster's configuration, and
no output that has not been handed over. -/
structure Static (c : Cluster) : Prop where
  id : ∀ i, (c.state i).id = i
  f : ∀ i, (c.state i).faultToleranceF = (c.size - 1) / 2
  config : ∀ i, (c.state i).clusterConfig = (ReplicaState.new i (clusterOf c.size)).clusterConfig
  out : ∀ i, (c.nodes i).replica.out = []

theorem static_init (n : Nat) : Static (init n) where
  id _ := rfl
  f i := by simp [state, init, freshNode, ReplicaState.new, clusterOf]
  config _ := rfl
  out _ := rfl

end Cluster

/-- What no handler touches. -/
structure SameConfig (s s' : ReplicaState) : Prop where
  id : s'.id = s.id
  f : s'.faultToleranceF = s.faultToleranceF
  config : s'.clusterConfig = s.clusterConfig

theorem SameConfig.rfl' (s : ReplicaState) : SameConfig s s := ⟨rfl, rfl, rfl⟩

theorem SameConfig.trans {s₀ s s' : ReplicaState} (h₀ : SameConfig s₀ s) (h : SameConfig s s') :
    SameConfig s₀ s' :=
  ⟨h.id.trans h₀.id, h.f.trans h₀.f, h.config.trans h₀.config⟩

theorem SameConfig.peers_eq {s s' : ReplicaState} (h : SameConfig s s') :
    Cluster.peers s' = Cluster.peers s := by
  rw [Cluster.peers, Cluster.peers, h.id, h.config]

theorem SameConfig.isPrimary {i : Nat} {config : List PeerConfig} {s : ReplicaState}
    (h : SameConfig (.new i config) s) :
    s.isPrimary = decide (i = s.view % (2 * ((config.length - 1) / 2) + 1)) := by
  rw [ReplicaState.isPrimary, ReplicaState.getPrimaryId, h.id, h.f]
  rfl

theorem SameConfig.getPrimaryIdForView {i : Nat} {config : List PeerConfig} {s : ReplicaState}
    (h : SameConfig (.new i config) s) (hids : (config.map PeerConfig.id).Nodup)
    (hpos : 0 < config.length) (v : Nat) :
    s.getPrimaryIdForView v = some (v % config.length) := by
  rw [ReplicaState.getPrimaryIdForView, h.config, size_clusterConfig hids, if_neg hpos.ne']

theorem SameConfig.of_executed {s₀ s s' : ReplicaState} {effs : List Effect}
    (h : Executed s s' effs) (h₀ : SameConfig s₀ s) : SameConfig s₀ s' := by
  obtain ⟨n, t, m, rfl⟩ := h.state
  exact ⟨h₀.id, h₀.f, h₀.config⟩

theorem CollectsVote.sameConfig {s s₁ : ReplicaState} {im : InboundMessage} {d : VsrMessage}
    (h : CollectsVote s im s₁ d) : SameConfig s s₁ := by
  cases h <;> exact ⟨rfl, rfl, rfl⟩

theorem Acts.sameConfig {env : Env} {s s' : ReplicaState} {im : InboundMessage}
    {effs : List Effect} (h : Acts env s im s' effs) : SameConfig s s' := by
  cases h with
  | accept _ _ _ _ _ _ _ hexec => exact .of_executed hexec ⟨rfl, rfl, rfl⟩
  | acknowledge _ _ _ _ _ _ _ _ hexec => exact .of_executed hexec ⟨rfl, rfl, rfl⟩
  | learn _ _ _ _ _ _ hexec => exact .of_executed hexec ⟨rfl, rfl, rfl⟩
  | collect s₁ d h => exact ⟨h.sameConfig.id, h.sameConfig.f, h.sameConfig.config⟩
  | startView s₁ d h _ best _ _ _ hexec =>
      exact .of_executed hexec ⟨h.sameConfig.id, h.sameConfig.f, h.sameConfig.config⟩
  | adopt _ _ _ _ _ _ _ _ hexec => exact .of_executed hexec ⟨rfl, rfl, rfl⟩
  | recover _ _ _ _ _ _ _ _ _ s₁ _ hexec =>
      have h : SameConfig s _ := .of_executed hexec ⟨rfl, rfl, rfl⟩
      exact ⟨h.id, h.f, h.config⟩
  | _ => exact ⟨rfl, rfl, rfl⟩

namespace Cluster

/-! ## Reading a stored node -/

section

variable (c : Cluster) (i j : Nat) (n : Node)

theorem state_setNode :
    (c.setNode i n).state j = if j = i then n.replica.state else c.state j := by
  by_cases h : j = i
  · subst h; simp [state, setNode]
  · simp [state, setNode, h]

theorem queue_setNode :
    (c.setNode i n).queue j = if j = i then n.messageQueue else c.queue j := by
  by_cases h : j = i
  · subst h; simp [queue, setNode]
  · simp [queue, setNode, h]

theorem state_put : (c.put i n).state j = if j = i then n.replica.state else c.state j := by
  by_cases h : j = i
  · subst h; simp [state, put]
  · simp [state, put, h]

theorem queue_put : (c.put i n).queue j = if j = i then n.messageQueue else c.queue j := by
  by_cases h : j = i
  · subst h; simp [queue, put]
  · simp [queue, put, h]

end

variable {c c' : Cluster} {ev : Event} {i : Nat} {n : Node}

theorem local_put (hlt : i < c.size) :
    Local c (c.put i n) i n.replica.state n.messageQueue n.replica.out where
  size := rfl
  lt := hlt
  state_self := by simp [state_put]
  state_ne j hj := by simp [state_put, hj]
  queue_self := by simp [queue_put]
  queue_ne j hj := by simp [queue_put, hj]
  net := rfl
  trace := rfl

theorem local_put_of {s' : ReplicaState} {q' : List InboundMessage} {effs : List Effect}
    (hlt : i < c.size) (hstate : n.replica.state = s') (hqueue : n.messageQueue = q')
    (hout : n.replica.out = effs) : Local c (c.put i n) i s' q' effs := by
  subst hstate hqueue hout
  exact local_put hlt

/-! ## Steps that only move messages -/

/-- What is pending afterwards was pending before or has just come from a
client. -/
theorem Moves.of_subperm (hsize : c'.size = c.size) (hstate : ∀ j, c'.state j = c.state j)
    (htrace : c'.trace = c.trace)
    (h : ∀ j, ∃ l, (c'.pend j).Subperm (c.pend j ++ l) ∧ ∀ im ∈ l,
      (∃ fd, im.connection = .client fd) ∧ isClientMessage im.message = true) :
    Moves c ev c' := by
  refine .quiet hsize hstate htrace ?_ ?_
  · intro j im him
    obtain ⟨l, hsub, hl⟩ := h j
    rcases List.mem_append.mp (hsub.subset him) with him | him
    · exact Or.inl him
    · exact Or.inr (hl im him)
  · intro j kind hkind
    obtain ⟨l, hsub, hl⟩ := h j
    have hzero : l.countP (kind ·.message) = 0 :=
      List.countP_eq_zero.mpr fun im him => by simp [hkind im.message (hl im him).2]
    have := hsub.countP_le (kind ·.message)
    rw [List.countP_append, hzero] at this
    exact this

theorem netFor_eraseIdx {k : Nat} {p : Packet} (hp : c.net[k]? = some p) (j : Nat) :
    (c.netFor j).Perm
      ((if p.dst = j then [p.inbound] else [])
        ++ ((c.net.eraseIdx k).filter (·.dst == j)).map (·.inbound)) := by
  obtain ⟨hk, rfl⟩ := List.getElem?_eq_some_iff.mp hp
  have hperm := ((List.getElem_cons_eraseIdx_perm hk).symm.filter (·.dst == j)).map (·.inbound)
  refine hperm.trans ?_
  by_cases h : (c.net[k]).dst = j <;> simp [h]

theorem netFor_eraseIdx_subperm {k : Nat} {p : Packet} (hp : c.net[k]? = some p) (j : Nat) :
    (((c.net.eraseIdx k).filter (·.dst == j)).map (·.inbound)).Subperm (c.netFor j) :=
  (List.sublist_append_right _ _).subperm.trans (netFor_eraseIdx hp j).symm.subperm

/-- A node is stored with its state unchanged, and its queue, if anything,
shorter. -/
theorem Moves.of_put_queue (hstate : n.replica.state = c.state i) (hout : n.replica.out = [])
    (hqueue : n.messageQueue.Sublist (c.queue i)) : Moves c ev (c.put i n) := by
  refine .of_subperm rfl ?_ (by simp [put, hout]) (fun j => ⟨[], ?_, by simp⟩)
  · intro j
    rw [state_put]
    split
    · rename_i h; rw [h, hstate]
    · rfl
  · have hnet : (c.put i n).netFor j = c.netFor j := by simp [netFor, put, hout]
    rw [List.append_nil, pend, pend, hnet, queue_put]
    split
    · rename_i h
      subst h
      exact ((List.Sublist.refl _).append hqueue).subperm
    · exact List.Subperm.refl _

theorem Moves.of_setNode_queue {l : List InboundMessage}
    (hstate : n.replica.state = c.state i) (hqueue : n.messageQueue = c.queue i ++ l)
    (hl : ∀ im ∈ l, (∃ fd, im.connection = .client fd) ∧ isClientMessage im.message = true) :
    Moves c ev (c.setNode i n) := by
  refine .of_subperm rfl ?_ rfl ?_
  · intro j
    rw [state_setNode]
    split
    · rename_i h; rw [h, hstate]
    · rfl
  · intro j
    by_cases h : j = i
    · subst h
      refine ⟨l, ?_, hl⟩
      rw [pend, pend, queue_setNode, if_pos rfl, hqueue, List.append_assoc]
      exact List.Subperm.refl _
    · refine ⟨[], ?_, by simp⟩
      rw [pend, pend, queue_setNode, if_neg h, List.append_nil]
      exact List.Subperm.refl _

theorem Moves.of_deliver {k : Nat} {p : Packet} (hp : c.net[k]? = some p) :
    Moves c ev { c.setNode p.dst ((c.nodes p.dst).enqueueMessage p.inbound) with
      net := c.net.eraseIdx k } := by
  refine .of_subperm rfl ?_ rfl (fun j => ⟨[], ?_, by simp⟩)
  · intro j
    refine (state_setNode c p.dst j _).trans ?_
    split
    · rename_i h; rw [h]; rfl
    · rfl
  · have hperm := netFor_eraseIdx hp j
    have hqueue := queue_setNode c p.dst j ((c.nodes p.dst).enqueueMessage p.inbound)
    rw [List.append_nil, pend, pend]
    refine List.Perm.subperm ?_
    refine List.Perm.trans ?_ (hperm.append_right (c.queue j)).symm
    change (_ ++ (c.setNode p.dst _).queue j).Perm _
    rw [hqueue]
    by_cases h : j = p.dst
    · subst h
      rw [if_pos rfl, if_pos rfl]
      change (_ ++ (c.queue p.dst ++ [p.inbound])).Perm ([p.inbound] ++ _ ++ c.queue p.dst)
      rw [← List.append_assoc, List.append_assoc [p.inbound]]
      exact List.perm_append_comm
    · have h' : ¬p.dst = j := fun e => h e.symm
      rw [if_neg h, if_neg h', List.nil_append]
      exact List.Perm.refl _

theorem Moves.of_drop {k : Nat} {p : Packet} (hp : c.net[k]? = some p) :
    Moves c ev { c with net := c.net.eraseIdx k } := by
  refine .of_subperm rfl (fun _ => rfl) rfl (fun j => ⟨[], ?_, by simp⟩)
  rw [List.append_nil]
  exact (List.subperm_append_right _).mpr (netFor_eraseIdx_subperm hp j)

theorem Moves.of_duplicate {k : Nat} {p : Packet} (hp : c.net[k]? = some p) :
    Moves c (.duplicate k) { c with net := c.net ++ [p] } := by
  refine .duplicate k rfl rfl (fun _ => rfl) rfl ?_
  intro j im him
  rcases List.mem_append.mp him with him | him
  · obtain ⟨q, hq, rfl⟩ := List.mem_map.mp him
    obtain ⟨hq, hdst⟩ := List.mem_filter.mp hq
    refine List.mem_append_left _ (List.mem_map.mpr ⟨q, List.mem_filter.mpr ⟨?_, hdst⟩, rfl⟩)
    rcases List.mem_append.mp hq with hq | hq
    · exact hq
    · rw [List.mem_singleton.mp hq]
      exact List.mem_of_getElem? hp
  · exact List.mem_append_right _ him

/-! ## Steps in which a replica acts -/

theorem Moves.of_initiateViewChange (hlt : i < c.size) (hout : (c.nodes i).replica.out = [])
    (hst : (c.state i).status = .normal) (hqueue : n.messageQueue = c.queue i)
    (hrep : n.replica = (c.nodes i).replica.initiateViewChange) : Moves c ev (c.put i n) := by
  refine .enterView i _ hst rfl (local_put_of hlt (by rw [hrep]; rfl) hqueue ?_)
  rw [hrep, initiateViewChange, broadcastToPeers, emit, hout]
  rfl

theorem Moves.of_initiateRecovery {env : Env} {im : InboundMessage} {rest : List InboundMessage}
    (hlt : i < c.size) (hout : (c.nodes i).replica.out = [])
    (hst : (c.state i).status = .normal) (hq : c.queue i = im :: rest)
    (hcan : (c.nodes i).replica.canProcess im = false)
    (haction : determineStateAction (c.state i) im.message = .initiateRecovery)
    (hqueue : n.messageQueue = [])
    (hrep : n.replica = (c.nodes i).replica.initiateRecovery env) : Moves c ev (c.put i n) := by
  have hst' : ¬(c.nodes i).replica.state.status = .recovery := by
    rw [show (c.nodes i).replica.state.status = .normal from hst]
    simp
  rw [initiateRecovery, if_neg hst'] at hrep
  refine .enterRecovery i im rest
    (generateNonce env.now (c.state i).id (c.nodes i).replica.nonceCounter) _ hst hq hcan haction
    rfl (local_put_of hlt (by rw [hrep]; rfl) hqueue ?_)
  rw [hrep, broadcastToPeers, emit, hout]
  rfl

/-- The code after the inner loop, which has stopped at a message that
cannot be processed or at the end of the queue. -/
theorem Moves.of_endPass {env : Env} {b : Bool} (hlt : i < c.size)
    (hout : (c.nodes i).replica.out = [])
    (hstuck : ∀ im rest, c.queue i = im :: rest → (c.nodes i).replica.canProcess im = false) :
    Moves c ev (c.put i ((c.nodes i).endPass env b)) := by
  have hsame : Moves c ev (c.put i { c.nodes i with pass := if b then some false else none }) :=
    .of_put_queue rfl hout (List.Sublist.refl _)
  unfold Node.endPass Node.reactToStuck
  split
  · exact hsame
  · rename_i im rest hq
    split
    · rename_i hst
      split
      · rename_i haction
        exact .of_initiateRecovery hlt hout hst hq (hstuck im rest hq) haction rfl rfl
      · exact .of_initiateViewChange hlt hout hst rfl rfl
      · exact hsame
    · exact hsame

theorem Moves.of_tick {env : Env} (hlt : i < c.size) (hout : (c.nodes i).replica.out = [])
    (hpass : (c.nodes i).pass ≠ none) :
    Moves c (.tick i env) (c.put i ((c.nodes i).tick env)) := by
  obtain ⟨b, hb⟩ := Option.ne_none_iff_exists'.mp hpass
  unfold Node.tick
  simp only [hb]
  split
  · rename_i hq
    exact .of_endPass hlt hout (fun im rest h => by simp [queue, hq] at h)
  · rename_i im rest hq
    split
    · exact .of_put_queue rfl hout (by rw [queue, hq]; exact List.sublist_cons_self ..)
    · rename_i hstale
      split
      · rename_i hcan
        exact .act i env rfl im rest _ _ hq (Bool.eq_false_of_not_eq_true hstale)
          (dispatch_acts hout hcan) (local_put hlt)
      · rename_i hcan
        refine .of_endPass hlt hout ?_
        intro im' rest' h
        rw [queue, hq] at h
        cases h
        simpa using hcan

/-- What a restart of `i` comes to. -/
structure Restarted (c c' : Cluster) (i : Nat) : Prop where
  lt : i < c.size
  size : c'.size = c.size
  state_self : c'.state i = .new i (clusterOf c.size)
  state_ne : ∀ j, j ≠ i → c'.state j = c.state j
  trace : c'.trace = c.trace
  pend : ∀ j, c'.pend j = if j = i then [] else c.pend j

theorem restarted_step (h : step c (.restart i) = some c') : Restarted c c' i := by
  simp only [step, Option.ite_none_right_eq_some, Option.some.injEq] at h
  obtain ⟨hlt, rfl⟩ := h
  refine ⟨hlt, rfl, state_setNode c i i _ |>.trans (if_pos rfl),
    fun j hj => state_setNode c i j _ |>.trans (if_neg hj), rfl, ?_⟩
  intro j
  have hqueue := queue_setNode c i j (freshNode i c.size)
  change ((c.net.filter (·.dst ≠ i)).filter (·.dst == j)).map (·.inbound)
    ++ (c.setNode i _).queue j = _
  rw [hqueue, List.filter_filter]
  by_cases h : j = i
  · subst h
    simp [freshNode]
  · have hfilter : c.net.filter (fun p => p.dst == j && decide (p.dst ≠ i))
        = c.net.filter (·.dst == j) := by
      refine List.filter_congr ?_
      intro p _
      by_cases hp : p.dst = j
      · simp [hp, h]
      · simp [hp]
    rw [if_neg h, if_neg h, hfilter]
    rfl

/-- Every step of the cluster is one of the moves. -/
theorem step_moves (hstatic : Static c) (h : step c ev = some c') :
    Moves c ev c' := by
  cases ev with
  | client i fd msg =>
      simp only [step, Option.ite_none_right_eq_some, Option.some.injEq] at h
      obtain ⟨⟨-, -, hmsg⟩, rfl⟩ := h
      refine .of_setNode_queue (l := [⟨.client fd, msg⟩]) rfl rfl ?_
      intro im him
      obtain rfl := List.mem_singleton.mp him
      exact ⟨⟨fd, rfl⟩, hmsg⟩
  | deliver k =>
      simp only [step, Option.bind_eq_bind, Option.bind_eq_some_iff,
        Option.ite_none_right_eq_some, Option.some.injEq] at h
      obtain ⟨p, hp, -, rfl⟩ := h
      exact .of_deliver hp
  | drop k =>
      simp only [step, Option.bind_eq_bind, Option.bind_eq_some_iff, Option.some.injEq] at h
      obtain ⟨p, hp, rfl⟩ := h
      exact .of_drop hp
  | duplicate k =>
      simp only [step, Option.bind_eq_bind, Option.bind_eq_some_iff, Option.some.injEq] at h
      obtain ⟨p, hp, rfl⟩ := h
      exact .of_duplicate hp
  | start i =>
      simp only [step, Option.ite_none_right_eq_some, Option.some.injEq] at h
      obtain ⟨-, rfl⟩ := h
      exact .of_setNode_queue (l := []) rfl (List.append_nil _).symm (by simp)
  | tick i env =>
      simp only [step, Option.ite_none_right_eq_some, Option.some.injEq] at h
      obtain ⟨⟨hlt, hpass⟩, rfl⟩ := h
      exact .of_tick hlt (hstatic.out i) hpass
  | heartbeat i =>
      simp only [step, Option.ite_none_right_eq_some, Option.some.injEq] at h
      obtain ⟨⟨hlt, -⟩, rfl⟩ := h
      by_cases hcond : ((c.state i).isPrimary && (c.state i).status == .normal) = true
      · obtain ⟨hprimary, hst⟩ := Bool.and_eq_true_iff.mp hcond
        have hrep : (c.nodes i).replica.sendCommitMessageIfNeeded
            = (c.nodes i).replica.broadcastToPeers (commitMessage (c.state i)) := if_pos hcond
        refine .heartbeat i (eq_of_beq hst) hprimary
          (local_put_of hlt (by rw [hrep]; rfl) rfl ?_)
        simp only [hrep, broadcastToPeers, emit, hstatic.out i, List.nil_append]
      · have hrep : (c.nodes i).replica.sendCommitMessageIfNeeded = (c.nodes i).replica :=
          if_neg hcond
        rw [hrep]
        exact .of_put_queue rfl (hstatic.out i) (List.Sublist.refl _)
  | timeout i =>
      simp only [step, Option.ite_none_right_eq_some, Option.some.injEq] at h
      obtain ⟨⟨hlt, -⟩, rfl⟩ := h
      by_cases hcond : (!(c.state i).isPrimary && (c.state i).status == .normal) = true
      · exact .of_initiateViewChange hlt (hstatic.out i)
          (eq_of_beq (Bool.and_eq_true_iff.mp hcond).2) rfl (if_pos hcond)
      · have hrep : (c.nodes i).replica.checkPrimaryLiveness = (c.nodes i).replica :=
          if_neg hcond
        rw [hrep]
        exact .of_put_queue rfl (hstatic.out i) (List.Sublist.refl _)
  | restart i =>
      have h := restarted_step h
      exact .restart i rfl h.lt h.size h.state_self h.state_ne h.trace h.pend

/-! ## The configuration along a run -/

theorem step_out (hout : ∀ j, (c.nodes j).replica.out = [])
    (h : step c ev = some c') (j : Nat) : (c'.nodes j).replica.out = [] := by
  have hset : ∀ i n, n.replica.out = [] → ((c.setNode i n).nodes j).replica.out = [] := by
    intro i n hn
    by_cases hj : j = i
    · subst hj; simpa [setNode] using hn
    · simpa [setNode, hj] using hout j
  have hput : ∀ i n, ((c.put i n).nodes j).replica.out = [] := by
    intro i n
    by_cases hj : j = i
    · subst hj; simp [put]
    · simpa [put, hj] using hout j
  cases ev with
  | client i fd msg =>
      simp only [step, Option.ite_none_right_eq_some, Option.some.injEq] at h
      obtain ⟨-, rfl⟩ := h
      exact hset i _ (hout i)
  | deliver k =>
      simp only [step, Option.bind_eq_bind, Option.bind_eq_some_iff,
        Option.ite_none_right_eq_some, Option.some.injEq] at h
      obtain ⟨p, -, -, rfl⟩ := h
      exact hset p.dst ((c.nodes p.dst).enqueueMessage p.inbound) (hout p.dst)
  | drop k | duplicate k =>
      simp only [step, Option.bind_eq_bind, Option.bind_eq_some_iff, Option.some.injEq] at h
      obtain ⟨p, -, rfl⟩ := h
      exact hout j
  | start i =>
      simp only [step, Option.ite_none_right_eq_some, Option.some.injEq] at h
      obtain ⟨-, rfl⟩ := h
      exact hset i _ (hout i)
  | tick i env =>
      simp only [step, Option.ite_none_right_eq_some, Option.some.injEq] at h
      obtain ⟨-, rfl⟩ := h
      exact hput i _
  | heartbeat i | timeout i =>
      simp only [step, Option.ite_none_right_eq_some, Option.some.injEq] at h
      obtain ⟨-, rfl⟩ := h
      exact hput i _
  | restart i =>
      simp only [step, Option.ite_none_right_eq_some, Option.some.injEq] at h
      obtain ⟨-, rfl⟩ := h
      exact hset i (freshNode i c.size) rfl

/-- What a local step does to its replica, it does to every replica, where
doing nothing counts. -/
theorem Local.state_rel {s' : ReplicaState} {q' : List InboundMessage} {effs : List Effect}
    {P : ReplicaState → ReplicaState → Prop} (h : Local c c' i s' q' effs) (hrefl : ∀ s, P s s)
    (hself : P (c.state i) s') (j : Nat) : P (c.state j) (c'.state j) := by
  by_cases hj : j = i
  · subst hj; rw [h.state_self]; exact hself
  · rw [h.state_ne j hj]; exact hrefl _

theorem Moves.size (h : Moves c ev c') : c'.size = c.size := by
  cases h with
  | quiet hsize => exact hsize
  | duplicate _ _ hsize => exact hsize
  | act _ _ _ _ _ _ _ _ _ _ hlocal => exact hlocal.size
  | enterView _ _ _ _ hlocal => exact hlocal.size
  | enterRecovery _ _ _ _ _ _ _ _ _ _ hlocal => exact hlocal.size
  | heartbeat _ _ _ hlocal => exact hlocal.size
  | restart _ _ _ hsize => exact hsize

/-- What a step may do to the state of replica `j`. -/
inductive Changes (c : Cluster) (ev : Event) (j : Nat) : ReplicaState → Prop where
  | same : Changes c ev j (c.state j)
  | act (env : Env) (im : InboundMessage) (rest : List InboundMessage) (s' : ReplicaState)
      (effs : List Effect) (hlt : j < c.size) (hev : ev = .tick j env)
      (hqueue : c.queue j = im :: rest) (hstale : Node.isStale (c.state j) im.message = false)
      (hacts : Acts env (c.state j) im s' effs) : Changes c ev j s'
  | enterView (hlt : j < c.size) (hst : (c.state j).status = .normal) :
      Changes c ev j ((c.state j).enterNewView (u32 ((c.state j).view + 1)))
  | enterRecovery (nonce : UInt128) (hst : (c.state j).status = .normal) :
      Changes c ev j { c.state j with
        status := .recovery, recoveryNonce := nonce, recoveryResponses := [] }
  | restart (hev : ev = .restart j) : Changes c ev j (.new j (clusterOf c.size))

/-- A local step changes its replica and no other. -/
theorem Local.changes {s' : ReplicaState} {q' : List InboundMessage} {effs : List Effect}
    (h : Local c c' i s' q' effs) (hself : Changes c ev i s') (j : Nat) :
    Changes c ev j (c'.state j) := by
  by_cases hj : j = i
  · subst hj
    rw [h.state_self]
    exact hself
  · rw [h.state_ne j hj]
    exact .same

theorem Moves.changes (h : Moves c ev c') (j : Nat) : Changes c ev j (c'.state j) := by
  cases h with
  | quiet _ hstate => rw [hstate]; exact .same
  | duplicate _ _ _ hstate => rw [hstate]; exact .same
  | act i env hev im rest s' effs hqueue hstale hacts hlocal =>
      exact hlocal.changes (.act env im rest s' effs hlocal.lt hev hqueue hstale hacts) j
  | enterView i s' hst hs' hlocal => exact hlocal.changes (hs' ▸ .enterView hlocal.lt hst) j
  | enterRecovery i stuck rest nonce s' hst hqueue hcan haction hs' hlocal =>
      exact hlocal.changes (hs' ▸ .enterRecovery nonce hst) j
  | heartbeat i hst hprimary hlocal => exact hlocal.changes .same j
  | restart i hev hlt hsize hself hne =>
      by_cases hj : j = i
      · subst hj
        rw [hself]
        exact .restart hev
      · rw [hne j hj]
        exact .same

theorem Static.sameConfig (hstatic : Static c) (i : Nat) :
    SameConfig (.new i (clusterOf c.size)) (c.state i) where
  id := hstatic.id i
  f := by rw [hstatic.f i, ReplicaState.new, length_clusterOf]
  config := hstatic.config i

theorem Moves.sameConfig (hstatic : Static c) (h : Moves c ev c') (j : Nat) :
    SameConfig (c.state j) (c'.state j) := by
  have hchanges := h.changes j
  generalize c'.state j = s' at hchanges ⊢
  cases hchanges with
  | same => exact .rfl' _
  | act _ _ _ _ _ _ _ _ _ hacts => exact hacts.sameConfig
  | enterView => exact ⟨rfl, rfl, rfl⟩
  | enterRecovery => exact ⟨rfl, rfl, rfl⟩
  | restart =>
      have hsame := hstatic.sameConfig j
      exact ⟨hsame.id.symm, hsame.f.symm, hsame.config.symm⟩

theorem Moves.static (hstatic : Static c) (h : Moves c ev c')
    (hout : ∀ j, (c'.nodes j).replica.out = []) : Static c' := by
  have hsame := h.sameConfig hstatic
  refine ⟨?_, ?_, ?_, hout⟩
  · intro i
    rw [(hsame i).id, hstatic.id]
  · intro i
    rw [(hsame i).f, hstatic.f, h.size]
  · intro i
    rw [(hsame i).config, hstatic.config, h.size]

theorem static_step (hstatic : Static c) (h : step c ev = some c') : Static c' :=
  (step_moves hstatic h).static hstatic (step_out hstatic.out h)

/-- Whatever happens, the configuration stays what it was at start-up. -/
theorem static_run {ok : Cluster → Event → Cluster → Prop} {n : Nat} (run : Run ok (init n) c) :
    Static c :=
  run.invariant (static_init n) fun _ _ _ _ hstep _ h => static_step h hstep

theorem size_run {ok : Cluster → Event → Cluster → Prop} {n : Nat} (run : Run ok (init n) c) :
    c.size = n := by
  refine run.invariant (I := fun c => c.size = n) rfl ?_
  intro u ev v run hstep _ hu
  rw [(step_moves (static_run run) hstep).size, hu]

theorem Sent.mono (hsub : c.trace ⊆ c'.trace) {j : Nat} {m : VsrMessage} (h : c.Sent j m) :
    c'.Sent j m := by
  obtain ⟨eff, heff, hm⟩ := h
  exact ⟨eff, hsub heff, hm⟩

theorem sent_congr (htrace : c'.trace = c.trace) {j : Nat} {m : VsrMessage} :
    c'.Sent j m ↔ c.Sent j m := by
  rw [Sent, Sent, htrace]

/-- What is on record after a local step was there before or is its own. -/
theorem Local.mem_trace {s' : ReplicaState} {q' : List InboundMessage} {effs : List Effect}
    (h : Local c c' i s' q' effs) {j : Nat} {eff : Effect} :
    (j, eff) ∈ c'.trace ↔ (j, eff) ∈ c.trace ∨ j = i ∧ eff ∈ effs := by
  rw [h.trace, List.mem_append, List.mem_map]
  refine or_congr_right ⟨?_, ?_⟩
  · rintro ⟨eff', heff, heq⟩
    cases heq
    exact ⟨rfl, heff⟩
  · rintro ⟨rfl, heff⟩
    exact ⟨eff, heff, rfl⟩

theorem Local.sent {s' : ReplicaState} {q' : List InboundMessage} {effs : List Effect}
    (h : Local c c' i s' q' effs) {j : Nat} {m : VsrMessage} :
    c'.Sent j m ↔ c.Sent j m ∨ j = i ∧ ∃ eff ∈ effs, eff.message? = some m := by
  constructor
  · rintro ⟨eff, heff, hm⟩
    rcases h.mem_trace.mp heff with heff | ⟨rfl, heff⟩
    · exact Or.inl ⟨eff, heff, hm⟩
    · exact Or.inr ⟨rfl, eff, heff, hm⟩
  · rintro (⟨eff, heff, hm⟩ | ⟨rfl, eff, heff, hm⟩)
    · exact ⟨eff, h.mem_trace.mpr (Or.inl heff), hm⟩
    · exact ⟨eff, h.mem_trace.mpr (Or.inr ⟨rfl, heff⟩), hm⟩

theorem Local.trace_subset {s' : ReplicaState} {q' : List InboundMessage} {effs : List Effect}
    (h : Local c c' i s' q' effs) : c.trace ⊆ c'.trace :=
  h.trace ▸ List.subset_append_left _ _

theorem Moves.trace_subset (h : Moves c ev c') : c.trace ⊆ c'.trace := by
  cases h with
  | quiet _ _ htrace => rw [htrace]; exact List.Subset.refl _
  | duplicate _ _ _ _ htrace => rw [htrace]; exact List.Subset.refl _
  | act _ _ _ _ _ _ _ _ _ _ h => exact h.trace_subset
  | enterView _ _ _ _ h => exact h.trace_subset
  | enterRecovery _ _ _ _ _ _ _ _ _ _ h => exact h.trace_subset
  | heartbeat _ _ _ h => exact h.trace_subset
  | restart _ _ _ _ _ _ htrace => rw [htrace]; exact List.Subset.refl _

/-- What has been done stays on record. -/
theorem trace_subset_run {ok : Cluster → Event → Cluster → Prop} (hstatic : Static c)
    (run : Run ok c c') : c.trace ⊆ c'.trace := by
  have h : Static c' ∧ c.trace ⊆ c'.trace := by
    refine run.invariant (I := fun c' => Static c' ∧ c.trace ⊆ c'.trace)
      ⟨hstatic, List.Subset.refl _⟩ ?_
    intro u ev v _ hstep _ h
    exact ⟨static_step h.1 hstep, List.Subset.trans h.2 (step_moves h.1 hstep).trace_subset⟩
  exact h.2

section

variable (hstatic : Static c)

include hstatic

theorem Static.mem_peers {j : Nat} : j ∈ peers (c.state i) ↔ j < c.size ∧ j ≠ i := by
  rw [peers, hstatic.id, hstatic.config, List.mem_filter, Std.ExtTreeMap.mem_keys,
    mem_clusterConfig_new, decide_eq_true_iff]

theorem Static.nodup_peers : (peers (c.state i)).Nodup := by
  rw [peers, hstatic.config]
  exact ((keys_clusterConfig_new c.size i).nodup_iff.mpr List.nodup_range).filter _

theorem Static.isPrimary (hodd : c.size = 2 * ((c.size - 1) / 2) + 1) :
    (c.state i).isPrimary = decide (i = (c.state i).view % c.size) := by
  rw [(hstatic.sameConfig i).isPrimary, length_clusterOf, ← hodd]

theorem Static.getPrimaryIdForView (hpos : 0 < c.size) (v : Nat) :
    (c.state i).getPrimaryIdForView v = some (v % c.size) := by
  have hlen : 0 < (clusterOf c.size).length := by simpa using hpos
  rw [(hstatic.sameConfig i).getPrimaryIdForView (nodup_ids_clusterOf c.size) hlen,
    length_clusterOf]

end

/-! ## What a local step leaves pending -/

section

variable {s' : ReplicaState} {q' : List InboundMessage} {effs : List Effect}

theorem Local.pend_eq (h : Local c c' i s' q' effs) (j : Nat) :
    c'.pend j
      = c.netFor j ++ mail i (peers s') effs j ++ (if j = i then q' else c.queue j) := by
  have hqueue : c'.queue j = if j = i then q' else c.queue j := by
    split
    · rename_i hj; rw [hj, h.queue_self]
    · rename_i hj; rw [h.queue_ne j hj]
  rw [pend, hqueue, netFor, h.net, List.filter_append, List.map_append]
  rfl

/-- Delivered or not, what is pending now was pending before or is new. -/
theorem Local.mem_pend (h : Local c c' i s' q' effs) (hsub : q' ⊆ c.queue i) {j : Nat}
    {im : InboundMessage} (him : im ∈ c'.pend j) :
    im ∈ c.pend j ∨ im ∈ mail i (peers s') effs j := by
  rw [h.pend_eq, List.append_assoc, List.mem_append, List.mem_append] at him
  rcases him with him | him | him
  · exact Or.inl (List.mem_append_left _ him)
  · exact Or.inr him
  · refine Or.inl (List.mem_append_right _ ?_)
    split at him
    · rename_i hj; exact hj ▸ hsub him
    · exact him

/-- The count of a kind of message at `j`, when `i` has taken `done` off the
front of its queue. -/
theorem Local.pending_eq (h : Local c c' i s' q' effs) (done : List InboundMessage)
    (hqueue : c.queue i = done ++ q') (kind : VsrMessage → Bool) (j : Nat) :
    c'.pending j kind + (if j = i then done.countP (kind ·.message) else 0)
      = c.pending j kind + mailed i (peers s') effs j kind := by
  rw [pending, pending, mailed, h.pend_eq, pend]
  by_cases hj : j = i
  · subst hj
    rw [if_pos rfl, if_pos rfl, hqueue]
    simp only [List.countP_append]
    omega
  · rw [if_neg hj, if_neg hj]
    simp only [List.countP_append]
    omega

theorem mem_mail {src : Nat} {peers : List Nat} {j : Nat} {im : InboundMessage}
    (h : im ∈ mail src peers effs j) :
    ∃ eff ∈ effs, eff.message? = some im.message ∧ ⟨j, im⟩ ∈ eff.packets src peers := by
  obtain ⟨p, hfilter, rfl⟩ := List.mem_map.mp h
  obtain ⟨hflat, hdst⟩ := List.mem_filter.mp hfilter
  obtain ⟨eff, heff, hp⟩ := List.mem_flatMap.mp hflat
  obtain rfl : p.dst = j := by simpa using hdst
  refine ⟨eff, heff, ?_, hp⟩
  cases eff with
  | toPeer id msg =>
      simp only [Effect.packets] at hp
      split at hp
      · rw [List.mem_singleton.mp hp]; rfl
      · cases hp
  | broadcast msg =>
      obtain ⟨id, -, rfl⟩ := List.mem_map.mp hp
      rfl
  | toConnection conn msg =>
      cases conn with
      | peer id => rw [List.mem_singleton.mp hp]; rfl
      | null => cases hp
      | client fd => cases hp
  | executed => cases hp

theorem mailed_eq_zero {src : Nat} {peers : List Nat} {kind : VsrMessage → Bool}
    (h : ∀ eff ∈ effs, ∀ m, eff.message? = some m → kind m = false) (j : Nat) :
    mailed src peers effs j kind = 0 :=
  List.countP_eq_zero.mpr fun im him => by
    obtain ⟨eff, heff, hmsg, -⟩ := mem_mail him
    simp [h eff heff _ hmsg]

/-- A broadcast puts one copy on each link. -/
theorem mailed_broadcast {src : Nat} {peers : List Nat} (hnodup : peers.Nodup)
    (msg : VsrMessage) (j : Nat) (kind : VsrMessage → Bool) :
    mailed src peers [.broadcast msg] j kind
      = if j ∈ peers ∧ kind msg = true then 1 else 0 := by
  have hfilter : peers.filter (· == j) = if j ∈ peers then [j] else [] := by
    rw [List.filter_beq]
    split
    · rename_i h; rw [hnodup.count, if_pos h]; rfl
    · rename_i h; rw [List.count_eq_zero.mpr h]; rfl
  simp only [mailed, mail, List.flatMap_cons, List.flatMap_nil, List.append_nil, Effect.packets,
    List.filter_map, List.map_map, Function.comp_def]
  rw [hfilter]
  by_cases hj : j ∈ peers
  · simp [hj]
  · simp [hj]

theorem mailed_toPeer (src : Nat) (peers : List Nat) (id : Nat) (msg : VsrMessage) (j : Nat)
    (kind : VsrMessage → Bool) :
    mailed src peers [.toPeer id msg] j kind
      = if id ∈ peers ∧ j = id ∧ kind msg = true then 1 else 0 := by
  by_cases h : id ∈ peers
  · by_cases hj : j = id
    · subst hj; simp [mailed, mail, Effect.packets, h]
    · have hj' : ¬id = j := fun e => hj e.symm
      simp [mailed, mail, Effect.packets, h, hj, hj']
  · simp [mailed, mail, Effect.packets, h]

end

end Cluster

end VsrKv
