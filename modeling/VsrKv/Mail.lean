import VsrKv.ClusterStep

/-!
# What is on its way has been sent

Invariants of runs are often about messages, and a message passes
through three places: the trace records that it was sent, the network
and the queues hold it, and a replica may store it. `Emits` lists what a
replica can send in a step. An invariant that has `Accounted` among its
parts need only speak about sent messages to know about those on their
way: whatever is pending comes from a client or is in the trace.
-/

namespace VsrKv

open Replica

namespace Cluster

variable {c c' : Cluster} {ev : Event}

/-- What replica `i` may do next that can be seen from outside. -/
inductive Emits (c : Cluster) (i : Nat) : Effect → Prop where
  | act (env : Env) (im : InboundMessage) (rest : List InboundMessage) (s' : ReplicaState)
      (effs : List Effect) (hlt : i < c.size) (hqueue : c.queue i = im :: rest)
      (hstale : Node.isStale (c.state i) im.message = false)
      (hacts : Acts env (c.state i) im s' effs) (eff : Effect) (heff : eff ∈ effs) : Emits c i eff
  | startViewChange (hlt : i < c.size) (hst : (c.state i).status = .normal) :
      Emits c i (.broadcast
        (startViewChangeMessage ((c.state i).enterNewView (u32 ((c.state i).view + 1)))))
  | recovery (nonce : UInt128) (hlt : i < c.size) :
      Emits c i (.broadcast (recoveryMessage { c.state i with
        status := .recovery, recoveryNonce := nonce, recoveryResponses := [] }))
  | commit (hlt : i < c.size) (hst : (c.state i).status = .normal)
      (hprimary : (c.state i).isPrimary = true) :
      Emits c i (.broadcast (commitMessage (c.state i)))

theorem Moves.emits (h : Moves c ev c') {i : Nat} {eff : Effect} (hmem : (i, eff) ∈ c'.trace) :
    (i, eff) ∈ c.trace ∨ Emits c i eff := by
  have hlocal : ∀ {k : Nat} {s' : ReplicaState} {q' : List InboundMessage} {effs : List Effect},
      Local c c' k s' q' effs → (∀ eff ∈ effs, Emits c k eff) →
      (i, eff) ∈ c.trace ∨ Emits c i eff := by
    intro k s' q' effs hlocal hall
    rcases hlocal.mem_trace.mp hmem with hmem | ⟨rfl, heff⟩
    · exact Or.inl hmem
    · exact Or.inr (hall eff heff)
  cases h with
  | quiet _ _ htrace => exact Or.inl (htrace ▸ hmem)
  | duplicate _ _ _ _ htrace => exact Or.inl (htrace ▸ hmem)
  | act k env hev im rest s' effs hqueue hstale hacts h =>
      exact hlocal h fun eff heff => .act env im rest s' effs h.lt hqueue hstale hacts eff heff
  | enterView k s' hst hs' h =>
      refine hlocal h ?_
      intro eff heff
      rw [List.mem_singleton.mp heff, hs']
      exact .startViewChange h.lt hst
  | enterRecovery k stuck rest nonce s' hst hqueue hcan haction hs' h =>
      refine hlocal h ?_
      intro eff heff
      rw [List.mem_singleton.mp heff, hs']
      exact .recovery nonce h.lt
  | heartbeat k hst hprimary h =>
      refine hlocal h ?_
      intro eff heff
      rw [List.mem_singleton.mp heff]
      exact .commit h.lt hst hprimary
  | restart _ _ _ _ _ _ htrace => exact Or.inl (htrace ▸ hmem)

theorem Moves.sent (h : Moves c ev c') {i : Nat} {m : VsrMessage} (hsent : c'.Sent i m) :
    c.Sent i m ∨ ∃ eff, Emits c i eff ∧ eff.message? = some m := by
  obtain ⟨eff, hmem, hm⟩ := hsent
  rcases h.emits hmem with hmem | hemits
  · exact Or.inl ⟨eff, hmem, hm⟩
  · exact Or.inr ⟨eff, hemits, hm⟩

/-- What is pending was pending, has come from a client, or is sent in this
very step. -/
theorem Moves.mem_pend (h : Moves c ev c') {j : Nat} {im : InboundMessage}
    (him : im ∈ c'.pend j) :
    im ∈ c.pend j ∨ isClientMessage im.message = true
      ∨ ∃ i eff, (i, eff) ∈ c'.trace ∧ eff.message? = some im.message := by
  have hlocal : ∀ {k : Nat} {s' : ReplicaState} {q' : List InboundMessage} {effs : List Effect},
      Local c c' k s' q' effs → q' ⊆ c.queue k →
      im ∈ c.pend j ∨ isClientMessage im.message = true
        ∨ ∃ i eff, (i, eff) ∈ c'.trace ∧ eff.message? = some im.message := by
    intro k s' q' effs hlocal hsub
    rcases hlocal.mem_pend hsub him with him | him
    · exact Or.inl him
    · obtain ⟨eff, heff, hm, -⟩ := mem_mail him
      exact Or.inr (Or.inr ⟨k, hlocal.sent.mpr (Or.inr ⟨rfl, eff, heff, hm⟩)⟩)
  cases h with
  | quiet _ _ _ hmem =>
      rcases hmem j im him with him | ⟨-, hclient⟩
      · exact Or.inl him
      · exact Or.inr (Or.inl hclient)
  | duplicate _ _ _ _ _ hmem => exact Or.inl (hmem j im him)
  | act k env hev im' rest s' effs hqueue hstale hacts h =>
      exact hlocal h (by rw [hqueue]; exact List.subset_cons_self _ _)
  | enterView k s' hst hs' h => exact hlocal h (List.Subset.refl _)
  | enterRecovery k stuck rest nonce s' hst hqueue hcan haction hs' h =>
      exact hlocal h (List.nil_subset _)
  | heartbeat k hst hprimary h => exact hlocal h (List.Subset.refl _)
  | restart k _ _ _ _ _ _ hpend =>
      rw [hpend] at him
      split at him
      · cases him
      · exact Or.inl him

/-- Every message on its way comes from a client or has been sent. -/
def Accounted (c : Cluster) : Prop :=
  ∀ j, ∀ im ∈ c.pend j, isClientMessage im.message = true ∨ ∃ k, c.Sent k im.message

theorem accounted_init (n : Nat) : Accounted (init n) := by
  intro j im him
  simp [pend, netFor, queue, init, freshNode] at him

theorem Accounted.step (hmail : Accounted c) (h : Moves c ev c') : Accounted c' := by
  intro j im him
  rcases h.mem_pend him with him | hclient | ⟨i, eff, hmem, hm⟩
  · rcases hmail j im him with hclient | ⟨k, hsent⟩
    · exact Or.inl hclient
    · exact Or.inr ⟨k, hsent.mono h.trace_subset⟩
  · exact Or.inl hclient
  · exact Or.inr ⟨i, eff, hmem, hm⟩

end Cluster

end VsrKv
