import Mathlib.Data.Prod.Lex
import VsrKv.Counting
import VsrKv.Quorums
import VsrKv.Rebuilding

/-!
# What a recovery gathers

A recovering replica keeps the responses it gets in a list and looks at
nothing but their nonce. That the list is good for anything follows from
where responses come from. A response under the replica's nonce answers
a request under that nonce, the nonce is new when the recovery begins,
and so the response was sent in the course of the recovery, by a replica
in normal operation, out of the state it had then (`Answered`). No peer
answers twice, since it is asked once (`Counting`), and a response from
an older view is dropped by the queue loop before it gets to the handler.

So a recovery ends with the best of `f + 1` fresh responses from `f + 1`
other replicas (`recovery_adopts_fresh_best`). Nothing is assumed about
views or op numbers, which may wrap.
-/

namespace VsrKv

open Replica TransitionSystem
open Event (process receive request)

/-! ## A replica in recovery -/

/-- The responses `handle_recovery_response` chooses from, if handling `msg`
completes the recovery. -/
def completingResponses? (s : ReplicaState) (msg : VsrMessage) : Option (List VsrMessage) :=
  if msg.header.command = .recoveryResponse then
    match RecoveryResponsePayload.deserialize msg.payload {} with
    | (false, _) => none
    | (true, payload) =>
        if payload.nonce = s.recoveryNonce
            ∧ s.faultToleranceF + 1 ≤ (s.recoveryResponses ++ [msg]).length then
          some (s.recoveryResponses ++ [msg])
        else none
  else none

theorem completingResponses?_eq_some {s : ReplicaState} {msg : VsrMessage}
    {used : List VsrMessage} (h : completingResponses? s msg = some used) :
    msg.header.command = .recoveryResponse ∧ used = s.recoveryResponses ++ [msg]
      ∧ s.faultToleranceF + 1 ≤ used.length
      ∧ ∃ payload, RecoveryResponsePayload.deserialize msg.payload {} = (true, payload)
        ∧ payload.nonce = s.recoveryNonce := by
  unfold completingResponses? at h
  split at h
  · rename_i hcmd
    split at h
    · cases h
    · rename_i payload hpayload
      split at h
      · rename_i hcond
        obtain rfl := Option.some.inj h
        exact ⟨hcmd, rfl, hcond.2, payload, hpayload, hcond.1⟩
      · cases h
  · cases h

section

variable {env : Env} {s s' : ReplicaState} {im : InboundMessage} {effs : List Effect}

/-- A replica that is in recovery after handling a message was so before, and
has gathered a response to its request if anything. -/
theorem Acts.recovering (h : Acts env s im s' effs) (hstale : Node.isStale s im.message = false)
    (hst' : s'.status = .recovery) :
    s.status = .recovery ∧ (s' = s ∨ s' = { s with
        recoveryResponses := s.recoveryResponses ++ [im.message] }
      ∧ isRecoveryResponse s.recoveryNonce im.message.header.replica im.message = true
      ∧ s.view ≤ im.message.header.view) := by
  -- every other way to handle a message begins or ends in another status
  have hother : s.status ≠ .recovery → s'.status = s.status → False := fun hne heq =>
    hne (heq.symm.trans hst')
  cases h with
  | ignore => exact ⟨hst', Or.inl rfl⟩
  | pong => exact ⟨hst', Or.inl rfl⟩
  | gather payload hcmd hst hpayload hnonce =>
      refine ⟨hst, Or.inr ⟨rfl, ?_, ?_⟩⟩
      · simp [isRecoveryResponse, hcmd, hpayload, hnonce]
      · simpa [Node.isStale, hcmd] using hstale
  | old _ hst => exact (hother (by simp [hst]) rfl).elim
  | propose _ hst => exact (hother (by simp [hst]) rfl).elim
  | accept _ _ _ hst _ _ _ hexec =>
      obtain ⟨n, t, m, rfl⟩ := hexec.state
      exact (hother (by simp [hst]) rfl).elim
  | acknowledge _ _ _ _ hst _ _ _ hexec =>
      obtain ⟨n, t, m, rfl⟩ := hexec.state
      exact (hother (by simp [hst]) rfl).elim
  | learn _ _ _ hst _ _ hexec =>
      obtain ⟨n, t, m, rfl⟩ := hexec.state
      exact (hother (by simp [hst]) rfl).elim
  | join _ _ hst => exact (hother (by simp [hst]) rfl).elim
  | vote _ _ _ hst => exact (hother (by simp [hst]) rfl).elim
  | discard _ _ hst => exact (hother (by simp [hst]) rfl).elim
  | collect s₁ d hcollect =>
      have hst := hcollect.status
      cases hcollect <;> exact (hother (by simp [hst]) rfl).elim
  | startView _ _ _ _ _ _ _ _ hexec =>
      obtain ⟨n, t, m, rfl⟩ := hexec.state
      cases hst'
  | adopt _ _ _ _ _ _ _ _ hexec =>
      obtain ⟨n, t, m, rfl⟩ := hexec.state
      cases hst'
  | respond _ _ hst => exact (hother (by simp [hst]) rfl).elim
  | recover _ _ _ _ _ _ _ _ _ _ _ hexec =>
      obtain ⟨n, t, m, rfl⟩ := hexec.state
      cases hst'

/-- Responses are sent one at a time, by a replica in normal operation, and
carry its state. -/
theorem Acts.responds (h : Acts env s im s' effs) :
    (∀ eff ∈ effs, ∀ m, eff.message? = some m → m.header.command ≠ .recoveryResponse)
      ∨ s.status = .normal ∧ s' = s
        ∧ ∃ p x, effs = [.toPeer p (recoveryResponseMessage s x)] := by
  have hexecuted : ∀ {s₁ s₂ : ReplicaState} {effs : List Effect}, Executed s₁ s₂ effs →
      ∀ eff ∈ effs, ∀ m, eff.message? = some m → m.header.command ≠ .recoveryResponse :=
    fun hexec eff heff m hm => (UncountedAll.of_executed hexec eff heff m hm).2.2.2
  cases h with
  | ignore => exact Or.inl fun eff heff => by cases heff
  | pong msg _ hmsg => exact Or.inl (forall_message_singleton rfl (by simp [hmsg]))
  | old _ _ _ effs heffs =>
      refine Or.inl fun eff heff m hm => ?_
      rw [(heffs eff heff).2] at hm
      cases hm
      simp [cachedReply]
  | propose => exact Or.inl (forall_message_singleton rfl (by simp [prepareMessage]))
  | accept _ effs _ _ _ _ _ hexec =>
      refine Or.inl fun eff heff m hm => ?_
      rcases List.mem_cons.mp heff with rfl | heff
      · cases hm
        simp [prepareOkMessage]
      · exact hexecuted hexec eff heff m hm
  | acknowledge _ _ _ _ _ _ _ _ hexec => exact Or.inl (hexecuted hexec)
  | learn _ _ _ _ _ _ hexec => exact Or.inl (hexecuted hexec)
  | vote => exact Or.inl (forall_message_singleton rfl (by simp [doViewChangeMessage]))
  | startView _ _ _ _ _ _ _ effs hexec =>
      refine Or.inl fun eff heff m hm => ?_
      rcases List.mem_cons.mp heff with rfl | heff
      · cases hm
        simp [startViewMessage]
      · exact hexecuted hexec eff heff m hm
  | adopt _ _ effs _ _ _ _ _ hexec =>
      refine Or.inl fun eff heff m hm => ?_
      rcases List.mem_append.mp heff with heff | heff
      · exact hexecuted hexec eff heff m hm
      · obtain ⟨n, -, rfl⟩ := List.mem_map.mp heff
        cases hm
        simp [prepareOkMessage]
  | respond request _ hst => exact Or.inr ⟨hst, rfl, _, request.nonce, rfl⟩
  | recover _ _ _ _ _ _ _ _ _ _ _ hexec => exact Or.inl (hexecuted hexec)
  | _ => exact Or.inl fun eff heff => by cases heff

/-- Only responses add to the responses. -/
theorem Acts.keepsResponses (h : Acts env s im s' effs)
    (hcmd : im.message.header.command ≠ .recoveryResponse) :
    s'.recoveryResponses = s.recoveryResponses := by
  cases h with
  | accept _ _ _ _ _ _ _ hexec =>
      obtain ⟨n, t, m, rfl⟩ := hexec.state
      rfl
  | acknowledge _ _ _ _ _ _ _ _ hexec =>
      obtain ⟨n, t, m, rfl⟩ := hexec.state
      rfl
  | learn _ _ _ _ _ _ hexec =>
      obtain ⟨n, t, m, rfl⟩ := hexec.state
      rfl
  | collect s₁ d hcollect => cases hcollect <;> rfl
  | startView s₁ d hcollect _ _ _ _ _ hexec =>
      obtain ⟨n, t, m, rfl⟩ := hexec.state
      cases hcollect <;> rfl
  | adopt _ _ _ _ _ _ _ _ hexec =>
      obtain ⟨n, t, m, rfl⟩ := hexec.state
      rfl
  | gather _ hcmd' => exact absurd hcmd' hcmd
  | recover _ hcmd' => exact absurd hcmd' hcmd
  | _ => rfl

end

/-- The best response gives everything but what execution adds to it. -/
theorem handleRecoveryResponse_adopted {r : Replica} {im : InboundMessage}
    {payload : RecoveryResponsePayload}
    (hpayload : RecoveryResponsePayload.deserialize im.message.payload {} = (true, payload))
    (hnonce : payload.nonce = r.state.recoveryNonce)
    (hquorum : r.state.faultToleranceF + 1
      ≤ (r.state.recoveryResponses ++ [im.message]).length) :
    (r.handleRecoveryResponse im).state.status = .normal
      ∧ (r.handleRecoveryResponse im).state.view = (bestResponse r.state im.message).header.view
      ∧ (r.handleRecoveryResponse im).state.op = (bestResponse r.state im.message).header.op
      ∧ (r.handleRecoveryResponse im).state.commit
        = (bestResponse r.state im.message).header.commit
      ∧ (r.handleRecoveryResponse im).state.log = recoveredLog r.state im.message := by
  obtain ⟨effs, -, hexec⟩ := executeCommitedOps_spec
    { r with state := adoptResponse r.state (bestResponse r.state im.message) }
  obtain ⟨n, t, m, hstate⟩ := hexec.state
  rw [handleRecoveryResponse_state hpayload hnonce hquorum, hstate]
  exact ⟨rfl, rfl, rfl, rfl, rfl⟩

/-- Fewer responses than complete a recovery. -/
def Gathering (s : ReplicaState) : Prop := s.recoveryResponses.length ≤ s.faultToleranceF

section

variable {r : Replica} {env : Env}

theorem handleRecoveryResponse_gathering (h : Gathering r.state) (im : InboundMessage) :
    Gathering (r.handleRecoveryResponse im).state := by
  unfold handleRecoveryResponse
  simp only []
  split
  · exact h
  · split
    · exact h
    · split
      · exact h
      · split
        · exact Nat.zero_le _
        · rename_i first rest _ hfew
          show (first :: rest).length ≤ r.state.faultToleranceF
          rw [List.length_cons]
          omega

theorem dispatch_gathering (h : Gathering r.state) (hout : r.out = []) {im : InboundMessage}
    (hcan : r.canProcess im = true) : Gathering (Node.dispatch env r im).state := by
  by_cases hcmd : im.message.header.command = .recoveryResponse
  · simp only [Node.dispatch, hcmd]
    exact handleRecoveryResponse_gathering h im
  · have hacts : Acts env r.state im _ _ := dispatch_acts hout hcan
    rw [Gathering, hacts.keepsResponses hcmd, hacts.sameConfig.f]
    exact h

theorem tick_gathering {n : Node} (h : Gathering n.replica.state) (hout : n.replica.out = []) :
    Gathering (n.tick env).replica.state := by
  have hend : Gathering (n.reactToStuck env).replica.state := by
    unfold Node.reactToStuck
    split
    · exact h
    · split
      · rename_i hst
        split
        · show Gathering (n.replica.initiateRecovery env).state
          rw [initiateRecovery, if_neg (by simp [hst])]
          exact Nat.zero_le _
        · exact h
        · exact h
      · exact h
  unfold Node.tick
  split
  · exact h
  · split
    · exact hend
    · split
      · exact h
      · split
        · rename_i hcan
          exact dispatch_gathering h hout hcan
        · exact hend

end

namespace Cluster

variable {c c' : Cluster} {ev : Event}

theorem gathering_step (hstatic : Static c) (hstep : c.step ev = some c')
    (h : ∀ j, Gathering (c.state j)) (j : Nat) : Gathering (c'.state j) := by
  have hchanges := (step_moves hstatic hstep).changes j
  generalize hs' : c'.state j = s' at hchanges ⊢
  cases hchanges with
  | same => exact h j
  | act env im rest _ effs hlt hev hqueue hstale hacts =>
      subst hev
      simp only [step, Option.ite_none_right_eq_some, Option.some.injEq] at hstep
      obtain ⟨-, rfl⟩ := hstep
      rw [← hs']
      have hticked : Gathering ((c.nodes j).tick env).replica.state :=
        tick_gathering (h j) (hstatic.out j)
      simpa [put, state] using hticked
  | enterView => exact h j
  | enterRecovery => exact Nat.zero_le _
  | restart => exact Nat.zero_le _

/-! ## Where responses come from -/

/-- A step of a run in which no message is delivered twice, no replica
restarts and no nonce is used twice. -/
structure FreshRecoveries (c : Cluster) (ev : Event) (c' : Cluster) : Prop where
  once : ev.isDuplicate = false
  restart : ev.restarted? = none
  nonces : c.FreshNonces c'

instance (c : Cluster) (ev : Event) (c' : Cluster) : Decidable (FreshRecoveries c ev c') :=
  decidable_of_iff (ev.isDuplicate = false ∧ ev.restarted? = none ∧ c.FreshNonces c')
    ⟨fun ⟨h₁, h₂, h₃⟩ => ⟨h₁, h₂, h₃⟩, fun h => ⟨h.once, h.restart, h.nonces⟩⟩

/-- Replica `i` is in the recovery it has begun under the nonce `x`. -/
def InRecovery (i : Nat) (x : UInt128) (c : Cluster) : Prop :=
  (c.state i).status = .recovery ∧ (c.state i).recoveryNonce = x

/-- The replica named by `m` has sent `m` to `i`, out of the state it had then and
in normal operation, at a moment since which `i` has been in the recovery under
the nonce `x`. -/
def Answered (n i : Nat) (x : UInt128) (m : VsrMessage) (c : Cluster) : Prop :=
  ∃ c₁ ev c₂, Run FreshRecoveries (init n) c₁ ∧ InRecovery i x c₁
    ∧ c₁.step ev = some c₂ ∧ InRecovery i x c₂
    ∧ Run (fun c ev c' => FreshRecoveries c ev c' ∧ InRecovery i x c') c₂ c
    ∧ m.header.replica < n ∧ (c₁.state m.header.replica).status = .normal
    ∧ m = recoveryResponseMessage (c₁.state m.header.replica) x
    ∧ c₂.trace = c₁.trace ++ [(m.header.replica, .toPeer i m)]

theorem Answered.step {n i : Nat} {x : UInt128} {m : VsrMessage} (h : Answered n i x m c)
    (hstep : c.step ev = some c') (hok : FreshRecoveries c ev c') (hin : InRecovery i x c') :
    Answered n i x m c' := by
  obtain ⟨c₁, ev₁, c₂, run, hin₁, hstep₁, hin₂, run₂, hsent⟩ := h
  exact ⟨c₁, ev₁, c₂, run, hin₁, hstep₁, hin₂, run₂.tail hstep ⟨hok, hin⟩, hsent⟩

/-- A response that has not been pending before is sent in this step. -/
theorem Moves.response_sent (hmoves : Moves c ev c') (hstatic : Static c) {j : Nat}
    {im : InboundMessage} (him : im ∈ c'.pend j)
    (hcmd : im.message.header.command = .recoveryResponse) :
    im ∈ c.pend j ∨ ∃ q x, q < c.size ∧ q ≠ j ∧ (c.state q).status = .normal
      ∧ im.message = recoveryResponseMessage (c.state q) x
      ∧ c'.trace = c.trace ++ [(q, .toPeer j im.message)] ∧ c'.state j = c.state j := by
  have hlocal : ∀ {k : Nat} {s' : ReplicaState} {q' : List InboundMessage} {effs : List Effect},
      Local c c' k s' q' effs → q' ⊆ c.queue k →
      (∀ eff ∈ effs, ∀ m, eff.message? = some m → m.header.command ≠ .recoveryResponse) →
      im ∈ c.pend j := by
    intro k s' q' effs hlocal hsub hnone
    rcases hlocal.mem_pend hsub him with him | him
    · exact him
    · obtain ⟨eff, heff, hm, -⟩ := mem_mail him
      exact absurd hcmd (hnone eff heff _ hm)
  cases hmoves with
  | quiet _ _ _ hmem =>
      rcases hmem j im him with him | ⟨-, hclient⟩
      · exact Or.inl him
      · exact absurd hcmd (uncounted_of_client hclient).2.2.2
  | duplicate _ _ _ _ _ hmem => exact Or.inl (hmem j im him)
  | act i env hev im' rest s' effs hqueue hstale hacts h =>
      have hsub : rest ⊆ c.queue i := by rw [hqueue]; exact List.subset_cons_self _ _
      rcases hacts.responds with hnone | ⟨hst, rfl, p, x, rfl⟩
      · exact Or.inl (hlocal h hsub hnone)
      · rcases h.mem_pend hsub him with him | him
        · exact Or.inl him
        · obtain ⟨eff, heff, -, hpacket⟩ := mem_mail him
          obtain rfl := List.mem_singleton.mp heff
          simp only [Effect.packets] at hpacket
          split at hpacket
          · rename_i hpeer
            cases List.mem_singleton.mp hpacket
            have hne : i ≠ j := (hstatic.mem_peers.mp hpeer).2.symm
            exact Or.inr ⟨i, x, h.lt, hne, hst, rfl, h.trace, h.state_ne j hne.symm⟩
          · cases hpacket
  | enterView i s' hst hs' h =>
      exact Or.inl (hlocal h (List.Subset.refl _)
        (forall_message_singleton rfl (by simp [startViewChangeMessage])))
  | enterRecovery i stuck rest nonce s' hst hqueue hcan haction hs' h =>
      exact Or.inl (hlocal h (List.nil_subset _)
        (forall_message_singleton rfl (by simp [recoveryMessage])))
  | heartbeat i hst hprimary h =>
      exact Or.inl (hlocal h (List.Subset.refl _)
        (forall_message_singleton rfl (by simp [commitMessage])))
  | restart i _ _ _ _ _ _ hpend =>
      rw [hpend] at him
      split at him
      · cases him
      · exact Or.inl him

/-- A replica in recovery has been so before, under the same nonce and in the
same view, or has just begun. -/
theorem Changes.recovering {j : Nat} {s' : ReplicaState} (h : Changes c ev j s')
    (hrestart : ev.restarted? = none) (hst' : s'.status = .recovery) :
    ((c.state j).status = .recovery ∧ s'.recoveryNonce = (c.state j).recoveryNonce
        ∧ s'.view = (c.state j).view
        ∧ ∀ m ∈ s'.recoveryResponses, m ∈ (c.state j).recoveryResponses
          ∨ (∃ im ∈ c.pend j, im.message = m)
            ∧ isRecoveryResponse s'.recoveryNonce m.header.replica m = true
            ∧ s'.view ≤ m.header.view)
      ∨ (c.state j).status ≠ .recovery ∧ s'.recoveryResponses = [] := by
  cases h with
  | same => exact Or.inl ⟨hst', rfl, rfl, fun m hm => Or.inl hm⟩
  | act env im rest _ effs hlt hev hqueue hstale hacts =>
      obtain ⟨hst, hcase⟩ := hacts.recovering hstale hst'
      rcases hcase with rfl | ⟨rfl, hresponse, hview⟩
      · exact Or.inl ⟨hst, rfl, rfl, fun m hm => Or.inl hm⟩
      · refine Or.inl ⟨hst, rfl, rfl, fun m hm => ?_⟩
        rcases List.mem_append.mp hm with hm | hm
        · exact Or.inl hm
        · obtain rfl := List.mem_singleton.mp hm
          exact Or.inr ⟨⟨im, by simp [pend, hqueue], rfl⟩, hresponse, hview⟩
  | enterView hlt hst => cases hst'
  | enterRecovery nonce hst => exact Or.inr ⟨by simp [hst], rfl⟩
  | restart hev => rw [hev] at hrestart; cases hrestart

theorem command_of_isRecoveryResponse {x : UInt128} {q : Nat} {m : VsrMessage}
    (h : isRecoveryResponse x q m = true) : m.header.command = .recoveryResponse := by
  simp only [isRecoveryResponse, Bool.and_eq_true, beq_iff_eq] at h
  exact h.1.1

/-- A response that is pending has been asked for. -/
theorem mem_nonces_of_pending {x : UInt128} {i q : Nat} {im : InboundMessage}
    (h : ∀ r q x, c.answers r q x ≤ if q ≠ r ∧ x ∈ c.nonces then 1 else 0) (him : im ∈ c.pend i)
    (hresponse : isRecoveryResponse x q im.message = true) : x ∈ c.nonces := by
  have hpos : 0 < c.pending i (isRecoveryResponse x q) :=
    List.countP_pos_iff.mpr ⟨im, him, hresponse⟩
  have hle := h i q x
  rw [answers] at hle
  by_contra hnot
  rw [if_neg fun h => hnot h.2] at hle
  omega

/-- Every response to the current request of a replica has been sent since it
made the request, and those it has gathered are as many as can be. -/
structure Fresh (n : Nat) (c : Cluster) : Prop where
  answers : ∀ r q x, c.answers r q x ≤ if q ≠ r ∧ x ∈ c.nonces then 1 else 0
  gathering : ∀ j, Gathering (c.state j)
  stored : ∀ i, (c.state i).status = .recovery → ∀ m ∈ (c.state i).recoveryResponses,
    isRecoveryResponse (c.state i).recoveryNonce m.header.replica m = true
      ∧ (c.state i).view ≤ m.header.view
  answered : ∀ i < n, (c.state i).status = .recovery → ∀ m,
    m ∈ (c.state i).recoveryResponses ∨ (∃ im ∈ c.pend i, im.message = m) →
    isRecoveryResponse (c.state i).recoveryNonce m.header.replica m = true →
    Answered n i (c.state i).recoveryNonce m c

theorem fresh_init (n : Nat) : Fresh n (init n) where
  answers := (counts_init n).answers
  gathering j := Nat.zero_le _
  stored i h := by simp [state, init, freshNode, ReplicaState.new] at h
  answered i _ h := by simp [state, init, freshNode, ReplicaState.new] at h

theorem Fresh.step {n : Nat} (h : Fresh n c) (run : Run FreshRecoveries (init n) c)
    (hsmall : n ≤ 2 ^ 8) (hstep : c.step ev = some c') (hok : FreshRecoveries c ev c') :
    Fresh n c' := by
  have hstatic : Static c := static_run run
  have hsize : c.size = n := size_run run
  have hmoves := step_moves hstatic hstep
  refine ⟨?_, gathering_step hstatic hstep h.gathering, ?_, ?_⟩
  · intro r q x
    exact hmoves.answers_le hstatic hok.once (hsize ▸ hsmall) hok.nonces r q x (h.answers r q x)
  · intro i hst' m hm
    rcases (hmoves.changes i).recovering hok.restart hst' with
      ⟨hst, hnonce, hview, hresponses⟩ | ⟨-, hnil⟩
    · rcases hresponses m hm with hm | ⟨-, hresponse⟩
      · rw [hnonce, hview]
        exact h.stored i hst m hm
      · exact hresponse
    · rw [hnil] at hm
      cases hm
  · intro i hi hst' m hm hresponse
    rcases (hmoves.changes i).recovering hok.restart hst' with
      ⟨hst, hnonce, hview, hresponses⟩ | ⟨hst, hnil⟩
    · have hin' : InRecovery i (c.state i).recoveryNonce c' := ⟨hst', hnonce⟩
      rw [hnonce] at hresponse ⊢
      -- in the middle of the recovery: it was there before, or it is being sent
      have hbefore : (m ∈ (c.state i).recoveryResponses ∨ ∃ im ∈ c.pend i, im.message = m)
          ∨ ∃ q x, q < c.size ∧ (c.state q).status = .normal
            ∧ m = recoveryResponseMessage (c.state q) x
            ∧ c'.trace = c.trace ++ [(q, .toPeer i m)] := by
        rcases hm with hm | ⟨im, him, rfl⟩
        · exact Or.inl ((hresponses m hm).imp_right And.left)
        · rcases hmoves.response_sent hstatic him (command_of_isRecoveryResponse hresponse) with
            him | ⟨q, x, hq, -, hnormal, hmsg, htrace, -⟩
          · exact Or.inl (Or.inr ⟨im, him, rfl⟩)
          · exact Or.inr ⟨q, x, hq, hnormal, hmsg, htrace⟩
      rcases hbefore with hbefore | ⟨q, x, hq, hnormal, hm, htrace⟩
      · exact (h.answered i hi hst m hbefore hresponse).step hstep hok hin'
      · have hreplica : m.header.replica = q := by
          rw [hm]
          show u8 (c.state q).id = q
          rw [hstatic.id, u8_eq (hq.trans_le (hsize ▸ hsmall))]
        have hx : x = (c.state i).recoveryNonce := by
          rw [hm] at hresponse
          simp only [isRecoveryResponse, recoveryResponseMessage, Bool.and_eq_true, beq_iff_eq,
            deserialize_nonce] at hresponse
          exact hresponse.2
        refine ⟨c, ev, c', run, ⟨hst, rfl⟩, hstep, hin', .refl _, ?_, ?_, ?_, ?_⟩
        · rw [hreplica, ← hsize]
          exact hq
        · rw [hreplica]
          exact hnormal
        · rw [hreplica, ← hx]
          exact hm
        · rw [hreplica]
          exact htrace
    · -- at its beginning there is none, for the nonce is new
      have hnew := hok.nonces i (hsize ▸ hi) hst hst'
      rcases hm with hm | ⟨im, him, rfl⟩
      · rw [hnil] at hm
        cases hm
      · rcases hmoves.response_sent hstatic him (command_of_isRecoveryResponse hresponse) with
          him | ⟨q, x, -, -, -, -, -, hsame⟩
        · exact absurd (mem_nonces_of_pending h.answers him hresponse) hnew
        · rw [hsame] at hst'
          exact absurd hst' hst

theorem fresh_run {n : Nat} (hsmall : n ≤ 2 ^ 8) (run : Run FreshRecoveries (init n) c) :
    Fresh n c :=
  run.invariant (fresh_init n) fun _ _ _ run hstep hok h => h.step run hsmall hstep hok

/-- The replica that completes a recovery in this step, and the responses it
uses. -/
def completesRecovery? (c : Cluster) (ev : Event) : Option (Nat × List VsrMessage) :=
  ev.ticked?.bind fun i => (c.nodes i).handles?.bind fun im =>
    (completingResponses? (c.state i) im.message).map (i, ·)

theorem stale_of_handles {n : Node} {im : InboundMessage} (h : n.handles? = some im) :
    Node.isStale n.replica.state im.message = false := by
  unfold Node.handles? at h
  split at h
  · split at h
    · rename_i hcond
      obtain rfl := Option.some.inj h
      simpa using (Bool.and_eq_true_iff.mp hcond).1
    · cases h
  · cases h

theorem Fresh.used {n i : Nat} (h : Fresh n c) (hi : i < n) {im : InboundMessage}
    {rest : List InboundMessage} (hqueue : c.queue i = im :: rest)
    (hst : (c.state i).status = .recovery)
    (hstale : Node.isStale (c.state i) im.message = false)
    (hcmd : im.message.header.command = .recoveryResponse)
    {payload : RecoveryResponsePayload}
    (hpayload : RecoveryResponsePayload.deserialize im.message.payload {} = (true, payload))
    (hnonce : payload.nonce = (c.state i).recoveryNonce) :
    (((c.state i).recoveryResponses ++ [im.message]).map (·.header.replica)).Nodup
      ∧ ∀ m ∈ (c.state i).recoveryResponses ++ [im.message],
        m.header.replica ≠ i ∧ Answered n i (c.state i).recoveryNonce m c
          ∧ (c.state i).view ≤ m.header.view := by
  have hresponse : isRecoveryResponse (c.state i).recoveryNonce im.message.header.replica
      im.message = true := by
    simp [isRecoveryResponse, hcmd, hpayload, hnonce]
  have hall : ∀ m ∈ (c.state i).recoveryResponses ++ [im.message],
      isRecoveryResponse (c.state i).recoveryNonce m.header.replica m = true
        ∧ (c.state i).view ≤ m.header.view := by
    intro m hm
    rcases List.mem_append.mp hm with hm | hm
    · exact h.stored i hst m hm
    · rw [List.mem_singleton.mp hm]
      exact ⟨hresponse, by simpa [Node.isStale, hcmd] using hstale⟩
  obtain ⟨hnodup, hothers⟩ := nodup_responses h.answers hqueue fun m hm => (hall m hm).1
  refine ⟨hnodup, fun m hm => ⟨hothers m hm, ?_, (hall m hm).2⟩⟩
  refine h.answered i hi hst m ?_ (hall m hm).1
  rcases List.mem_append.mp hm with hm | hm
  · exact Or.inl hm
  · rw [List.mem_singleton.mp hm]
    exact Or.inr ⟨im, by simp [pend, hqueue], rfl⟩

end Cluster

open Cluster

/-- Whenever a replica completes a recovery: the responses it uses are `f + 1`,
from as many other replicas, each sent in the course of the recovery out of the
state its sender had in normal operation; and view, op, commit number and log
are all those of one response, none of which is ahead of it, and which is not
from an older view. -/
theorem recovery_adopts_fresh_best (f : Nat) (hsmall : 2 * f + 1 ≤ 256) {c c' : Cluster}
    {ev : Event} {i : Nat} {used : List VsrMessage}
    (run : Run FreshRecoveries (init (2 * f + 1)) c) (hstep : c.step ev = some c')
    (hused : c.completesRecovery? ev = some (i, used)) :
    used.length = f + 1 ∧ (used.map (·.header.replica)).Nodup
      ∧ (∀ m ∈ used, m.header.replica ≠ i
        ∧ Answered (2 * f + 1) i (c.state i).recoveryNonce m c)
      ∧ ∃ best ∈ used,
        (∀ m ∈ used, toLex (m.header.view, m.header.op)
          ≤ toLex (best.header.view, best.header.op))
        ∧ (c.state i).view ≤ best.header.view ∧ (c'.state i).status = .normal
        ∧ (c'.state i).view = best.header.view ∧ (c'.state i).op = best.header.op
        ∧ (c'.state i).commit = best.header.commit
        ∧ (c'.state i).log = (RecoveryResponsePayload.deserialize best.payload {}).2.log := by
  have hfresh := fresh_run hsmall run
  have hstatic : Static c := static_run run
  have hsize : c.size = 2 * f + 1 := size_run run
  obtain ⟨i', hev, hused⟩ := Option.bind_eq_some_iff.mp hused
  obtain ⟨im, hhandles, hused⟩ := Option.bind_eq_some_iff.mp hused
  obtain ⟨used', hresponses, heq⟩ := Option.map_eq_some_iff.mp hused
  cases heq
  cases ev with
  | tick k env =>
      obtain rfl := Option.some.inj hev
      obtain ⟨hcan, rest, hqueue, -, hlocal⟩ := local_of_handles hstatic hstep hhandles
      obtain ⟨hcmd, rfl, hquorum, payload, hpayload, hnonce⟩ :=
        completingResponses?_eq_some hresponses
      have hst : (c.state k).status = .recovery := by
        simpa [canProcess, hcmd, checkCanProcessRecoveryResponse, Cluster.state] using hcan
      have hfew : (c.state k).recoveryResponses.length ≤ f := by
        have := hfresh.gathering k
        rw [Gathering, hstatic.f, hsize] at this
        omega
      obtain ⟨hnodup, hall⟩ := hfresh.used (hsize ▸ hlocal.lt) hqueue hst
        (stale_of_handles hhandles) hcmd hpayload hnonce
      obtain ⟨first, others, hlist⟩ : ∃ first others,
          (c.state k).recoveryResponses ++ [im.message] = first :: others :=
        List.exists_cons_of_ne_nil (by simp)
      obtain ⟨hbest, hahead⟩ := bestResponse_spec first others
      rw [← bestResponse_eq hlist, ← hlist] at hbest hahead
      have hadopted : c'.state k = ((c.nodes k).replica.handleRecoveryResponse im).state := by
        rw [hlocal.state_self]
        simp only [Node.dispatch, hcmd]
      refine ⟨?_, hnodup, fun m hm => ⟨(hall m hm).1, (hall m hm).2.1⟩,
        bestResponse (c.state k) im.message, hbest, fun m hm => ?_, (hall _ hbest).2.2, ?_⟩
      · rw [hstatic.f, hsize] at hquorum
        rw [List.length_append, List.length_singleton] at hquorum ⊢
        omega
      · rw [Prod.Lex.toLex_le_toLex]
        exact hahead m hm
      · rw [hadopted]
        exact handleRecoveryResponse_adopted hpayload hnonce hquorum
  | _ => cases hev

/-- Replica 2 misses a `Prepare` and recovers with the responses of 0 and 1. -/
theorem recovery_adopts_fresh_best_of_two :
    ∃ c c' used, Run FreshRecoveries (init (2 * 1 + 1)) c ∧ c.step (.tick 2 {}) = some c'
      ∧ c.completesRecovery? (.tick 2 {}) = some (2, used) ∧ used.length = 1 + 1
      ∧ ∀ m ∈ used, m.header.replica ≠ 2
        ∧ Answered (2 * 1 + 1) 2 (c.state 2).recoveryNonce m c := by
  obtain ⟨c, run, c', hstep, ⟨i, used⟩, hused, hi⟩ := exists_of_replay step FreshRecoveries
    (init (2 * 1 + 1))
    (request 0 7 (setRequest 1 1 [97, 32, 98]) ++ receive 0 1 ++ receive 1 0
      ++ request 0 8 (setRequest 2 1 [97, 32, 98]) ++ [.deliver 2] ++ process 2 1
      ++ receive 2 0 ++ receive 2 1 ++ receive 2 2 ++ [.deliver 2, .start 2])
    (P := fun c => ∃ c' ∈ c.step (.tick 2 {}), ∃ x ∈ c.completesRecovery? (.tick 2 {}), x.1 = 2)
    (by decide +kernel)
  obtain rfl : i = 2 := hi
  obtain ⟨hlength, -, hall, -⟩ := recovery_adopts_fresh_best 1 (by norm_num) run hstep hused
  exact ⟨c, c', used, run, hstep, hused, hlength, hall⟩

end VsrKv
