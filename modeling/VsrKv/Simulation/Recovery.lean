import VsrKv.Simulation.Normal
import VsrKv.Viewstamped.CatchUp

/-!
# Recovery, as the protocol sees it

A replica that goes into recovery has been left behind
(`Refines.left_behind`), and the responses it has counted when it comes
out are those of a quorum of the others, all to its last request.
-/

namespace VsrKv

open Replica Viewstamped

/-- A replica that has adopted a response is where its member is, with the response's log. -/
theorem Tracks.of_recover {f i : Nat} {a : Abs} {s s₁ : ReplicaState} {best : VsrMessage}
    {effs : List Effect} {l : List LogEntry} {log : Log}
    (hinv : Inv (config f) (a.recover i best.header.view l)) (hi : i < 2 * f + 1)
    (hlog : (adoptResponse s best).log = stripLog log) (hrep : Represents log best.header.op l)
    (hcommit : Known f (a.recover i best.header.view l) best.header.view best.header.commit)
    (hexec : Executed (adoptResponse s best) s₁ effs) :
    Tracks f (a.recover i best.header.view l) i
        { s₁ with recoveryNonce := {}, recoveryResponses := [] }
      ∧ (∀ eff ∈ effs, ∀ m, eff.message? = some m →
          Meaning f (a.recover i best.header.view l) i m)
      ∧ ∀ v n e res, Effect.executed v n e res ∈ effs →
          Performed f (a.recover i best.header.view l) v n e := by
  have hnode := node_recover a i best.header.view l
  have hst : (adoptResponse s best).status = .normal := rfl
  have htracks : Tracks f (a.recover i best.header.view l) i (adoptResponse s best) :=
    .of_wire hst (by rw [hnode]; rfl) (by rw [hnode]) (by rw [hnode]) hlog hrep hcommit
  obtain ⟨hsent, hperf⟩ := htracks.effects hinv hi hst hexec
  obtain ⟨n, t, m, rfl⟩ := hexec.state
  exact ⟨⟨htracks.view, htracks.status, htracks.log, (fun hrec => by cases hrec),
    htracks.lastNormalView, htracks.commit, htracks.acks, htracks.votes,
    (fun hrec => by cases hrec)⟩, hsent, hperf⟩

section

variable {f i : Nat} {c : Cluster} {a : Abs} {im : InboundMessage} {rest : List InboundMessage}
  (h : Refines f c a) (hi : i < c.size)

include h hi

/-- A replica that goes into recovery is not the primary, or some later view
has been started. -/
theorem Refines.left_behind (hqueue : c.queue i = im :: rest)
    (hst : (c.state i).status = .normal) (hcan : (c.nodes i).replica.canProcess im = false)
    (haction : determineStateAction (c.state i) im.message = .initiateRecovery) :
    i ≠ (config f).primary (c.state i).view
      ∨ ∃ w b, (c.state i).view < w ∧ a.base w = some b := by
  by_cases hprimary : (c.state i).isPrimary = true
  · refine Or.inr ?_
    have hwidth : u32 ((c.state i).view + 1) = (c.state i).view + 1 := u32_eq (h.range i hi).1
    unfold determineStateAction at haction
    simp only [hprimary, Bool.not_true, Bool.false_and, Bool.false_eq_true, if_false, hwidth]
      at haction
    split at haction
    · rename_i hlater
      split at haction
      · cases haction
      · rename_i hnot
        have hpong : im.message.header.command ≠ .pong := fun hcmd => by
          simp [canProcess, hcmd] at hcan
        have hping : im.message.header.command ≠ .ping := fun hcmd => by
          simp [canProcess, hcmd] at hcan
        have hrequest : im.message.header.command ≠ .request := fun hcmd => by
          have hnormal : (c.nodes i).replica.state.status = .normal := hst
          have hleads : (c.nodes i).replica.state.isPrimary = true := hprimary
          simp [canProcess, hcmd, checkCanProcessRequest, hnormal, hleads] at hcan
        obtain ⟨k, -, hmeaning⟩ := h.head_meaning hqueue hrequest hping
        rcases hmeaning.started h.inv (by omega) hpong with ⟨b, hb⟩ | ⟨hcmd, v, hv, b, hb⟩
        · exact ⟨_, b, hlater, hb⟩
        · -- a view change one view on would have been joined instead
          refine ⟨v, b, ?_, hb⟩
          by_contra hle
          exact hnot ⟨by omega, hcmd⟩
    · cases haction
  · refine Or.inl fun hp => hprimary ?_
    rw [h.static.isPrimary h.odd, decide_eq_true_iff, h.size]
    exact hp

theorem Refines.enterRecovery {nonce : UInt128} {s' : ReplicaState}
    (hqueue : c.queue i = im :: rest) (hst : (c.state i).status = .normal)
    (hcan : (c.nodes i).replica.canProcess im = false)
    (haction : determineStateAction (c.state i) im.message = .initiateRecovery)
    (hs' : s' = { c.state i with
      status := .recovery, recoveryNonce := nonce, recoveryResponses := [] })
    (hfresh : nonce ∉ c.nonces) :
    Outcome f c a i s' [.broadcast (recoveryMessage s')] (a.enterRecovery i nonce) := by
  have htracks := h.nodes i hi
  have hmem := h.lt hi
  have hast : (a.node i).status = .normal := by rw [htracks.status, hst]; rfl
  have hbehind := h.left_behind hi hqueue hst hcan haction
  rw [← htracks.view] at hbehind
  have hstep := Step.enterRecovery (C := config f) i nonce (mem_members.mpr hmem) hast
    (fun j v l hr => hfresh (h.nonces j nonce v l hr)) hbehind
  have hext := (hstep.extends h.inv).1
  have hnode : (a.enterRecovery i nonce).node i
      = { a.node i with status := .recovering, nonce := nonce } := by
    simp [State.enterRecovery, State.set]
  refine
    { step := Or.inr hstep
      others := fun j hj => by simp [State.enterRecovery, State.set, hj]
      tracks :=
        { view := by rw [hnode, hs']; exact htracks.view
          status := by rw [hnode, hs']; rfl
          log := by rw [hnode, hs']; exact htracks.log
          nonce := fun _ => by rw [hnode, hs']
          lastNormalView := fun hch => by rw [hs'] at hch; cases hch
          commit := by rw [hs']; exact htracks.commit.mono hext
          acks := fun hnormal => by rw [hs'] at hnormal; cases hnormal
          votes := fun hch => by rw [hs'] at hch; cases hch
          responses := fun _ d hd => by rw [hs'] at hd; cases hd }
      sent := fun eff heff m hm => ?_
      executed := fun v n e res heff => by simp at heff
      nonces := fun j x v l hr => Or.inl hr
      entries := fun v e he => Or.inl he
      length := h.length }
  obtain rfl := List.mem_singleton.mp heff
  cases hm
  exact ⟨hmem, rfl⟩

theorem Refines.respond (hsmall : 2 * f + 1 ≤ 2 ^ 8) (hqueue : c.queue i = im :: rest)
    {request : RecoveryRequestPayload} (hcmd : im.message.header.command = .recovery)
    (hst : (c.state i).status = .normal)
    (hrequest : RecoveryRequestPayload.deserialize im.message.payload = some request) :
    Outcome f c a i (c.state i)
      [.toPeer im.message.header.replica (recoveryResponseMessage (c.state i) request.nonce)]
      (a.respond i request.nonce) := by
  have htracks := h.nodes i hi
  have hmem := h.lt hi
  have hast : (a.node i).status = .normal := by rw [htracks.status, hst]; rfl
  obtain ⟨k, hsent, -⟩ := h.head_meaning hqueue (by simp [hcmd]) (by simp [hcmd])
  have hnonce : request.nonce ∈ c.nonces :=
    hsent.mem_nonces (by simp [VsrMessage.nonce?, hcmd, hrequest])
  have hext := extends_respond a i request.nonce
  refine
    { step := Or.inr (.respond i request.nonce (mem_members.mpr hmem) hast)
      others := fun _ _ => rfl
      tracks := htracks.mono hext rfl
      sent := fun eff heff m hm => ?_
      executed := fun v n e res heff => by simp at heff
      nonces := fun j x v l hr => ?_
      entries := fun v e he => Or.inl he
      length := h.length }
  · obtain rfl := List.mem_singleton.mp heff
    cases hm
    exact ⟨hmem, h.id_eq hi hsmall, htracks.commit.mono hext, request.nonce, (a.node i).log,
      (c.state i).log, Or.inr ⟨rfl, rfl, htracks.view.symm, rfl⟩,
      RecoveryResponsePayload.deserialize_serialize (h.logInRange hi), htracks.log⟩
  · rcases hr with hr | ⟨-, rfl, -⟩
    · exact Or.inl hr
    · exact Or.inr hnonce

/-- The responses collected, the new one included, mean what they should. -/
theorem Refines.gathered (hqueue : c.queue i = im :: rest) {payload : RecoveryResponsePayload}
    (hcmd : im.message.header.command = .recoveryResponse)
    (hst : (c.state i).status = .recovery)
    (hpayload : RecoveryResponsePayload.deserialize im.message.payload {} = (true, payload))
    (hnonce : payload.nonce = (c.state i).recoveryNonce) :
    ∀ m ∈ (c.state i).recoveryResponses ++ [im.message],
      isRecoveryResponse (c.state i).recoveryNonce m.header.replica m = true
        ∧ Meaning f a m.header.replica m := by
  have htracks := h.nodes i hi
  intro m hm
  rcases List.mem_append.mp hm with hm | hm
  · exact htracks.responses hst m hm
  · rw [List.mem_singleton.mp hm]
    obtain ⟨k, -, hmeaning⟩ := h.head_meaning hqueue (by simp [hcmd]) (by simp [hcmd])
    have hreplica := hmeaning.2
    simp only [hcmd] at hreplica
    exact ⟨by simp [isRecoveryResponse, hcmd, hpayload, hnonce], hreplica.1 ▸ hmeaning⟩

theorem Refines.gather (hqueue : c.queue i = im :: rest) {payload : RecoveryResponsePayload}
    (hcmd : im.message.header.command = .recoveryResponse)
    (hst : (c.state i).status = .recovery)
    (hpayload : RecoveryResponsePayload.deserialize im.message.payload {} = (true, payload))
    (hnonce : payload.nonce = (c.state i).recoveryNonce) :
    Outcome f c a i
      { c.state i with recoveryResponses := (c.state i).recoveryResponses ++ [im.message] } []
      a := by
  have htracks := h.nodes i hi
  refine h.stutter ?_ (fun _ heff => by cases heff) (fun _ _ _ _ heff => by cases heff)
  exact ⟨htracks.view, htracks.status, htracks.log, htracks.nonce, htracks.lastNormalView,
    htracks.commit, htracks.acks, htracks.votes,
    fun _ => h.gathered hi hqueue hcmd hst hpayload hnonce⟩

/-- A recovering replica that has enough responses takes the state of a best
one, and as many other replicas have answered. -/
theorem Refines.answered (hqueue : c.queue i = im :: rest) {payload : RecoveryResponsePayload}
    (hcmd : im.message.header.command = .recoveryResponse)
    (hst : (c.state i).status = .recovery)
    (hpayload : RecoveryResponsePayload.deserialize im.message.payload {} = (true, payload))
    (hnonce : payload.nonce = (c.state i).recoveryNonce)
    {first best : VsrMessage} {others : List VsrMessage}
    (hresponses : (c.state i).recoveryResponses ++ [im.message] = first :: others)
    (hquorum : (c.state i).faultToleranceF + 1 ≤ others.length + 1)
    (hb : best = others.foldl betterResponse first) :
    ∃ l log, Step (config f) a (a.recover i best.header.view l)
      ∧ (adoptResponse (c.state i) best).log = stripLog log ∧ Represents log best.header.op l
      ∧ Known f a best.header.view best.header.commit := by
  have htracks := h.nodes i hi
  have hmem := h.lt hi
  have hast : (a.node i).status = .recovering := by rw [htracks.status, hst]; rfl
  have hgathered := h.gathered hi hqueue hcmd hst hpayload hnonce
  obtain ⟨hnodup, hothers⟩ :=
    Cluster.nodup_responses h.counts.answers hqueue fun m hm => (hgathered m hm).1
  rw [hresponses] at hgathered hnodup hothers
  obtain ⟨hbest, hahead⟩ := bestResponse_spec first others
  rw [← hb] at hbest hahead
  -- each response decodes to the state its sender answered with
  have hresponse : ∀ m ∈ first :: others, m.header.replica < 2 * f + 1
      ∧ Known f a m.header.view m.header.commit
      ∧ ∃ l log, a.response m.header.replica (a.node i).nonce m.header.view l
        ∧ RecoveryResponsePayload.deserialize m.payload {}
          = (true, { nonce := (c.state i).recoveryNonce, log := stripLog log })
        ∧ Represents log m.header.op l := by
    intro m hm
    obtain ⟨hkind, hk, hmeaning⟩ := hgathered m hm
    simp only [isRecoveryResponse, Bool.and_eq_true, beq_iff_eq] at hkind
    simp only [hkind.1.1] at hmeaning
    obtain ⟨-, hcommit, x, l, log, hresp, hdec, hrep⟩ := hmeaning
    have hx : x = (c.state i).recoveryNonce := by
      rw [← hkind.2, hdec]
    subst hx
    exact ⟨hk, hcommit, l, log, by rw [htracks.nonce hst]; exact hresp, hdec, hrep⟩
  obtain ⟨-, hcommit, l, log, hresp, hdec, hrep⟩ := hresponse best hbest
  have hR : ((first :: others).map (·.header.replica)).toFinset
      ⊆ (config f).members.erase i := by
    intro q hq
    obtain ⟨m, hm, rfl⟩ := List.mem_map.mp (List.mem_toFinset.mp hq)
    exact Finset.mem_erase.mpr ⟨hothers m hm, mem_members.mpr (hresponse m hm).1⟩
  have hcard : (config f).f + 1 ≤ ((first :: others).map (·.header.replica)).toFinset.card := by
    rw [List.toFinset_card_of_nodup hnodup, List.length_map]
    exact h.faultToleranceF i ▸ hquorum
  have hstep := Step.recover (C := config f) i _ best.header.view l (mem_members.mpr hmem) hast
    hR hcard
    (fun q hq => by
      obtain ⟨m, hm, rfl⟩ := List.mem_map.mp (List.mem_toFinset.mp hq)
      obtain ⟨-, -, l', log', hresp', -, hrep'⟩ := hresponse m hm
      refine ⟨m.header.view, l', hresp', (hahead m hm).imp_right ?_⟩
      intro hop
      rw [← hrep'.op, ← hrep.op]
      exact hop)
    ⟨best.header.replica, List.mem_toFinset.mpr (List.mem_map.mpr ⟨best, hbest, rfl⟩), hresp⟩
  exact ⟨l, log, hstep, by simp only [adoptResponse, hdec], hrep, hcommit⟩

theorem Refines.recover (hqueue : c.queue i = im :: rest) {payload : RecoveryResponsePayload}
    (hcmd : im.message.header.command = .recoveryResponse)
    (hst : (c.state i).status = .recovery)
    (hpayload : RecoveryResponsePayload.deserialize im.message.payload {} = (true, payload))
    (hnonce : payload.nonce = (c.state i).recoveryNonce)
    {first : VsrMessage} {others : List VsrMessage}
    (hresponses : (c.state i).recoveryResponses ++ [im.message] = first :: others)
    (hquorum : (c.state i).faultToleranceF + 1 ≤ others.length + 1)
    {s₁ : ReplicaState} {effs : List Effect}
    (hexec : Executed (adoptResponse (c.state i) (others.foldl betterResponse first)) s₁ effs) :
    ∃ a', Outcome f c a i { s₁ with recoveryNonce := {}, recoveryResponses := [] } effs a' := by
  generalize hb : others.foldl betterResponse first = best at hexec
  obtain ⟨l, log, hstep, hlog, hrep, hcommit⟩ :=
    h.answered hi hqueue hcmd hst hpayload hnonce hresponses hquorum hb.symm
  have hext := (hstep.extends h.inv).1
  obtain ⟨htracks, hsent, hperf⟩ := Tracks.of_recover (hstep.inv h.inv) (h.lt hi) hlog hrep
    (hcommit.mono hext) hexec
  refine ⟨a.recover i best.header.view l,
    { step := Or.inr hstep
      others := fun j hj => by simp [State.recover, State.set, hj]
      tracks := htracks
      sent := hsent
      executed := hperf
      nonces := fun j x v l hr => Or.inl hr
      entries := fun v e he => Or.inl he
      length := h.length }⟩

end

end VsrKv
