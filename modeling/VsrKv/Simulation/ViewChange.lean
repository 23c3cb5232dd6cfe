import VsrKv.Simulation.Normal

/-!
# View changes, as the protocol sees them

A replica that enters a view has voted with the log it has, whether or
not its `DoViewChange` is ever sent. The work is in `Refines.startView`:
the votes a new primary has counted are those of a quorum, and the log
it takes is a longest one among them.
-/

namespace VsrKv

open Replica Viewstamped

section

variable {f i : Nat} {c : Cluster} {a : Abs} {im : InboundMessage} {rest : List InboundMessage}
  (h : Refines f c a) (hi : i < c.size)

include h hi

/-- The vote a replica in a view change casts. -/
theorem Refines.own_vote (hsmall : 2 * f + 1 ≤ 2 ^ 8)
    (hst : (c.state i).status = .viewChange) :
    Meaning f a i (doViewChangeMessage { c.state i with startViewChangeReceived := ∅ }) := by
  have htracks := h.nodes i hi
  have hmem := h.lt hi
  have hast : (a.node i).status = .changing := by rw [htracks.status, hst]; rfl
  have hvote := h.inv.changing i (mem_members.mpr hmem) hast
  have hlnv := htracks.lastNormalView hst
  have hrange := (h.range i hi).1
  refine ⟨hmem, h.id_eq hi hsmall, htracks.commit, (c.state i).lastNormalView, (a.node i).log,
    (c.state i).log, hlnv, ?_, ?_, htracks.log⟩
  · rw [htracks.view] at hvote
    exact hvote
  · exact fun n => DoViewChangePayload.deserialize_serialize (by simp only []; omega)
      (h.logInRange hi) n

/-- The votes collected, the new one included, mean what they should. -/
theorem Refines.collected (hsmall : 2 * f + 1 ≤ 2 ^ 8) (hqueue : c.queue i = im :: rest)
    {s₁ : ReplicaState} {d : VsrMessage} (hcollect : CollectsVote (c.state i) im s₁ d) :
    (c.state i).status = .viewChange ∧ ∀ m ∈ s₁.doViewChangeReceived ++ [d],
      m.header.command = .doViewChange ∧ m.header.view = (c.state i).view
        ∧ Meaning f a m.header.replica m := by
  have htracks := h.nodes i hi
  cases hcollect with
  | received hcmd hview hst hprimary =>
      refine ⟨hst, ?_⟩
      intro m hm
      rcases List.mem_append.mp hm with hm | hm
      · exact htracks.votes hst m hm
      · rw [List.mem_singleton.mp hm]
        obtain ⟨k, -, hmeaning⟩ := h.head_meaning hqueue (by simp [hcmd]) (by simp [hcmd])
        have hreplica := hmeaning.2
        simp only [hcmd] at hreplica
        exact ⟨hcmd, hview, hreplica.1 ▸ hmeaning⟩
  | own hcmd hview hst hquorum hprimary =>
      refine ⟨hst, ?_⟩
      intro m hm
      rcases List.mem_append.mp hm with hm | hm
      · exact htracks.votes hst m hm
      · rw [List.mem_singleton.mp hm]
        have hmeaning := h.own_vote hi hsmall hst
        have hreplica := hmeaning.2.1
        exact ⟨rfl, rfl, by rw [hreplica]; exact hmeaning⟩

/-- Votes are collected by the primary of the new view only. -/
theorem Refines.electable {s₁ : ReplicaState} {d : VsrMessage}
    (hcollect : CollectsVote (c.state i) im s₁ d) :
    i = (config f).primary (a.node i).view := by
  rw [(h.nodes i hi).view]
  cases hcollect with
  | received hcmd hview hst hprimary =>
      exact (h.static.id i).symm.trans (h.primary_of_view hprimary)
  | own hcmd hview hst hquorum hprimary =>
      exact (h.static.id i).symm.trans (h.primary_of_view hprimary)

theorem Refines.collect (hsmall : 2 * f + 1 ≤ 2 ^ 8) (hqueue : c.queue i = im :: rest)
    {s₁ : ReplicaState} {d : VsrMessage} (hcollect : CollectsVote (c.state i) im s₁ d) :
    Outcome f c a i { s₁ with doViewChangeReceived := s₁.doViewChangeReceived ++ [d] } [] a := by
  have htracks := h.nodes i hi
  obtain ⟨-, hall⟩ := h.collected hi hsmall hqueue hcollect
  have hvotes : ∀ m ∈ s₁.doViewChangeReceived ++ [d],
      m.header.command = .doViewChange ∧ m.header.view = (c.state i).view
        ∧ Meaning f a m.header.replica m := hall
  refine h.stutter ?_ (fun _ heff => by cases heff) (fun _ _ _ _ heff => by cases heff)
  cases hcollect <;>
    exact ⟨htracks.view, htracks.status, htracks.log, htracks.nonce, htracks.lastNormalView,
      htracks.commit, htracks.acks, fun _ => hvotes, htracks.responses⟩

/-- A new primary that has enough votes takes the log of a longest one, and a
quorum has voted. -/
theorem Refines.elect (hsmall : 2 * f + 1 ≤ 2 ^ 8) (hqueue : c.queue i = im :: rest)
    {s₁ : ReplicaState} {d : VsrMessage} {best : LogChoice} {u : Nat}
    (hcollect : CollectsVote (c.state i) im s₁ d)
    (hquorum : (c.state i).faultToleranceF + 1 ≤ (s₁.doViewChangeReceived ++ [d]).length)
    (hbest : best = selectLog u (c.state i).commit (s₁.doViewChangeReceived ++ [d])) :
    ∃ l log, Step (config f) a (a.startView i l) ∧ (∃ k, a.vote k (a.node i).view l)
      ∧ best.payload.log = stripLog log ∧ Represents log best.op l
      ∧ Known f a (c.state i).view best.commit := by
  have htracks := h.nodes i hi
  have hmem := h.lt hi
  obtain ⟨hst, hall⟩ := h.collected hi hsmall hqueue hcollect
  have hast : (a.node i).status = .changing := by rw [htracks.status, hst]; rfl
  have hp := h.electable hi hcollect
  have hlnv := htracks.lastNormalView hst
  -- each vote decodes to the log its sender voted with
  have hvote : ∀ m ∈ s₁.doViewChangeReceived ++ [d], m.header.replica < 2 * f + 1
      ∧ Known f a (c.state i).view m.header.commit
      ∧ ∃ l log, a.vote m.header.replica (a.node i).view l
        ∧ Decodes (c.state i).lastNormalView m (stripLog log) ∧ Represents log m.header.op l := by
    intro m hm
    obtain ⟨hcmd, hview, hk, hmeaning⟩ := hall m hm
    simp only [hcmd, hview] at hmeaning
    obtain ⟨-, hcommit, v, l, log, hv, hvote, hdec, hrep⟩ := hmeaning
    obtain rfl : v = (c.state i).lastNormalView := by omega
    exact ⟨hk, hcommit, l, log, by rw [htracks.view]; exact hvote, hdec, hrep⟩
  have hchosen : Chosen (c.state i).commit (s₁.doViewChangeReceived ++ [d])
      (c.state i).lastNormalView best := by
    rw [hbest]
    refine selectLog_spec (by simp) ?_
    intro m hm
    obtain ⟨-, -, l, log, -, hdec, -⟩ := hvote m hm
    exact ⟨_, hdec⟩
  obtain ⟨m₀, hm₀, hdec₀, hop₀⟩ := hchosen.vote
  obtain ⟨-, -, l, log, hvote₀, hdec₁, hrep⟩ := hvote m₀ hm₀
  have hlog : best.payload.log = stripLog log := by
    have := (hdec₀ 0).symm.trans (hdec₁ 0)
    exact congrArg DoViewChangePayload.log (Prod.mk.injEq .. |>.mp this).2
  rw [← hop₀] at hrep
  -- the voters are a quorum
  have hnodup := Cluster.nodup_votes h.counts.votes h.static hqueue (hmem.trans_le hsmall) hcollect
    fun m hm => ⟨(htracks.votes hst m hm).1, (htracks.votes hst m hm).2.1⟩
  have hD : (config f).Quorum
      ((s₁.doViewChangeReceived ++ [d]).map (·.header.replica)).toFinset := by
    refine ⟨?_, ?_⟩
    · intro s hs
      obtain ⟨m, hm, rfl⟩ := List.mem_map.mp (List.mem_toFinset.mp hs)
      exact mem_members.mpr (hvote m hm).1
    · rw [List.toFinset_card_of_nodup hnodup, List.length_map]
      exact h.faultToleranceF i ▸ hquorum
  have hlongest : ∀ s ∈ ((s₁.doViewChangeReceived ++ [d]).map (·.header.replica)).toFinset,
      ∃ l', a.vote s (a.node i).view l' ∧ l'.length ≤ l.length := by
    intro s hs
    obtain ⟨m, hm, rfl⟩ := List.mem_map.mp (List.mem_toFinset.mp hs)
    obtain ⟨-, -, l', log', hvote', -, hrep'⟩ := hvote m hm
    have hop := hchosen.op m hm
    rw [hrep'.op, hrep.op] at hop
    exact ⟨l', hvote', hop⟩
  have hcommit : Known f a (c.state i).view best.commit := by
    rcases hchosen.commit with heq | ⟨m, hm, heq⟩
    · rw [heq]; exact htracks.commit
    · rw [heq]; exact (hvote m hm).2.1
  exact ⟨l, log, .startView i _ l hast hp hD hlongest
    ⟨m₀.header.replica, List.mem_toFinset.mpr (List.mem_map.mpr ⟨m₀, hm₀, rfl⟩), hvote₀⟩,
    ⟨_, hvote₀⟩, hlog, hrep, hcommit⟩

theorem Refines.startView (hsmall : 2 * f + 1 ≤ 2 ^ 8) (hqueue : c.queue i = im :: rest)
    {s₁ s' : ReplicaState} {d : VsrMessage} {best : LogChoice} {u : Nat} {effs : List Effect}
    (hcollect : CollectsVote (c.state i) im s₁ d)
    (hquorum : (c.state i).faultToleranceF + 1 ≤ (s₁.doViewChangeReceived ++ [d]).length)
    (hbest : best = selectLog u (c.state i).commit (s₁.doViewChangeReceived ++ [d]))
    (hexec : Executed (startedState s₁ best) s' effs) :
    ∃ a', Outcome f c a i s'
      (.broadcast (startViewMessage (startedState s₁ best)) :: effs) a' := by
  have htracks := h.nodes i hi
  have hmem := h.lt hi
  obtain ⟨l, log, hstep, ⟨k, hvote⟩, hlog, hrep, hcommit⟩ :=
    h.elect hi hsmall hqueue hcollect hquorum hbest
  have hast : (a.node i).status = .changing := by rw [htracks.status, hcollect.status]; rfl
  have hext := (hstep.extends h.inv).1
  have hinv := hstep.inv h.inv
  have hnode : (a.startView i l).node i = { a.node i with status := .normal, log := l } := by
    simp [State.startView, State.set]
  obtain ⟨w, -, -, -, -, -, hle⟩ := h.inv.vote _ _ l hvote
  have hview₁ : (startedState s₁ best).view = (c.state i).view := by cases hcollect <;> rfl
  have hst₁ : (startedState s₁ best).status = .normal := rfl
  have hcommit₁ : Known f (a.startView i l) (startedState s₁ best).view best.commit := by
    rw [hview₁]
    exact hcommit.mono hext
  have hbase : (a.startView i l).base (startedState s₁ best).view = some l := by
    rw [hview₁, ← htracks.view]
    simp [State.startView]
  have htracks₁ : Tracks f (a.startView i l) i (startedState s₁ best) :=
    .of_wire hst₁ (by rw [hnode]; exact htracks.view.trans hview₁.symm) (by rw [hnode])
      (by rw [hnode]) hlog hrep hcommit₁
  obtain ⟨hsent, hperf⟩ := htracks₁.effects hinv hmem hst₁ hexec
  refine ⟨a.startView i l,
    { step := Or.inr hstep
      others := (frame_startView h.inv hast (h.electable hi hcollect) l).node
      tracks := htracks₁.executed hexec.state
      sent := ?_
      executed := ?_
      nonces := fun j x v l hr => Or.inl hr
      entries := ?_
      length := ?_ }⟩
  · intro eff heff m hm
    rcases List.mem_cons.mp heff with rfl | heff
    · cases hm
      refine ⟨hmem, hcommit₁, l, stripLog log, hbase, ?_, ?_⟩
      · simp only [startViewMessage, startedState, hlog]
        exact StartViewPayload.deserialize_serialize (h.inRange_of hrep.strip hle)
      · simp only [startViewMessage, startedState]
        exact hrep.strip
    · exact hsent eff heff m hm
  · intro v n e res heff
    rcases List.mem_cons.mp heff with heq | heff
    · cases heq
    · exact hperf v n e res heff
  · intro v e he
    by_cases hv : v = (a.node i).view
    · subst hv
      simp only [State.startView, Function.update_self] at he
      exact Or.inr (h.entries w e (hle.subset he))
    · exact Or.inl (by simpa [State.startView, hv] using he)
  · intro v
    by_cases hv : v = (a.node i).view
    · subst hv
      simp only [State.startView, Function.update_self]
      exact hle.length_le.trans_lt (h.length w)
    · simpa [State.startView, hv] using h.length v

theorem Refines.adopt (hsmall : 2 * f + 1 ≤ 2 ^ 8) (hqueue : c.queue i = im :: rest)
    {payload : StartViewPayload} {s' : ReplicaState} {effs : List Effect}
    (hcmd : im.message.header.command = .startView)
    (hview : im.message.header.view = (c.state i).view) (hst : (c.state i).status = .viewChange)
    (hpayload : StartViewPayload.deserialize im.message.payload {} = (true, payload))
    (hexec : Executed (adoptedState (c.state i) im.message.header payload.log) s' effs) :
    ∃ a', Outcome f c a i s' (effs ++ retroactivePrepareOks s' im.message.header.commit) a' := by
  have htracks := h.nodes i hi
  have hmem := h.lt hi
  obtain ⟨k, -, -, hmeaning⟩ := h.head_meaning hqueue (by simp [hcmd]) (by simp [hcmd])
  simp only [hcmd, hview] at hmeaning
  obtain ⟨hcommit, l, log, hbase, hdec, hrep⟩ := hmeaning
  have hlog : payload.log = stripLog log := by
    have := hpayload.symm.trans hdec
    exact congrArg StartViewPayload.log (Prod.mk.injEq .. |>.mp this).2
  have hast : (a.node i).status = .changing := by rw [htracks.status, hst]; rfl
  have hbase' : a.base (a.node i).view = some l := by rw [htracks.view]; exact hbase
  have hstep := Step.adopt (C := config f) i l (mem_members.mpr hmem) hast hbase'
  have hext := (hstep.extends h.inv).1
  have hinv := hstep.inv h.inv
  have hnode : (a.adopt i l).node i = { a.node i with status := .normal, log := l } := by
    simp [State.adopt, State.set]
  have hst₁ : (adoptedState (c.state i) im.message.header payload.log).status = .normal := rfl
  have htracks₁ : Tracks f (a.adopt i l) i
      (adoptedState (c.state i) im.message.header payload.log) := by
    refine .of_wire hst₁ ?_ (by rw [hnode]) (by rw [hnode]) hlog hrep ?_
    · rw [hnode]; exact htracks.view.trans hview.symm
    · simp only [adoptedState]
      rw [hview]
      exact hcommit.mono hext
  obtain ⟨hsent, hperf⟩ := htracks₁.effects hinv hmem hst₁ hexec
  refine ⟨a.adopt i l,
    { step := Or.inr hstep
      others := (frame_adopt a i l).node
      tracks := htracks₁.executed hexec.state
      sent := ?_
      executed := ?_
      nonces := fun j x v l hr => Or.inl hr
      entries := fun v e he => Or.inl he
      length := h.length }⟩
  · intro eff heff m hm
    rcases List.mem_append.mp heff with heff | heff
    · exact hsent eff heff m hm
    · obtain ⟨n, hn, rfl⟩ := List.mem_map.mp heff
      cases hm
      obtain ⟨hge, hle⟩ := List.mem_range'_1.mp (List.mem_filter.mp hn).1
      obtain ⟨e, he⟩ : ∃ e, s'.log[n]? = some e := by
        have := (List.mem_filter.mp hn).2
        rwa [Std.ExtTreeMap.contains_eq_isSome_getElem?, Option.isSome_iff_exists] at this
      obtain ⟨_, _, _, rfl⟩ := hexec.state
      have hpos := (htracks₁.log.bounds he).1
      simp only [adoptedState] at hle
      refine ⟨hmem, h.id_eq hi hsmall, ?_, hpos, ?_⟩
      · simp only [prepareOkMessage, adoptedState]
        rw [hview]
        exact Started.mono hext ⟨l, hbase⟩
      · have hlen := hrep.op
        simp only [prepareOkMessage, adoptedState]
        rw [hview]
        simp only [State.adopt, State.raise, htracks.view, and_self, if_true]
        omega
  · intro v n e res heff
    rcases List.mem_append.mp heff with heff | heff
    · exact hperf v n e res heff
    · obtain ⟨n, -, heq⟩ := List.mem_map.mp heff
      cases heq

theorem Refines.enterView {s' : ReplicaState} (hst : (c.state i).status = .normal)
    (hs' : s' = (c.state i).enterNewView (u32 ((c.state i).view + 1))) :
    Outcome f c a i s' [.broadcast (startViewChangeMessage s')] (a.enterView i) := by
  have htracks := h.nodes i hi
  have hmem := h.lt hi
  have hast : (a.node i).status = .normal := by rw [htracks.status, hst]; rfl
  have hstep := Step.enterView (C := config f) i (mem_members.mpr hmem) hast
  have hext := (hstep.extends h.inv).1
  have hwidth : u32 ((c.state i).view + 1) = (c.state i).view + 1 := u32_eq (h.range i hi).1
  rw [hwidth] at hs'
  have hnode : (a.enterView i).node i
      = { a.node i with view := (a.node i).view + 1, status := .changing } := by
    simp [State.enterView, State.set]
  refine
    { step := Or.inr hstep
      others := (frame_enterView a i).node
      tracks :=
        { view := by rw [hnode, hs']; exact congrArg (· + 1) htracks.view
          status := by rw [hnode, hs']; rfl
          log := by rw [hnode, hs']; exact htracks.log
          nonce := fun hrec => by rw [hs'] at hrec; cases hrec
          lastNormalView := fun _ => by rw [hs']; simp [ReplicaState.enterNewView, hst]
          commit := by
            rw [hs']
            exact (htracks.commit.mono hext).later (Nat.le_succ _)
          acks := fun hnormal => by rw [hs'] at hnormal; cases hnormal
          votes := fun _ d hd => by rw [hs'] at hd; cases hd
          responses := fun hrec => by rw [hs'] at hrec; cases hrec }
      sent := fun eff heff m hm => ?_
      executed := fun v n e res heff => by simp at heff
      nonces := fun j x v l hr => Or.inl hr
      entries := fun v e he => Or.inl he
      length := h.length }
  obtain rfl := List.mem_singleton.mp heff
  cases hm
  exact ⟨hmem, (c.state i).view, by rw [hs']; rfl,
    (htracks.started h.inv hmem (by simp [hst])).mono hext⟩

end

end VsrKv
