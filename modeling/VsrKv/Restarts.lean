import VsrKv.Forgetful

/-!
# What a silent replica does not undo

The restored cluster refines the protocol as any cluster does
(`Remembers`). A step of a replica that has forgotten nothing is the
same step there. One of a replica that has is no step at all, since it
speaks for no log, until its recovery puts it ahead of what it had. So
replicas may restart with a log, as long as they recover it before they
speak for one (`agreement_of_careful`).
-/

namespace VsrKv

open Replica Viewstamped TransitionSystem
open Event (process receive request)

/-! ## What is left behind -/

theorem kept_status {s : ReplicaState} (h : s.status ≠ .recovery) : s.kept.status = s.status :=
  if_neg h

theorem kept_not_recovering (s : ReplicaState) : s.kept.status ≠ .recovery := by
  by_cases h : s.status = .recovery
  · rw [ReplicaState.kept, if_pos h]
    simp
  · rwa [kept_status h]

/-- What is still counted of `s` once it is `t`. -/
structure Kept (s t : ReplicaState) : Prop where
  config : SameConfig s t
  view : t.view = s.view
  log : 0 ∈ t.log → 0 ∈ s.log
  held : ∀ w, Cluster.held t w ≤ Cluster.held s w
  votes : t.doViewChangeReceived = s.doViewChangeReceived
  responses : t.recoveryResponses = s.recoveryResponses ∨ t.recoveryResponses = []

theorem Kept.rfl' (s : ReplicaState) : Kept s s :=
  ⟨.rfl' s, rfl, id, fun _ => Nat.le_refl _, rfl, Or.inl rfl⟩

theorem kept_kept (s : ReplicaState) : Kept s s.kept := by
  refine ⟨⟨rfl, rfl, rfl⟩, rfl, ?_, Cluster.held_mono ?_, rfl, Or.inr rfl⟩
  · intro hzero
    rw [ReplicaState.kept, Std.ExtTreeMap.mem_iff_isSome_getElem?, getElem?_stripLog,
      Option.isSome_map, ← Std.ExtTreeMap.mem_iff_isSome_getElem?] at hzero
    exact hzero
  · intro hst
    by_cases hrec : s.status = .recovery
    · rw [ReplicaState.kept, if_pos hrec] at hst
      cases hst
    · exact ⟨kept_status hrec ▸ hst, rfl, Finset.Subset.refl _⟩

section

variable {f i : Nat} {a : Abs} {s : ReplicaState}

theorem Tracks.kept (h : Tracks f a i s) (hst : s.status ≠ .recovery) : Tracks f a i s.kept where
  view := h.view
  status := by rw [kept_status hst]; exact h.status
  log := h.log.strip
  nonce hrec := absurd hrec (kept_not_recovering s)
  lastNormalView hch := h.lastNormalView (kept_status hst ▸ hch)
  commit := h.commit
  acks _ n e he q hq := by
    rw [prepareOkAcks_stripLog he] at hq
    simp at hq
  votes hch := h.votes (kept_status hst ▸ hch)
  responses hrec := absurd hrec (kept_not_recovering s)

/-- One that was recovering is taken back to before it did. -/
theorem Tracks.resumed (h : Tracks f a i s) (hst : s.status = .recovery)
    (hext : Extends a (a.recover i s.view (a.node i).log)) :
    Tracks f (a.recover i s.view (a.node i).log) i s.kept := by
  have hnode := node_recover a i s.view (a.node i).log
  exact .of_wire (if_pos hst) (by rw [hnode]; rfl) (by rw [hnode]) (by rw [hnode]) rfl h.log
    (h.commit.mono hext)

end

/-! ## The relation -/

/-- The restored cluster is where the protocol is, and who has forgotten its log has said
nothing of it since. -/
structure Remembers (f : Nat) (r : Forgetful) (a : Abs) : Prop where
  safe : Safe f r.restored a
  static : r.cluster.Static
  lost : ∀ i s, r.lost i = some s → s.status ≠ .recovery ∧ Blank f a (r.cluster.state i)

namespace Remembers

open Forgetful

section

variable {f i : Nat} {r r' : Forgetful} {a a' : Abs} {ev : Event} {s : ReplicaState}
  (h : Remembers f r a)

include h

/-- What nobody who has forgotten anything takes part in is a step of the restored
cluster. -/
theorem ordinary (hsmall : 2 * f + 1 ≤ 2 ^ 8) (hok : Careful r ev r')
    (hmoves : r.restored.Moves ev r'.restored) (hstatic : r'.cluster.Static)
    (hsize : r'.cluster.size = r.cluster.size) (hlost : r'.lost = r.lost)
    (hstate : ∀ j s, r.lost j = some s → r'.cluster.state j = r.cluster.state j)
    (hrestart : ∀ j ∈ ev.restarted?, (r.restored.state j).Pristine) :
    ∃ a', Remembers f r' a' := by
  have hforgets : Forgets r r' := fun j s hj => hlost ▸ hj
  have hadm : r.restored.Admissible ev r'.restored := by
    refine ⟨hok.once, hrestart, ?_, hforgets.inRange hsize h.safe.refines.range hok.range⟩
    intro j hj hst hrec
    cases hlostj : r.lost j with
    | none =>
        have hlostj' : r'.lost j = none := by rw [hlost, hlostj]
        rw [state_of_kept hlostj] at hst
        rw [state_of_kept hlostj'] at hrec ⊢
        exact hok.nonces j hj hst hrec
    | some s =>
        have hlostj' : r'.lost j = some s := by rw [hlost, hlostj]
        rw [state_of_lost hlostj] at hst
        rw [state_of_lost hlostj'] at hrec
        exact absurd hrec hst
  have hkeeps : f = 1 ∨ r.restored.KeepsLogs r'.restored := by
    have hfsize : r.cluster.size = 2 * f + 1 := h.safe.refines.size
    by_cases hthree : r.cluster.size = 3
    · exact Or.inl (by omega)
    · refine Or.inr (hmoves.keepsLogs hrestart fun j hj im him hcompletes => ?_)
      cases hlostj : r.lost j with
      | none =>
          rw [state_of_kept hlostj] at hcompletes ⊢
          have hcovers := (hok.covered j hj im him hcompletes).resolve_left fun h => hthree h.1
          rwa [had_of_kept hlostj] at hcovers
      | some s =>
          rw [state_of_lost hlostj] at hcompletes
          simp [completesRecovery, (h.lost j s hlostj).1] at hcompletes
  obtain ⟨a', hsafe, hmove⟩ := h.safe.of_moves hsmall hmoves
    (hforgets.static hsize h.safe.refines.static hstatic) hadm hkeeps
  have hext := (extends_of_step h.safe.refines.inv hmove).2.1
  refine ⟨a', hsafe, hstatic, fun j s hj => ?_⟩
  rw [hlost] at hj
  obtain ⟨hst, hblank⟩ := h.lost j s hj
  exact ⟨hst, hstate j s hj ▸ hblank.mono hext⟩

/-- Nor is what a silent replica does that recovers nothing. -/
theorem harmless (hok : Careful r ev r') (hstatic : r'.cluster.Static) (hi : r.lost i = some s)
    (hlost : r'.lost = r.lost) {t : ReplicaState} {q : List InboundMessage} {effs : List Effect}
    (hlocal : r.cluster.Local r'.cluster i t q effs) (done : List InboundMessage)
    (hqueue : r.cluster.queue i = done ++ q) (hblank : Blank f a t)
    (hsent : ∀ eff ∈ effs, ∀ m, eff.message? = some m → Meaning f a i m
      ∧ m.header.command ≠ .startViewChange ∧ m.header.command ≠ .doViewChange)
    (hexec : ∀ v n e res, Effect.executed v n e res ∉ effs)
    (hanswers : r.restored.Local r'.restored i s q effs → ∀ p k x, r'.restored.answers p k x
      ≤ if k ≠ p ∧ x ∈ r'.restored.nonces then 1 else 0) : Remembers f r' a := by
  have hrefines := h.safe.refines
  have hforgets : Forgets r r' := fun j s hj => hlost ▸ hj
  have hi' : r'.lost i = some s := by rw [hlost, hi]
  have hrestored := hforgets.static hlocal.size hrefines.static hstatic
  have hlocal' : r.restored.Local r'.restored i s q effs := by
    have hlocal' := local_restored hlocal (fun j _ => by rw [hlost]) hstatic hrestored
    rwa [state_of_lost hi'] at hlocal'
  have hsame : r.restored.state i = s := state_of_lost hi
  have hcounts := hrefines.counts.of_local hlocal' done hqueue (by rw [hsame])
    (fun eff heff m hm => (hsent eff heff m hm).2) (fun w => by rw [hsame])
    (Or.inl (by rw [hsame])) (hanswers hlocal')
  refine ⟨⟨hrefines.of_matched hrestored hcounts (hforgets.inRange hlocal.size hrefines.range
      hok.range) hlocal' ?_ hrefines.inv (.refl a) (fun _ _ => rfl) ?_
      (fun eff heff m hm => (hsent eff heff m hm).1) (fun v n e res heff => absurd heff
        (hexec v n e res)) (fun _ _ _ _ => Or.inl) (fun _ _ => Or.inl) hrefines.length,
      h.safe.promises⟩, hstatic, ?_⟩
  · change q ⊆ r.cluster.queue i
    rw [hqueue]
    exact List.subset_append_right _ _
  · exact hsame ▸ hrefines.nodes i hlocal'.lt
  · intro j t' hj
    rw [hlost] at hj
    obtain ⟨hst, hblankj⟩ := h.lost j t' hj
    by_cases hji : j = i
    · subst hji
      exact ⟨hst, hlocal.state_self ▸ hblank⟩
    · exact ⟨hst, hlocal.state_ne j hji ▸ hblankj⟩

/-- What a covered recovery brings back is ahead of what the replica had. -/
theorem ahead_of_covers (hlt : i < r.cluster.size) {im : InboundMessage}
    (hcovers : RecoveryCovers (r.had i) im.message) {first : VsrMessage} {others : List VsrMessage}
    (hlist : (r.cluster.state i).recoveryResponses ++ [im.message] = first :: others)
    {l : List LogEntry} {log : Log}
    (hrep : Represents log (others.foldl betterResponse first).header.op l) :
    Ahead a i (others.foldl betterResponse first).header.view l := by
  have htracks := h.safe.refines.nodes i hlt
  obtain ⟨m, hm, hcovers⟩ := hcovers
  have hm : m ∈ first :: others := hlist ▸ hm
  have hbest := (bestResponse_spec first others).2 m hm
  unfold NotAhead at hbest
  have hview : (a.node i).view = (r.had i).view := htracks.view
  have hop : (r.had i).op = (a.node i).log.length := htracks.log.op
  have hlen := hrep.op
  unfold Ahead
  omega

/-- A recovery that brings back what was lost ends the matter. -/
theorem recovers (hok : Careful r ev r') (hstatic : r'.cluster.Static) (hi : r.lost i = some s)
    (hnone : r'.lost i = none) (hlost : ∀ j, j ≠ i → r'.lost j = r.lost j) {t : ReplicaState}
    {im : InboundMessage} {rest : List InboundMessage} {effs : List Effect}
    (hlocal : r.cluster.Local r'.cluster i t rest effs)
    (hqueue : r.cluster.queue i = im :: rest)
    (hcovers : RecoveryCovers (r.had i) im.message)
    (hrec : Recovers f a (r.cluster.state i) im t effs) : ∃ a', Remembers f r' a' := by
  have hrefines := h.safe.refines
  obtain ⟨first, others, s₁, hlist, hexec, ht⟩ := hrec.adopts
  have hbest := (bestResponse_spec first others).1
  obtain ⟨hcmd, hmeaning⟩ := hrec.responses _ (hlist ▸ hbest)
  have hanswer := hmeaning.2
  simp only [hcmd] at hanswer
  obtain ⟨-, hcommit, x, l, log, hresp, hdec, hrep⟩ := hanswer
  have hholds := (hrefines.inv.response _ x _ l hresp).2
  have hahead := h.ahead_of_covers hlocal.lt hcovers hlist hrep
  have hext := (frame_catchUp hahead).ext
  have hinv := hrefines.inv.catchUp hholds hahead
  have hmem := mem_members.mpr (hrefines.lt hlocal.lt)
  obtain ⟨htracks, hsent, hperf⟩ := Tracks.of_recover (s := r.cluster.state i) hinv
    (hrefines.lt hlocal.lt) (by simp only [adoptResponse, hdec]) hrep (hcommit.mono hext) hexec
  rw [← ht] at htracks
  have hforgets : Forgets r r' := by
    intro j s hj
    by_cases hji : j = i
    · rw [hji, hnone] at hj
      cases hj
    · rw [← hlost j hji]
      exact hj
  have hrestored := hforgets.static hlocal.size hrefines.static hstatic
  have hlocal' := local_of_kept hlocal hnone hlost hstatic hrestored
  have hst : t.status = .normal := by
    obtain ⟨n, table, machine, rfl⟩ := hexec.state
    rw [ht]
    rfl
  have hview : (r.restored.state i).view ≤ t.view := by
    rw [← (hrefines.nodes i hlocal.lt).view, ← htracks.view, node_recover]
    exact hahead.view_le
  have hvotes : t.doViewChangeReceived = [] := by
    obtain ⟨n, table, machine, rfl⟩ := hexec.state
    rw [ht]
    exact (h.lost i s hi).2.votes
  have huncounted := UncountedAll.of_executed hexec
  have hcounts := hrefines.counts.of_local hlocal' [im] hqueue hview
    (fun eff heff m hm => ⟨(huncounted eff heff m hm).1, (huncounted eff heff m hm).2.1⟩)
    (fun w => by
      rw [Cluster.held_of_not_changing (by simp [hst])]
      exact Nat.zero_le _)
    (Or.inr hvotes) (hrefines.counts.answers_of_local hlocal' [im] hqueue
      (fun eff heff m hm => (huncounted eff heff m hm).2.2) (Or.inr (by rw [ht])))
  refine ⟨_, ⟨hrefines.of_matched hrestored hcounts (hforgets.inRange hlocal.size
      hrefines.range hok.range) hlocal' ?_ hinv hext
      (fun j hj => by simp [State.recover, State.set, hj]) htracks hsent hperf
      (fun _ _ _ _ => Or.inl) (fun _ _ => Or.inl) hrefines.length,
      h.safe.promises.catchUp hrefines.inv hmem hahead⟩, hstatic, ?_⟩
  · change rest ⊆ r.cluster.queue i
    rw [hqueue]
    exact List.subset_cons_self _ _
  · intro j t' hj
    have hji : j ≠ i := by
      rintro rfl
      rw [hnone] at hj
      cases hj
    rw [hlost j hji] at hj
    obtain ⟨hstj, hblank⟩ := h.lost j t' hj
    exact ⟨hstj, hlocal.state_ne j hji ▸ hblank.mono hext⟩

/-- A replica that starts over leaves behind what the others count on. -/
theorem silenced (hstatic : r'.cluster.Static)
    (hrestarted : Cluster.Restarted r.cluster r'.cluster i) {t : ReplicaState}
    (hi : r'.lost i = some t) (hlost : ∀ j, j ≠ i → r'.lost j = r.lost j)
    (hinv : Inv (config f) a') (hprom : Promises (config f) a') (hext : Extends a a')
    (hothers : ∀ j, j ≠ i → a'.node j = a.node j) (hresponse : a'.response = a.response)
    (hviewLog : a'.viewLog = a.viewLog) (htracks : Tracks f a' i t)
    (hst : t.status ≠ .recovery) (hkept : Kept (r.restored.state i) t) : Remembers f r' a' := by
  have hrefines := h.safe.refines
  have hself : r'.restored.state i = t := state_of_lost hi
  have hne : ∀ j, j ≠ i → r'.restored.state j = r.restored.state j := by
    intro j hj
    rw [state_restored, state_restored, hlost j hj, hrestarted.state_ne j hj]
  have hrestored : r'.restored.Static := by
    refine static_restored hstatic fun j u hj => ?_
    have hu := state_of_lost hj
    have hconfig := hrefines.static.sameConfig j
    rw [hrestarted.size]
    by_cases hji : j = i
    · subst hji
      rw [← hu, hself]
      exact hconfig.trans hkept.config
    · rw [← hu, hne j hji]
      exact hconfig
  have hrange : r'.restored.InRange := by
    intro j hj
    have hrangej := hrefines.range j (hrestarted.size ▸ hj)
    by_cases hji : j = i
    · subst hji
      rw [hself, hkept.view]
      exact ⟨hrangej.1, fun hzero => hrangej.2 (hkept.log hzero)⟩
    · rw [hne j hji]
      exact hrangej
  have hcounts : r'.restored.Counts :=
    hrefines.counts.of_reset hrestarted.size hne (by rw [hself, hkept.view])
      (fun w => by rw [hself]; exact hkept.held w) (Or.inl (by rw [hself, hkept.votes]))
      (by rw [hself]; exact hkept.responses) hrestarted.trace hrestarted.pend
  refine ⟨⟨hrefines.of_reset hrestored hcounts hrange hrestarted.size hne hrestarted.trace
    hrestarted.pend hinv hext hothers (by rw [hself]; exact htracks) hresponse hviewLog, hprom⟩,
    hstatic, ?_⟩
  intro j u hj
  by_cases hji : j = i
  · subst hji
    rw [hi] at hj
    cases hj
    exact ⟨hst, hrestarted.state_self ▸ blank_new f a' j _⟩
  · rw [hlost j hji] at hj
    obtain ⟨hstj, hblank⟩ := h.lost j u hj
    exact ⟨hstj, hrestarted.state_ne j hji ▸ hblank.mono hext⟩

/-- A replica that has something to forget leaves it behind, out of its recovery if it was
in one. -/
theorem forgets (hstatic : r'.cluster.Static)
    (hrestarted : Cluster.Restarted r.cluster r'.cluster i) (hi : r.lost i = none)
    (hi' : r'.lost i = some (r.cluster.state i).kept)
    (hlost : ∀ j, j ≠ i → r'.lost j = r.lost j) : ∃ a', Remembers f r' a' := by
  have hrefines := h.safe.refines
  have hsame : r.restored.state i = r.cluster.state i := state_of_kept hi
  have htracks := hsame ▸ hrefines.nodes i hrestarted.lt
  have hkept : Kept (r.restored.state i) (r.cluster.state i).kept := by
    rw [hsame]
    exact kept_kept _
  by_cases hst : (r.cluster.state i).status = .recovery
  · have hmem := hrefines.lt hrestarted.lt
    have hahead : Ahead a i (r.cluster.state i).view (a.node i).log :=
      Or.inr ⟨htracks.view, Nat.le_refl _⟩
    have hholds := htracks.holds hrefines.inv hmem (by simp [hst])
    have hext := (frame_catchUp hahead).ext
    exact ⟨_, h.silenced hstatic hrestarted hi' hlost (hrefines.inv.catchUp hholds hahead)
      (h.safe.promises.catchUp hrefines.inv (mem_members.mpr hmem) hahead) hext
      (fun j hj => by simp [State.recover, State.set, hj]) rfl rfl (htracks.resumed hst hext)
      (kept_not_recovering _) hkept⟩
  · exact ⟨a, h.silenced hstatic hrestarted hi' hlost hrefines.inv h.safe.promises (.refl a)
      (fun _ _ => rfl) rfl rfl (htracks.kept hst) (kept_not_recovering _) hkept⟩

theorem restarts (hsmall : 2 * f + 1 ≤ 2 ^ 8) (hok : Careful r (.restart i) r')
    (hstep : r.cluster.step (.restart i) = some r'.cluster)
    (hlost : r'.lost = r.lostAfter (.restart i) r'.cluster) : ∃ a', Remembers f r' a' := by
  have hrefines := h.safe.refines
  have hrestarted := Cluster.restarted_step hstep
  have hstatic := Cluster.static_step h.static hstep
  have hself := lost_of_restart hlost
  have hothers : ∀ j, j ≠ i → r'.lost j = r.lost j := fun j hj =>
    lost_of_same hlost (fun heq => hj (Option.some.inj heq).symm) (hrestarted.state_ne j hj)
  cases hi : r.lost i with
  | some s =>
      obtain ⟨hst, hblank⟩ := h.lost i s hi
      rw [if_pos hblank.pristine, hi] at hself
      have hsame : r.restored.state i = s := state_of_lost hi
      exact ⟨a, h.silenced hstatic hrestarted hself hothers hrefines.inv h.safe.promises (.refl a)
        (fun _ _ => rfl) rfl rfl (hsame ▸ hrefines.nodes i hrestarted.lt) hst (hsame ▸ .rfl' s)⟩
  | none =>
      by_cases hpristine : (r.cluster.state i).Pristine
      · rw [if_pos hpristine, hi] at hself
        have hall : r'.lost = r.lost := by
          funext j
          by_cases hj : j = i
          · rw [hj, hself, hi]
          · exact hothers j hj
        refine h.ordinary hsmall hok ?_ hstatic hrestarted.size hall ?_ ?_
        · refine .restart i rfl hrestarted.lt hrestarted.size
            (by rw [state_of_kept hself]; exact hrestarted.state_self) (fun j hj => ?_)
            hrestarted.trace hrestarted.pend
          rw [state_restored, state_restored, hall, hrestarted.state_ne j hj]
        · intro j s hj
          refine hrestarted.state_ne j ?_
          rintro rfl
          rw [hi] at hj
          cases hj
        · intro j hj
          obtain rfl := Option.some.inj hj
          rw [state_of_kept hi]
          exact hpristine
      · rw [if_neg hpristine] at hself
        exact h.forgets hstatic hrestarted hi hself hothers

section

variable (hok : Careful r ev r') (hstatic : r'.cluster.Static) (hev : ev.restarted? = none)
  (hlost : r'.lost = r.lostAfter ev r'.cluster)

include hok hstatic hev hlost

/-- A step of a replica that has forgotten nothing. -/
theorem kept_acts (hsmall : 2 * f + 1 ≤ 2 ^ 8) (hi : r.lost i = none) {t : ReplicaState}
    {q : List InboundMessage} {effs : List Effect}
    (hlocal : r.cluster.Local r'.cluster i t q effs)
    (hmoves : r.restored.state i = r.cluster.state i → r.restored.Local r'.restored i t q effs →
      r.restored.Moves ev r'.restored) : ∃ a', Remembers f r' a' := by
  obtain ⟨hall, hlocal', hstate⟩ :=
    of_kept hlocal hev hlost hi h.safe.refines.static hstatic
  exact h.ordinary hsmall hok (hmoves (state_of_kept hi) hlocal') hstatic hlocal.size hall hstate
    (by simp [hev])

/-- A turn, at a message, of one that has forgotten its log. -/
theorem lost_acts (hi : r.lost i = some s) {env : Env} {im : InboundMessage}
    {rest : List InboundMessage} {t : ReplicaState} {effs : List Effect}
    (htick : ev = .tick i env) (hqueue : r.cluster.queue i = im :: rest)
    (hstale : Node.isStale (r.cluster.state i) im.message = false)
    (hacts : Acts env (r.cluster.state i) im t effs)
    (hlocal : r.cluster.Local r'.cluster i t rest effs) : ∃ a', Remembers f r' a' := by
  have hrefines := h.safe.refines
  have hsilent := hok.silent_of_local hlocal (by rw [hi]; rfl)
  rcases hacts.of_blank (h.lost i s hi).2 (hrefines.lt hlocal.lt) ⟨[], hrefines.inv.base_zero⟩
    hstale (fun hrequest hping => (hrefines.head_meaning hqueue hrequest hping).imp
      fun _ => And.right) hsilent with hharmless | hrecovers
  · have hall := lost_of_local hlost hev hlocal fun hrec => by simp [hharmless.status, hrec]
    refine ⟨a, h.harmless hok hstatic hi hall hlocal [im] hqueue hharmless.blank ?_
      hharmless.executed fun hlocal' => ?_⟩
    · intro eff heff m hm
      obtain ⟨hmeaning, huncounted⟩ := hharmless.sent eff heff m hm
      exact ⟨hmeaning, huncounted.1, huncounted.2.1⟩
    · exact hrefines.counts.answers_of_local hlocal' [im] hqueue
        (fun eff heff m hm => (hharmless.sent eff heff m hm).2.2.2)
        (Or.inl (by rw [state_of_lost hi]))
  · obtain ⟨hst, hst'⟩ := hrecovers.status
    have hcovers := (hok.covered i (by rw [htick]; rfl) im (by rw [hqueue]; rfl)
      hrecovers.completes).resolve_left fun hthree => by simp [hi] at hthree
    exact h.recovers hok hstatic hi (lost_of_recovered hlost hev hst (hlocal.state_self ▸ hst'))
      (fun j hj => lost_of_same hlost (by simp [hev]) (hlocal.state_ne j hj)) hlocal hqueue
      hcovers hrecovers

/-- It asks to recover. -/
theorem lost_asks (hsmall : 2 * f + 1 ≤ 2 ^ 8) (hi : r.lost i = some s) {nonce : UInt128}
    {t : ReplicaState} (hst : (r.cluster.state i).status = .normal)
    (ht : t = { r.cluster.state i with
      status := .recovery, recoveryNonce := nonce, recoveryResponses := [] })
    (hlocal : r.cluster.Local r'.cluster i t [] [.broadcast (recoveryMessage t)]) :
    ∃ a', Remembers f r' a' := by
  have hrefines := h.safe.refines
  have hblank := (h.lost i s hi).2
  have hmem := hrefines.lt hlocal.lt
  have hall := lost_of_local hlost hev hlocal fun hrec => by simp [hst] at hrec
  have hnew := hok.nonces i hlocal.lt (by simp [hst]) (by rw [hlocal.state_self, ht])
  rw [hlocal.state_self] at hnew
  refine ⟨a, h.harmless hok hstatic hi hall hlocal (r.cluster.queue i) (by simp) ?_ ?_ (by simp)
    fun hlocal' p k x => ?_⟩
  · rw [ht]
    exact ⟨hblank.view, hblank.op, hblank.log, by simp, hblank.votes, hblank.commit,
      fun _ m hm => by cases hm⟩
  · exact forall_message_singleton rfl ⟨⟨hmem, rfl⟩, by simp [recoveryMessage]⟩
  · refine hlocal'.answers_recovery hrefines.static (hmem.trans_le hsmall) ?_ ?_ ?_ hnew p k x
      (hrefines.counts.answers p k x)
    · rw [state_of_lost hi]
      exact .rfl' s
    · rw [ht]
      exact h.static.id i
    · exact Or.inl (by rw [state_of_lost hi])

/-- It is the primary of view 0 and says what it knows to be committed there. -/
theorem lost_beats (hi : r.lost i = some s) (hst : (r.cluster.state i).status = .normal)
    (hlocal : r.cluster.Local r'.cluster i (r.cluster.state i) (r.cluster.queue i)
      [.broadcast (commitMessage (r.cluster.state i))]) : ∃ a', Remembers f r' a' := by
  have hrefines := h.safe.refines
  have hblank := (h.lost i s hi).2
  have hall := lost_of_local hlost hev hlocal fun hrec => by simp [hst] at hrec
  have hmeaning : Meaning f a i (commitMessage (r.cluster.state i)) := by
    refine ⟨hrefines.lt hlocal.lt, ?_⟩
    simpa [commitMessage, hblank.view] using ⟨⟨[], hrefines.inv.base_zero⟩, hblank.commit⟩
  refine ⟨a, h.harmless hok hstatic hi hall hlocal [] rfl hblank ?_ (by simp) fun hlocal' => ?_⟩
  · exact forall_message_singleton rfl ⟨hmeaning, by simp [commitMessage]⟩
  · exact hrefines.counts.answers_of_local hlocal' [] rfl
      (forall_message_singleton rfl (by simp [commitMessage]))
      (Or.inl (by rw [state_of_lost hi]))

theorem moves (hsmall : 2 * f + 1 ≤ 2 ^ 8) (hmoves : r.cluster.Moves ev r'.cluster) :
    ∃ a', Remembers f r' a' := by
  cases hmoves with
  | quiet hsize hstate htrace hmem hcount =>
      have hall : r'.lost = r.lost := by
        funext j
        exact lost_of_same hlost (by simp [hev]) (hstate j)
      exact h.ordinary hsmall hok (.quiet hsize
        (fun j => by rw [state_restored, state_restored, hall, hstate]) htrace hmem hcount) hstatic
        hsize hall (fun j _ _ => hstate j) (by simp [hev])
  | duplicate k hdup => exact absurd hok.once (by simp [hdup, Event.isDuplicate])
  | act i env htick im rest s' effs hqueue hstale hacts hlocal =>
      cases hi : r.lost i with
      | none =>
          exact h.kept_acts hok hstatic hev hlost hsmall hi hlocal fun hsame hlocal' =>
            .act i env htick im rest s' effs hqueue (hsame ▸ hstale) (hsame ▸ hacts) hlocal'
      | some s =>
          exact h.lost_acts hok hstatic hev hlost hi htick hqueue hstale hacts hlocal
  | enterView i s' hst hs' hlocal =>
      cases hi : r.lost i with
      | none =>
          exact h.kept_acts hok hstatic hev hlost hsmall hi hlocal fun hsame hlocal' =>
            .enterView i s' (hsame ▸ hst) (hsame ▸ hs') hlocal'
      | some s =>
          have := hok.silent_of_local hlocal (by rw [hi]; rfl) _ (List.mem_singleton_self _)
          simp [Effect.speaksForLog, Effect.message?, VsrMessage.speaksForLog,
            startViewChangeMessage] at this
  | enterRecovery i stuck rest nonce s' hst hqueue hcan haction hs' hlocal =>
      cases hi : r.lost i with
      | none =>
          exact h.kept_acts hok hstatic hev hlost hsmall hi hlocal fun hsame hlocal' =>
            .enterRecovery i stuck rest nonce s' (hsame ▸ hst) hqueue (nodes_restored hi ▸ hcan)
              (hsame ▸ haction) (hsame ▸ hs') hlocal'
      | some s => exact h.lost_asks hok hstatic hev hlost hsmall hi hst hs' hlocal
  | heartbeat i hst hprimary hlocal =>
      cases hi : r.lost i with
      | none =>
          exact h.kept_acts hok hstatic hev hlost hsmall hi hlocal fun hsame hlocal' =>
            .heartbeat i (hsame ▸ hst) (hsame ▸ hprimary) (by rw [hsame]; exact hlocal')
      | some s => exact h.lost_beats hok hstatic hev hlost hi hst hlocal
  | restart i hrestart => simp [hrestart, Event.restarted?] at hev

end

theorem step (hsmall : 2 * f + 1 ≤ 2 ^ 8) (hstep : r.step ev = some r') (hok : Careful r ev r') :
    ∃ a', Remembers f r' a' := by
  obtain ⟨hcluster, hlost⟩ := of_step hstep
  cases hev : ev.restarted? with
  | none =>
      exact h.moves hok (Cluster.static_step h.static hcluster) hev hlost hsmall
        (Cluster.step_moves h.static hcluster)
  | some i =>
      obtain rfl : ev = .restart i := by
        cases ev <;> simp [Event.restarted?] at hev
        rw [hev]
      exact h.restarts hsmall hok hcluster hlost

end

end Remembers

/-! ## Runs -/

theorem remembers_init (f : Nat) :
    Remembers f (.init (2 * f + 1)) (Viewstamped.initial {}) where
  safe := safe_init f
  static := Cluster.static_init _
  lost i s h := by cases h

/-- Agreement where replicas restart with a log, but recover before they speak for one. -/
theorem agreement_of_careful (f : Nat) (hsmall : 2 * f + 1 ≤ 256) {r : Forgetful}
    (run : Forgetful.Run (.init (2 * f + 1)) r) :
    r.cluster.ExecutionsAgree ∧ r.cluster.ExecutionsHeld := by
  obtain ⟨a, h⟩ : ∃ a, Remembers f r a := by
    refine run.invariant (I := fun r => ∃ a, Remembers f r a) ⟨_, remembers_init f⟩ ?_
    rintro u ev v - hstep hok ⟨a, h⟩
    exact h.step hsmall hstep hok
  refine ⟨h.safe.executionsAgree, ?_⟩
  intro i v n e res j hexec hj hst hlt
  cases hlost : r.lost j with
  | none =>
      have hsame := Forgetful.state_of_kept hlost
      have hheld := h.safe.executionsHeld i v n e res j hexec hj
      rw [hsame] at hheld
      exact hheld hst hlt
  | some s =>
      -- it is in view 0, and there is no earlier one
      rw [(h.lost j s hlost).2.view] at hlt
      exact absurd hlt (Nat.not_lt_zero v)

/-- Replica 1 acknowledges op 1, which replica 0 executes, and restarts. It misses op 2,
recovers from replicas 0 and 2, and leads view 1. -/
def forgottenThenRecovered : List Event :=
  request 0 7 (setRequest 1 1 [97, 32, 98]) ++ receive 0 1 ++ receive 1 0 ++ [.restart 1]
    ++ request 0 8 (setRequest 2 1 [97, 32, 98]) ++ [.deliver 1] ++ process 1 1 ++ receive 2 0
    ++ receive 2 2 ++ receive 2 1 ++ receive 2 1 ++ [.timeout 1, .timeout 2] ++ receive 5 1
    ++ receive 3 2 ++ receive 4 1

theorem agreement_after_forgetting :
    ∃ r, Forgetful.Run (.init (2 * 1 + 1)) r
      ∧ ((∃ x ∈ r.cluster.executions, x.1 = 0 ∧ x.2.1 = 1)
        ∧ (∃ x ∈ r.cluster.executions, x.1 = 1 ∧ x.2.1 = 1)
        ∧ (r.cluster.state 1).status = .normal ∧ (r.cluster.state 1).view = 1)
      ∧ r.cluster.ExecutionsAgree ∧ r.cluster.ExecutionsHeld := by
  obtain ⟨r, run, h⟩ := exists_of_replay Forgetful.step Forgetful.Careful
    (Forgetful.init (2 * 1 + 1)) forgottenThenRecovered
    (P := fun r => (∃ x ∈ r.cluster.executions, x.1 = 0 ∧ x.2.1 = 1)
      ∧ (∃ x ∈ r.cluster.executions, x.1 = 1 ∧ x.2.1 = 1)
      ∧ (r.cluster.state 1).status = .normal ∧ (r.cluster.state 1).view = 1) (by decide +kernel)
  exact ⟨r, run, h, agreement_of_careful 1 (by norm_num) run⟩

/-- Where only replicas that have nothing yet restart, nothing is forgotten. -/
theorem forgetful_of_harmless {n : Nat} {c : Cluster}
    (run : Cluster.Run Cluster.HarmlessRestarts (Cluster.init n) c) :
    Forgetful.Run (.init n) ⟨c, fun _ => none⟩ := by
  refine run.invariant (I := fun c => Forgetful.Run (.init n) ⟨c, fun _ => none⟩) (.refl _) ?_
  intro u ev v _ hstep hok hrun
  obtain ⟨⟨honce, hrestart, hfresh, hrange⟩, hcovers⟩ := hok
  have hlost : Forgetful.lostAfter ⟨u, fun _ => none⟩ ev v = fun _ => none := by
    funext i
    unfold Forgetful.lostAfter
    split
    · rename_i hi
      rw [if_pos (hrestart i hi)]
    · rw [ite_self]
  refine hrun.tail (e := ev) ?_ ⟨honce, hfresh, hrange, (fun x _ hx => by cases hx), ?_⟩
  · rw [Forgetful.step, hstep, Option.map_some, hlost]
  · intro i hi im him hcompletes
    rcases hcovers with hthree | hcovers
    · exact Or.inl ⟨hthree, rfl⟩
    · exact Or.inr (hcovers i hi im him hcompletes)

end VsrKv
