import VsrKv.Commits
import VsrKv.LateMessages
import VsrKv.Quorums

/-!
# Does a primary count itself?

A primary commits an op once `f + 1` replicas are in the entry's set of
acknowledgements, and puts itself there when it logs a request. An entry
that reaches it with a log chosen in a view change has crossed the wire,
which carries no acknowledgements, and nobody adds the new primary's
own. It then takes `f + 1` backups to commit such an entry, and with one
replica down there are not as many (`adopted_entry_not_acked`).

Where a view change, and the recovery of a primary, adopts nothing that
is not committed (`AdoptsCommitted`), a primary does count itself, and
`f` backups are enough (`primaries_count_themselves`).
-/

namespace VsrKv

open Replica TransitionSystem
open Event (process receive request)

/-! ## Enough acknowledgements -/

/-- A primary is among the acknowledgements of every op it has yet to commit. -/
def SelfAcked (s : ReplicaState) : Prop :=
  s.status = .normal → s.isPrimary = true → ∀ n, s.commit < n → n ≤ s.op →
    ∃ e, s.log[n]? = some e ∧ s.id ∈ e.prepareOkAcks

/-- The backups that acknowledge op `k` in `oks`. -/
def ackedBy (id : Nat) (oks : List InboundMessage) (k : Nat) : Finset Nat :=
  ((oks.filter (·.message.header.op == k)).map (·.message.header.replica)).toFinset.erase id

/-- Whatever op it is about, once `f` backups have acknowledged it and all
before it, `advance_primary_commit_number` gets there. -/
def BackupsSuffice (r : Replica) : Prop :=
  ∀ (oks : List InboundMessage) (n : Nat), n ≤ r.state.op →
    (∀ k, r.state.commit < k → k ≤ n →
      r.state.faultToleranceF ≤ (ackedBy r.state.id oks k).card) →
    n ≤ ((oks.foldl handlePrepareOk r).advancePrimaryCommitNumber).state.commit

theorem advanceLoop_reaches {f op n : Nat} {log : Log} (hlog : GapFree log op)
    (hop : op < 2 ^ 64) (hn : n ≤ op) (fuel : Nat) {commit : Nat} (hcommit : commit < 2 ^ 64)
    (hfuel : n ≤ commit + fuel)
    (hacks : ∀ k, commit < k → k ≤ n →
      ∃ e, log[k]? = some e ∧ f + 1 ≤ e.prepareOkAcks.card) :
    n ≤ advanceLoop f log fuel commit := by
  induction fuel generalizing commit with
  | zero => exact hfuel
  | succ fuel ih =>
      by_cases hdone : n ≤ commit
      · exact hdone.trans (le_advanceLoop f hlog _ hcommit)
      · obtain ⟨e, he, hcard⟩ := hacks (commit + 1) (by omega) (by omega)
        have hnext : u64 (commit + 1) = commit + 1 := u64_eq (by omega)
        rw [advanceLoop, hnext]
        simp only [he]
        rw [if_neg (by omega)]
        refine ih (by omega) (by omega) ?_
        intro k hk hkn
        exact hacks k (by omega) hkn

/-- A primary that has handled the acknowledgements `oks`. -/
structure Handled (s₀ : ReplicaState) (oks : List InboundMessage) (s : ReplicaState) : Prop where
  id : s.id = s₀.id
  f : s.faultToleranceF = s₀.faultToleranceF
  view : s.view = s₀.view
  op : s.op = s₀.op
  log : GapFree s.log s.op
  range : s.commit < 2 ^ 64
  commit : s₀.commit ≤ s.commit
  acks : ∀ k e, s₀.log[k]? = some e → ∃ e', s.log[k]? = some e'
    ∧ e.prepareOkAcks ⊆ e'.prepareOkAcks
    ∧ ∀ im ∈ oks, im.message.header.op = k → im.message.header.replica ∈ e'.prepareOkAcks

theorem handlePrepareOk_cases {r : Replica} (hprimary : r.state.isPrimary = true)
    (im : InboundMessage) :
    r.state.log[im.message.header.op]? = none ∧ r.handlePrepareOk im = r
      ∨ ∃ e, r.state.log[im.message.header.op]? = some e
        ∧ SameExceptExecution
          (advanced (recordAck r.state im.message.header.op im.message.header.replica e))
          (r.handlePrepareOk im).state := by
  unfold handlePrepareOk
  simp only []
  split
  · rename_i hnone
    exact Or.inl ⟨hnone, rfl⟩
  · rename_i e he
    refine Or.inr ⟨e, he, ?_⟩
    unfold advancePrimaryCommitNumber
    simp only []
    split
    · obtain ⟨effs, -, hexec⟩ := executeCommitedOps_spec
        { r with
          state := advanced
            (recordAck r.state im.message.header.op im.message.header.replica e) }
      exact hexec.state
    · rename_i hnot
      exact absurd hprimary hnot

theorem Handled.prepareOk {s₀ : ReplicaState} {oks : List InboundMessage} {r : Replica}
    (h : Handled s₀ oks r.state) (hprimary : s₀.isPrimary = true) (im : InboundMessage) :
    Handled s₀ (oks ++ [im]) (r.handlePrepareOk im).state := by
  have hprimary' : r.state.isPrimary = true := by
    rw [ReplicaState.isPrimary, ReplicaState.getPrimaryId, h.id, h.view, h.f]
    exact hprimary
  rcases handlePrepareOk_cases hprimary' im with ⟨hnone, heq⟩ | ⟨e₁, he₁, hsame⟩
  · rw [heq]
    refine { h with acks := ?_ }
    intro k e he
    obtain ⟨e', he', hsub, hall⟩ := h.acks k e he
    refine ⟨e', he', hsub, forall_mem_append_singleton hall ?_⟩
    rintro rfl
    rw [hnone] at he'
    cases he'
  · obtain ⟨n, t, m, heq⟩ := hsame
    have hmem : im.message.header.op ∈ r.state.log := mem_of_logged he₁
    have hlog := h.log.insert_same hmem
      { e₁ with prepareOkAcks := insert im.message.header.replica e₁.prepareOkAcks }
    rw [heq]
    refine ⟨h.id, h.f, h.view, h.op, hlog, advanceLoop_lt _ _ _ _ h.range,
      h.commit.trans (le_advanceLoop _ hlog _ h.range), ?_⟩
    intro k e he
    obtain ⟨e', he', hsub, hall⟩ := h.acks k e he
    show ∃ e', (r.state.log.insert im.message.header.op _)[k]? = some e' ∧ _
    rw [Std.ExtTreeMap.getElem?_insert]
    by_cases hk : im.message.header.op = k
    · subst hk
      rw [he₁] at he'
      cases he'
      rw [if_pos Std.compare_self]
      refine ⟨_, rfl, hsub.trans (Finset.subset_insert _ _),
        forall_mem_append_singleton ?_ fun _ => Finset.mem_insert_self _ _⟩
      intro im' him' hop
      exact Finset.mem_insert_of_mem (hall im' him' hop)
    · rw [if_neg (by simpa using hk)]
      exact ⟨e', he', hsub, forall_mem_append_singleton hall fun h => absurd h hk⟩

theorem handled_foldl {s₀ : ReplicaState} (hprimary : s₀.isPrimary = true)
    (oks done : List InboundMessage) {r : Replica} (h : Handled s₀ done r.state) :
    Handled s₀ (done ++ oks) (oks.foldl handlePrepareOk r).state := by
  induction oks generalizing done r with
  | nil => simpa using h
  | cons im oks ih =>
      have := ih (done ++ [im]) (h.prepareOk hprimary im)
      simpa using this

theorem backupsSuffice_of_selfAcked {r : Replica} (hlog : GapFree r.state.log r.state.op)
    (hfits : Fits r.state) (hprimary : r.state.isPrimary = true)
    (hself : ∀ n, r.state.commit < n → n ≤ r.state.op →
      ∃ e, r.state.log[n]? = some e ∧ r.state.id ∈ e.prepareOkAcks) : BackupsSuffice r := by
  intro oks n hn hacks
  have h₀ : Handled r.state [] r.state :=
    ⟨rfl, rfl, rfl, rfl, hlog, hfits.commit, Nat.le_refl _,
      fun k e he => ⟨e, he, Finset.Subset.refl _, fun im him => by cases him⟩⟩
  have h : Handled r.state oks (oks.foldl handlePrepareOk r).state :=
    handled_foldl hprimary oks [] h₀
  have hprimary' : (oks.foldl handlePrepareOk r).state.isPrimary = true := by
    rw [ReplicaState.isPrimary, ReplicaState.getPrimaryId, h.id, h.view, h.f]
    exact hprimary
  have hreach : n ≤ advanceLoop (oks.foldl handlePrepareOk r).state.faultToleranceF
      (oks.foldl handlePrepareOk r).state.log (oks.foldl handlePrepareOk r).state.log.size
      (oks.foldl handlePrepareOk r).state.commit := by
    refine advanceLoop_reaches h.log (h.op ▸ hfits.op) (h.op ▸ hn) _ h.range ?_ ?_
    · rw [h.log.size_eq, h.op]
      omega
    · intro k hk hkn
      have hcommit := h.commit
      obtain ⟨e, he, hown⟩ := hself k (by omega) (by omega)
      obtain ⟨e', he', hsub, hall⟩ := h.acks k e he
      refine ⟨e', he', ?_⟩
      -- the primary itself and the backups that acknowledged `k`
      have hbackups : ackedBy r.state.id oks k ⊆ e'.prepareOkAcks.erase r.state.id := by
        refine Finset.erase_subset_erase _ ?_
        intro q hq
        obtain ⟨im, him, rfl⟩ := List.mem_map.mp (List.mem_toFinset.mp hq)
        obtain ⟨him, hop⟩ := List.mem_filter.mp him
        exact hall im him (by simpa using hop)
      have hcard := Finset.card_le_card hbackups
      rw [Finset.card_erase_of_mem (hsub hown)] at hcard
      have hpos : 0 < e'.prepareOkAcks.card := Finset.card_pos.mpr ⟨_, hsub hown⟩
      have henough := hacks k (by omega) hkn
      rw [h.f]
      omega
  unfold advancePrimaryCommitNumber
  simp only []
  rw [if_pos hprimary']
  obtain ⟨effs, -, hexec⟩ := executeCommitedOps_spec
    { oks.foldl handlePrepareOk r with state := advanced (oks.foldl handlePrepareOk r).state }
  obtain ⟨k, t, m, heq⟩ := hexec.state
  have hcommit := congrArg ReplicaState.commit heq
  exact hreach.trans hcommit.ge

/-! ## Handling a message -/

/-- What a replica adopts as a primary by handling `msg` is committed: of the
votes that complete a view change none reaches beyond the commit numbers known
by then, and neither does the response a recovery ends with, unless it leaves
the replica a backup. -/
def AdoptsCommitted (s : ReplicaState) (msg : VsrMessage) : Prop :=
  (checkCanProcessDoViewChange s msg = true → ∀ votes ∈ completingVotes? s msg, ∀ d ∈ votes,
      d.header.op ≤ votes.foldl (fun k d' => max k d'.header.commit) s.commit)
    ∧ (completesRecovery s msg = true →
      (bestResponse s msg).header.view % (2 * s.faultToleranceF + 1) ≠ s.id
        ∨ (bestResponse s msg).header.op ≤ (bestResponse s msg).header.commit)

instance (s : ReplicaState) (msg : VsrMessage) : Decidable (AdoptsCommitted s msg) :=
  inferInstanceAs (Decidable ((_ → ∀ votes ∈ completingVotes? s msg, _) ∧ (_ → _ ∨ _)))

/-- Every vote that decodes has its say in the commit number. -/
theorem selectLog_commit (u commit : Nat) {votes : List VsrMessage}
    (hvotes : ∀ d ∈ votes, CarriesVote d) :
    (selectLog u commit votes).commit
      = votes.foldl (fun k d => max k d.header.commit) commit := by
  have hfold : ∀ (rest : List VsrMessage) (best : LogChoice), (∀ d ∈ rest, CarriesVote d) →
      (rest.foldl (LogChoice.consider u) best).commit
        = rest.foldl (fun k d => max k d.header.commit) best.commit := by
    intro rest
    induction rest with
    | nil => intro best _; rfl
    | cons d rest ih =>
        intro best hrest
        have hconsider : (best.consider u d).commit = max best.commit d.header.commit := by
          obtain ⟨p, hp, -⟩ := hrest d (by simp) u
          unfold LogChoice.consider
          rw [hp]
          simp only []
          split
          · rfl
          · split <;> rfl
        rw [List.foldl_cons, List.foldl_cons,
          ih _ fun d' hd' => hrest d' (List.mem_cons_of_mem _ hd'), hconsider]
  cases votes with
  | nil => rfl
  | cons first rest => exact hfold rest _ fun d hd => hvotes d (List.mem_cons_of_mem _ hd)

/-- A state that adopts nothing beyond its commit number owes nobody an
acknowledgement. -/
theorem SelfAcked.of_le {s : ReplicaState} (h : s.op ≤ s.commit) : SelfAcked s := by
  intro _ _ n hn hn'
  omega

theorem SelfAcked.of_status {s : ReplicaState} (h : s.status ≠ .normal) : SelfAcked s :=
  fun hst => absurd hst h

theorem SelfAcked.of_backup {s : ReplicaState} (h : s.isPrimary = false) : SelfAcked s := by
  intro _ hprimary
  rw [h] at hprimary
  cases hprimary

section

variable {env : Env} {s s' : ReplicaState} {im : InboundMessage} {effs : List Effect}

theorem SelfAcked.of_executed (hexec : Executed s s' effs) (h : SelfAcked s) : SelfAcked s' := by
  obtain ⟨n, t, m, rfl⟩ := hexec.state
  exact h

theorem SelfAcked.appendEntry (h : SelfAcked s) (hop : s.op + 1 < 2 ^ 64) {e : LogEntry}
    (he : s.id ∈ e.prepareOkAcks) : SelfAcked (appendEntry s e) := by
  intro hst hprimary n hn hle
  show ∃ e', (s.log.insert (u64 (s.op + 1)) e)[n]? = some e' ∧ s.id ∈ e'.prepareOkAcks
  replace hle : n ≤ u64 (s.op + 1) := hle
  rw [u64_eq hop] at hle ⊢
  rw [Std.ExtTreeMap.getElem?_insert]
  by_cases hnew : s.op + 1 = n
  · rw [if_pos (by simpa using hnew)]
    exact ⟨e, rfl, he⟩
  · rw [if_neg (by simpa using hnew)]
    exact h hst hprimary n hn (by omega)

theorem SelfAcked.recordAck (h : SelfAcked s) {op backup : Nat} {e : LogEntry}
    (he : s.log[op]? = some e) : SelfAcked (recordAck s op backup e) := by
  intro hst hprimary n hn hle
  obtain ⟨e', he', hown⟩ := h hst hprimary n hn hle
  show ∃ e', (s.log.insert op _)[n]? = some e' ∧ s.id ∈ e'.prepareOkAcks
  rw [Std.ExtTreeMap.getElem?_insert]
  by_cases hn : op = n
  · subst hn
    rw [he] at he'
    cases he'
    rw [if_pos Std.compare_self]
    exact ⟨_, rfl, Finset.mem_insert_of_mem hown⟩
  · rw [if_neg (by simpa using hn)]
    exact ⟨e', he', hown⟩

theorem SelfAcked.advanced (h : SelfAcked s) (hlog : GapFree s.log s.op)
    (hcommit : s.commit < 2 ^ 64) : SelfAcked (advanced s) := by
  intro hst hprimary n hn hle
  exact h hst hprimary n ((le_advanceLoop _ hlog _ hcommit).trans_lt hn) hle

/-- The position a new primary takes over at, when nothing it chooses from is
uncommitted. -/
theorem selectLog_op_le {votes : List VsrMessage} {u commit : Nat} (hne : votes ≠ [])
    (hcarries : ∀ d ∈ votes, CarriesVote d)
    (hle : ∀ d ∈ votes, d.header.op ≤ votes.foldl (fun k d' => max k d'.header.commit) commit) :
    (selectLog u commit votes).op ≤ (selectLog u commit votes).commit := by
  obtain ⟨d, hd, hop, -⟩ := (selectLog_chosenFrom u commit hne).vote
  rw [hop, selectLog_commit u commit hcarries]
  exact hle d hd

theorem CollectsVote.canProcess {s₁ : ReplicaState} {d : VsrMessage}
    (h : CollectsVote s im s₁ d) : checkCanProcessDoViewChange s im.message = true := by
  cases h with
  | received hcmd hview hst hprimary =>
      simp [checkCanProcessDoViewChange, hview, hst, hprimary]
  | own hcmd hview hst hquorum hprimary =>
      simp [checkCanProcessDoViewChange, hview, hst, hprimary]

theorem CollectsVote.completing {s₁ : ReplicaState} {d : VsrMessage}
    (h : CollectsVote s im s₁ d)
    (hquorum : s.faultToleranceF + 1 ≤ (s₁.doViewChangeReceived ++ [d]).length) :
    completingVotes? s im.message = some (s₁.doViewChangeReceived ++ [d]) := by
  cases h with
  | received hcmd =>
      simp only [completingVotes?, collectedVote?, if_pos hcmd, Option.bind_some, if_pos hquorum]
  | own hcmd hview hst hcard hprimary =>
      have hne : ¬im.message.header.command = .doViewChange := by simp [hcmd]
      have hbuilt : builtVote? s im.message
          = some (doViewChangeMessage { s with startViewChangeReceived := ∅ }) :=
        if_pos ⟨hcmd, hcard⟩
      simp only [completingVotes?, collectedVote?, if_neg hne, if_pos hprimary, hbuilt,
        Option.bind_some]
      exact if_pos hquorum

theorem SelfAcked.acts (h : SelfAcked s) (hwhole : Whole s) (hfits : Fits s)
    (him : Intact im.message) (hops : logsEntry s im.message = true → s.op + 1 < 2 ^ 64)
    (hstale : Node.isStale s im.message = false) (hadopts : AdoptsCommitted s im.message)
    (hother : im.message.header.command = .startView →
      im.message.header.view % (2 * s.faultToleranceF + 1) ≠ s.id)
    (hacts : Acts env s im s' effs) : SelfAcked s' := by
  cases hacts with
  | propose hcmd hst hprimary hnew =>
      have htouched : SelfAcked (touched s im.message.header.client) := h
      refine htouched.appendEntry (hops ?_) (Finset.mem_singleton_self s.id)
      simp [logsEntry, takesForNew, checkCanProcessRequest, hcmd, hst, hprimary, hnew]
  | accept _ _ _ _ hprimary _ _ hexec => exact .of_executed hexec (.of_backup hprimary)
  | acknowledge entry _ _ _ _ _ _ hentry hexec =>
      have hmem : im.message.header.op ∈ s.log := mem_of_logged hentry
      exact .of_executed hexec ((h.recordAck hentry).advanced
        (hwhole.log.insert_same hmem _) hfits.commit)
  | learn _ _ _ _ hprimary _ hexec => exact .of_executed hexec (.of_backup hprimary)
  | join hcmd hview hst => exact .of_status (by simp [hst])
  | vote p hcmd hview hst => exact .of_status (by simp [hst])
  | discard hcmd hview hst => exact .of_status (by simp [hst])
  | collect s₁ d hcollect =>
      refine .of_status ?_
      have hst := hcollect.status
      cases hcollect <;> simp [hst]
  | startView s₁ d hcollect hquorum best hbest _ _ hexec =>
      obtain ⟨h₁, hd⟩ := hwhole.collects hfits him hcollect
      refine .of_executed hexec (.of_le ?_)
      rw [hbest]
      exact selectLog_op_le (by simp) (forall_mem_append_singleton h₁.votes hd)
        (hadopts.1 hcollect.canProcess _ (hcollect.completing hquorum))
  | adopt payload _ _ hcmd _ _ _ _ hexec =>
      refine .of_executed hexec (.of_backup ?_)
      simpa [ReplicaState.isPrimary, ReplicaState.getPrimaryId, adoptedState] using
        fun heq => hother hcmd (Eq.symm heq)
  | recover payload hcmd hst hpayload hnonce first rest hlist hquorum s₁ _ hexec =>
      have hrecovered : SelfAcked s₁ := by
        refine .of_executed hexec ?_
        have hbest := hadopts.2
          (completesRecovery_of_recover hcmd hst hstale hpayload hnonce hlist hquorum)
        rw [bestResponse_eq hlist] at hbest
        rcases hbest with hbackup | hle
        · refine .of_backup ?_
          simpa [ReplicaState.isPrimary, ReplicaState.getPrimaryId, adoptResponse] using
            fun heq => hbackup (Eq.symm heq)
        · exact .of_le hle
      exact hrecovered
  | _ => exact h

end

/-! ## Along a run -/

namespace Cluster

variable {c c' : Cluster} {ev : Event} {i : Nat}

/-- Op numbers fit, and what is adopted by a primary is committed. -/
structure NothingUncommitted (c : Cluster) (ev : Event) (c' : Cluster) : Prop where
  ops : OpsFit c ev c'
  adopts : ∀ i ∈ ev.ticked?, ∀ im ∈ (c.queue i).head?, AdoptsCommitted (c.state i) im.message

instance (c : Cluster) (ev : Event) (c' : Cluster) : Decidable (NothingUncommitted c ev c') :=
  decidable_of_iff
    (OpsFit c ev c'
      ∧ ∀ i ∈ ev.ticked?, ∀ im ∈ (c.queue i).head?, AdoptsCommitted (c.state i) im.message)
    ⟨fun ⟨h₁, h₂⟩ => ⟨h₁, h₂⟩, fun h => ⟨h.ops, h.adopts⟩⟩

/-- A `StartView` is not on its way to the primary of its view. -/
def StartsFromOthers (c : Cluster) : Prop :=
  ∀ j, ∀ im ∈ c.pend j, im.message.header.command = .startView →
    im.message.header.view % c.size ≠ j

theorem Local.startsFromOthers {env : Env} {im : InboundMessage} {s' : ReplicaState}
    {q' : List InboundMessage} {effs : List Effect} (hstatic : Static c)
    (hlocal : Local c c' i s' q' effs) (hacts : Acts env (c.state i) im s' effs) {j : Nat}
    {im' : InboundMessage} (him : im' ∈ mail i (peers s') effs j)
    (hcmd : im'.message.header.command = .startView) :
    im'.message.header.view % c.size ≠ j := by
  obtain ⟨eff, heff, hm, hpacket⟩ := mem_mail him
  cases hacts.logCarrier eff heff _ hm with
  | plain hplain => exact absurd hcmd hplain.2.1
  | vote p heq hmsg => rw [hmsg] at hcmd; simp [doViewChangeMessage] at hcmd
  | response p nonce heq hmsg => rw [hmsg] at hcmd; simp [recoveryResponseMessage] at hcmd
  | start s₁ d hcollect hprimary heq hmsg =>
      have hview : s₁.view = (c.state i).view := by cases hcollect <;> rfl
      have hpos : 0 < c.size := Nat.zero_lt_of_lt hlocal.lt
      rw [hstatic.getPrimaryIdForView hpos, hstatic.id] at hprimary
      -- it is broadcast by the primary of its view, and a broadcast leaves out the sender
      have hj : j ∈ peers s' := by
        rw [heq] at hpacket
        obtain ⟨id, hid, hpair⟩ := List.mem_map.mp hpacket
        obtain rfl : id = j := congrArg Packet.dst hpair
        exact hid
      have hne : j ≠ i := by
        rw [hacts.sameConfig.peers_eq] at hj
        exact (hstatic.mem_peers.mp hj).2
      rw [hmsg]
      show s₁.view % c.size ≠ j
      rw [hview, Option.some.inj hprimary]
      exact hne.symm

theorem StartsFromOthers.step (h : StartsFromOthers c) (hstatic : Static c)
    (hmoves : Moves c ev c') : StartsFromOthers c' := by
  intro j im him hcmd
  rw [hmoves.size]
  cases hmoves with
  | quiet _ _ _ hmem =>
      rcases hmem j im him with him | ⟨-, hclient⟩
      · exact h j im him hcmd
      · rcases command_of_client hclient with hclient | hclient <;> simp [hclient] at hcmd
  | duplicate _ _ _ _ _ hmem => exact h j im (hmem j im him) hcmd
  | act i env hev im' rest s' effs hqueue hstale hacts hlocal =>
      rcases hlocal.mem_pend (by rw [hqueue]; exact List.subset_cons_self _ _) him with him | him
      · exact h j im him hcmd
      · exact hlocal.startsFromOthers hstatic hacts him hcmd
  | enterView i s' hst hs' hlocal =>
      rcases hlocal.mem_pend (List.Subset.refl _) him with him | him
      · exact h j im him hcmd
      · obtain ⟨eff, heff, hm, -⟩ := mem_mail him
        obtain rfl := List.mem_singleton.mp heff
        rw [← Option.some.inj hm] at hcmd
        simp [startViewChangeMessage] at hcmd
  | enterRecovery i stuck rest nonce s' hst hqueue hcan haction hs' hlocal =>
      rcases hlocal.mem_pend (List.nil_subset _) him with him | him
      · exact h j im him hcmd
      · obtain ⟨eff, heff, hm, -⟩ := mem_mail him
        obtain rfl := List.mem_singleton.mp heff
        rw [← Option.some.inj hm] at hcmd
        simp [recoveryMessage] at hcmd
  | heartbeat i hst hprimary hlocal =>
      rcases hlocal.mem_pend (List.Subset.refl _) him with him | him
      · exact h j im him hcmd
      · obtain ⟨eff, heff, hm, -⟩ := mem_mail him
        obtain rfl := List.mem_singleton.mp heff
        rw [← Option.some.inj hm] at hcmd
        simp [commitMessage] at hcmd
  | restart i _ _ _ _ _ _ hpend =>
      rw [hpend] at him
      split at him
      · cases him
      · exact h j im him hcmd

structure CountsItself (c : Cluster) : Prop where
  static : Static c
  odd : c.size = 2 * ((c.size - 1) / 2) + 1
  gapless : Gapless c
  others : StartsFromOthers c
  acked : ∀ i, SelfAcked (c.state i)

theorem countsItself_init (f : Nat) : CountsItself (init (2 * f + 1)) where
  static := static_init _
  odd := by
    show 2 * f + 1 = 2 * ((2 * f + 1 - 1) / 2) + 1
    omega
  gapless := gapless_init _
  others j im him := by simp [pend, netFor, queue, init, freshNode] at him
  acked i := .of_le (Nat.le_refl 0)

theorem CountsItself.act {env : Env} {im : InboundMessage} {rest : List InboundMessage}
    {s' : ReplicaState} {effs : List Effect} (h : CountsItself c)
    (hev : ev = .tick i env) (hqueue : c.queue i = im :: rest)
    (hstale : Node.isStale (c.state i) im.message = false)
    (hacts : Acts env (c.state i) im s' effs) (hok : NothingUncommitted c ev c') :
    SelfAcked s' := by
  have hticked : i ∈ ev.ticked? := by rw [hev]; rfl
  have hhead : im ∈ (c.queue i).head? := by rw [hqueue]; rfl
  have hother : im.message.header.command = .startView →
      im.message.header.view % (2 * (c.state i).faultToleranceF + 1) ≠ (c.state i).id := by
    intro hcmd
    rw [h.static.f, ← h.odd, h.static.id]
    exact h.others i im (by simp [pend, hqueue]) hcmd
  exact (h.acked i).acts (h.gapless.states i) (h.gapless.bounded.states i)
    (h.gapless.head hqueue) (hok.ops i hticked im hhead) hstale
    (hok.adopts i hticked im hhead) hother hacts

theorem CountsItself.step (h : CountsItself c) (hstep : c.step ev = some c')
    (hok : NothingUncommitted c ev c') : CountsItself c' := by
  have hmoves := step_moves h.static hstep
  refine ⟨static_step h.static hstep, hmoves.size ▸ h.odd, h.gapless.step hmoves hok.ops,
    h.others.step h.static hmoves, ?_⟩
  intro j
  have hchanges := hmoves.changes j
  generalize c'.state j = s' at hchanges ⊢
  cases hchanges with
  | same => exact h.acked j
  | act env im rest _ effs hlt hev hqueue hstale hacts => exact h.act hev hqueue hstale hacts hok
  | enterView => exact .of_status (by simp [ReplicaState.enterNewView])
  | enterRecovery => exact .of_status (by simp)
  | restart => exact .of_le (Nat.le_refl 0)

/-- Where primaries adopt nothing uncommitted, each of them is among the
acknowledgements of every op it has yet to commit, and `f` backups complete
them. -/
theorem primaries_count_themselves (f : Nat)
    (run : Run NothingUncommitted (init (2 * f + 1)) c)
    (hst : (c.state i).status = .normal) (hprimary : (c.state i).isPrimary = true) :
    (∀ n, (c.state i).commit < n → n ≤ (c.state i).op →
        ∃ e, (c.state i).log[n]? = some e ∧ i ∈ e.prepareOkAcks)
      ∧ BackupsSuffice (c.nodes i).replica := by
  have h : CountsItself c := run.invariant (countsItself_init f)
    fun _ _ _ _ hstep hok h => h.step hstep hok
  have hacked := h.acked i hst hprimary
  refine ⟨?_, backupsSuffice_of_selfAcked (h.gapless.states i).log (h.gapless.bounded.states i)
    hprimary hacked⟩
  intro n hn hle
  obtain ⟨e, he, hown⟩ := hacked n hn hle
  exact ⟨e, he, h.static.id i ▸ hown⟩

/-- After an uneventful change to view 1, its primary logs a request. -/
theorem primaries_count_themselves_in_view_one :
    ∃ c, Run NothingUncommitted (init (2 * 1 + 1)) c
      ∧ ((c.state 1).status = .normal ∧ (c.state 1).isPrimary = true ∧ (c.state 1).view = 1
        ∧ (c.state 1).op = 1)
      ∧ BackupsSuffice (c.nodes 1).replica := by
  obtain ⟨c, run, h⟩ := exists_of_replay step NothingUncommitted (init (2 * 1 + 1))
    (changedView ++ request 1 7 (setRequest 1 1 [97, 32, 98]))
    (P := fun c => (c.state 1).status = .normal ∧ (c.state 1).isPrimary = true
      ∧ (c.state 1).view = 1 ∧ (c.state 1).op = 1) (by decide +kernel)
  exact ⟨c, run, h, (primaries_count_themselves 1 run h.1 h.2.1).2⟩

/-- Replica 1 takes over a request that replica 0 has logged and sent it. Its
own acknowledgement is missing, and that of replica 2 alone does not commit
the request. -/
theorem adopted_entry_not_acked :
    ∃ c, Run NoRestarts (init (2 * 1 + 1)) c
      ∧ (c.state 1).status = .normal ∧ (c.state 1).isPrimary = true
      ∧ (c.state 1).commit < 1 ∧ 1 ≤ (c.state 1).op
      ∧ (∀ e ∈ (c.state 1).log[1]?, 1 ∉ e.prepareOkAcks)
      ∧ ((c.nodes 1).replica.handlePrepareOk
          ⟨.peer 2, prepareOkMessage { c.state 2 with view := 1 } 1⟩).state.commit = 0 := by
  obtain ⟨c, run, h⟩ := exists_of_replay step NoRestarts (init (2 * 1 + 1))
    (request 0 7 (setRequest 1 1 [97, 32, 98]) ++ receive 0 1 ++ [.timeout 1, .timeout 2]
      ++ receive 5 1 ++ receive 3 2 ++ receive 4 1)
    (P := fun c => (c.state 1).status = .normal ∧ (c.state 1).isPrimary = true
      ∧ (c.state 1).commit < 1 ∧ 1 ≤ (c.state 1).op
      ∧ (∀ e ∈ (c.state 1).log[1]?, 1 ∉ e.prepareOkAcks)
      ∧ ((c.nodes 1).replica.handlePrepareOk
          ⟨.peer 2, prepareOkMessage { c.state 2 with view := 1 } 1⟩).state.commit = 0)
    (by decide +kernel)
  exact ⟨c, run, h⟩

end Cluster

end VsrKv
