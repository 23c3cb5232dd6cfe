import VsrKv.FrameLimit
import VsrKv.Ledger

/-!
# A view change among replicas that agree

Replicas that hold the same ledger leave a view, vote for the next with
the log they have, and enter it with the same ledger. The log a new
primary selects is one of those it was sent, and they all say the same;
what it does not take over from anybody, it has executed already. A
backup that adopts the log finds nothing in it that it has not executed
and no request that its client table does not know.
-/

namespace VsrKv

open Replica

/-! ## The size of a log -/

/-- The bytes that the entries take up in a message. -/
def Ledger.bytes (b : Ledger) : Nat := (b.entries.map fun e => 41 + e.payload.length).sum

theorem Represents.logSize {log : Log} {k : Nat} {l : List LogEntry} (h : Represents log k l) :
    logSize log = 8 + (l.map fun e => 41 + e.payload.length).sum := by
  have hperm : (log.toList.map fun p => (p.2.strip, p.1)).Perm (l.zipIdx 1) := by
    refine (List.perm_ext_iff_of_nodup ?_ ?_).mpr ?_
    · refine .of_map Prod.snd ?_
      rw [List.map_map]
      exact List.pairwise_map.mpr (Std.ExtTreeMap.distinct_keys_toList.imp fun hne heq =>
        hne (by simpa using heq))
    · refine .of_map Prod.snd ?_
      rw [List.zipIdx_map_snd]
      exact List.nodup_range'
    · rintro ⟨e, n⟩
      rw [List.mk_mem_zipIdx_iff_le_and_getElem?_sub]
      have hentry : (1 ≤ n ∧ l[n - 1]? = some e) ↔ entryAt l n = some e := by
        cases n <;> simp [entryAt]
      rw [hentry, ← h.get]
      simp [Std.ExtTreeMap.mem_toList_iff_getElem?_eq_some]
  have hsum := (hperm.map fun p => 41 + p.1.payload.length).sum_eq
  have hfst : (l.zipIdx 1).map (fun p => 41 + p.1.payload.length)
      = l.map fun e => 41 + e.payload.length := by
    conv_rhs => rw [← List.zipIdx_map_fst 1 l]
    rw [List.map_map]
    rfl
  rw [List.map_map, hfst] at hsum
  exact congrArg (8 + ·) hsum

/-! ## What is on its way -/

structure IsStartViewChange (v j : Nat) (m : VsrMessage) : Prop where
  command : m.header.command = .startViewChange
  view : m.header.view = v + 1
  replica : m.header.replica = j

/-- A vote for the view after `v`, with the ledger for a log. -/
structure IsVote (v : Nat) (b : Ledger) (m : VsrMessage) : Prop where
  command : m.header.command = .doViewChange
  view : m.header.view = v + 1
  op : m.header.op = b.entries.length
  commit : m.header.commit = b.entries.length
  log : ∃ log, Decodes v m log ∧ Represents log b.entries.length b.entries

structure IsStartView (v q : Nat) (b : Ledger) (m : VsrMessage) : Prop where
  command : m.header.command = .startView
  view : m.header.view = v
  replica : m.header.replica = q
  op : m.header.op = b.entries.length
  commit : m.header.commit = b.entries.length
  log : ∃ log, StartViewPayload.deserialize m.payload {} = (true, { log })
    ∧ Represents log b.entries.length b.entries

/-! ## Between two views -/

/-- A replica on its way from view `v` to the next. It has heard of the replicas in
`wanted` that they want it as well, and has `votes`. -/
structure Changing (s : ReplicaState) (v : Nat) (b : Ledger) (wanted : Finset Nat)
    (votes : List VsrMessage) : Prop where
  status : s.status = .viewChange
  view : s.view = v + 1
  lastNormal : s.lastNormalView = v
  holds : HoldsLedger s b
  wanted : s.startViewChangeReceived = wanted
  votes : s.doViewChangeReceived = votes

section

variable {s : ReplicaState} {r : Replica} {v q : Nat} {b : Ledger} {wanted : Finset Nat}
  {votes : List VsrMessage} {im : InboundMessage}

/-- Execution has nothing to do. -/
theorem HoldsLedger.executeCommitedOps_eq (h : HoldsLedger r.state b) :
    r.executeCommitedOps = r := by
  rw [executeCommitedOps, h.commit, h.executed, Nat.sub_self, executeLoop]

theorem checkPrimaryLiveness_changes (h : Settled r.state v b)
    (hbackup : r.state.isPrimary = false) (hv : v + 1 < 2 ^ 32) :
    Changing r.checkPrimaryLiveness.state v b {r.state.id} []
      ∧ r.checkPrimaryLiveness.out
        = r.out ++ [.broadcast (startViewChangeMessage r.checkPrimaryLiveness.state)] := by
  have hfires : r.checkPrimaryLiveness = r.initiateViewChange := by
    rw [checkPrimaryLiveness, hbackup, h.status]
    rfl
  rw [hfires]
  refine ⟨⟨rfl, ?_, ?_, ⟨h.holds.log, h.holds.commit, h.holds.executed, h.holds.machine,
    h.holds.last⟩, rfl, rfl⟩, rfl⟩
  · show u32 (r.state.view + 1) = v + 1
    rw [h.view, u32_eq hv]
  · show (if r.state.status = .normal then r.state.view else r.state.lastNormalView) = v
    rw [if_pos h.status, h.view]

/-- One more replica wants the view change, and they are not enough yet. -/
theorem handleStartViewChange_short (env : Env) (h : Changing r.state v b wanted votes)
    (im : InboundMessage)
    (hshort : (insert im.message.header.replica wanted).card < r.state.faultToleranceF + 1) :
    Changing (r.handleStartViewChange env im).state v b
        (insert im.message.header.replica wanted) votes
      ∧ (r.handleStartViewChange env im).out = r.out := by
  have hstep : r.handleStartViewChange env im = { r with state := { r.state with
      startViewChangeReceived := insert im.message.header.replica wanted } } := by
    unfold handleStartViewChange
    simp only [h.wanted]
    rw [if_neg (Nat.not_le.mpr hshort)]
  rw [hstep]
  exact ⟨⟨h.status, h.view, h.lastNormal, ⟨h.holds.log, h.holds.commit, h.holds.executed,
    h.holds.machine, h.holds.last⟩, rfl, h.votes⟩, rfl⟩

theorem Changing.logSize (h : Changing s v b wanted votes) : logSize s.log = 8 + b.bytes :=
  h.holds.log.logSize

/-- The vote a replica casts is the ledger's. -/
theorem Changing.isVote (h : Changing s v b wanted votes) (hfits : Fits s) :
    IsVote v b (doViewChangeMessage { s with startViewChangeReceived := ∅ }) := by
  have hlog := h.holds.log
  refine ⟨rfl, h.view, h.holds.op, h.holds.commit.trans h.holds.op, stripLog s.log, fun n => ?_,
    h.holds.op ▸ hlog.strip⟩
  have hround := DoViewChangePayload.deserialize_serialize
    (p := { lastNormalView := s.lastNormalView, log := s.log }) hfits.lastNormalView
    (hlog.gapFree.inRange hfits.op hfits.log) n
  rw [h.lastNormal] at hround
  rw [← hround, ← h.lastNormal]
  rfl

theorem Changing.spend (h : Changing s v b wanted votes) :
    Changing { s with startViewChangeReceived := ∅ } v b ∅ votes :=
  ⟨h.status, h.view, h.lastNormal, ⟨h.holds.log, h.holds.commit, h.holds.executed,
    h.holds.machine, h.holds.last⟩, rfl, h.votes⟩

/-- They are enough, and the vote goes to the new primary. -/
theorem handleStartViewChange_votes (env : Env) (h : Changing r.state v b wanted votes)
    (hcmd : im.message.header.command = .startViewChange)
    (hquorum : r.state.faultToleranceF + 1 ≤ (insert im.message.header.replica wanted).card)
    (hprimary : r.state.getPrimaryIdForView r.state.view = some q) (hne : q ≠ r.state.id) :
    Changing (r.handleStartViewChange env im).state v b ∅ votes
      ∧ (r.handleStartViewChange env im).out = r.out
        ++ [.toPeer q (doViewChangeMessage { r.state with startViewChangeReceived := ∅ })] := by
  have hvote : builtVote? r.state im.message
      = some (doViewChangeMessage { r.state with startViewChangeReceived := ∅ }) :=
    if_pos ⟨hcmd, by rw [h.wanted]; exact hquorum⟩
  have hprimary' : ReplicaState.getPrimaryIdForView
      { r.state with startViewChangeReceived := ∅ } r.state.view = some q := hprimary
  rw [handleStartViewChange_eq env r hcmd, hvote]
  simp only [hprimary', if_neg hne]
  exact ⟨h.spend, rfl⟩

/-- A vote is put with the others, which are not enough yet. -/
theorem handleDoViewChange_short (env : Env) (h : Changing r.state v b wanted votes)
    (im : InboundMessage) (hshort : votes.length < r.state.faultToleranceF) :
    Changing (r.handleDoViewChange env im).state v b wanted (votes ++ [im.message])
      ∧ (r.handleDoViewChange env im).out = r.out := by
  have hstep : r.handleDoViewChange env im = { r with state := { r.state with
      doViewChangeReceived := votes ++ [im.message] } } := by
    unfold handleDoViewChange
    simp only [h.votes]
    rw [if_neg (by rw [List.length_append, List.length_singleton]; omega)]
  rw [hstep]
  exact ⟨⟨h.status, h.view, h.lastNormal, ⟨h.holds.log, h.holds.commit, h.holds.executed,
    h.holds.machine, h.holds.last⟩, h.wanted, rfl⟩, rfl⟩

/-- The new primary keeps its own vote. -/
theorem handleStartViewChange_keeps (env : Env) (h : Changing r.state v b wanted [])
    (hcmd : im.message.header.command = .startViewChange)
    (hquorum : r.state.faultToleranceF + 1 ≤ (insert im.message.header.replica wanted).card)
    (hprimary : r.state.getPrimaryIdForView r.state.view = some r.state.id)
    (hpos : 0 < r.state.faultToleranceF) :
    Changing (r.handleStartViewChange env im).state v b ∅
        [doViewChangeMessage { r.state with startViewChangeReceived := ∅ }]
      ∧ (r.handleStartViewChange env im).out = r.out := by
  have hvote : builtVote? r.state im.message
      = some (doViewChangeMessage { r.state with startViewChangeReceived := ∅ }) :=
    if_pos ⟨hcmd, by rw [h.wanted]; exact hquorum⟩
  have hprimary' : ReplicaState.getPrimaryIdForView
      { r.state with startViewChangeReceived := ∅ } r.state.view = some r.state.id := hprimary
  rw [handleStartViewChange_eq env r hcmd, hvote]
  simp only [hprimary', if_true]
  exact handleDoViewChange_short env (r := { r with state := { r.state with
    startViewChangeReceived := ∅ } }) h.spend ⟨.null, _⟩ hpos

/-! ## Into the new view -/

/-- What is selected among votes that agree. -/
theorem selectLog_agreed {u commit : Nat} (hne : votes ≠ []) (hvotes : ∀ d ∈ votes, IsVote v b d)
    (hcommit : commit = b.entries.length) :
    Represents (selectLog u commit votes).payload.log b.entries.length b.entries
      ∧ (selectLog u commit votes).op = b.entries.length
      ∧ (selectLog u commit votes).commit = b.entries.length := by
  have hchosen : Chosen commit votes v (selectLog u commit votes) :=
    selectLog_spec hne fun d hd => (hvotes d hd).log.imp fun _ h => h.1
  obtain ⟨d, hd, hdecodes, hop⟩ := hchosen.vote
  obtain ⟨log, hlog, hrep⟩ := (hvotes d hd).log
  have heq := (hdecodes u).symm.trans (hlog u)
  simp only [Prod.mk.injEq, DoViewChangePayload.mk.injEq, true_and] at heq
  refine ⟨heq ▸ hrep, hop.trans (hvotes d hd).op, ?_⟩
  rcases hchosen.commit with h | ⟨d', hd', h⟩
  · rw [h, hcommit]
  · rw [h, (hvotes d' hd').commit]

/-- The vote that makes a quorum starts the view. -/
theorem handleDoViewChange_last (env : Env) (h : Changing r.state v b wanted votes)
    (hquorum : r.state.faultToleranceF ≤ votes.length)
    (hvotes : ∀ d ∈ votes ++ [im.message], IsVote v b d) :
    Settled (r.handleDoViewChange env im).state (v + 1) b
      ∧ (r.handleDoViewChange env im).out
        = r.out ++ [.broadcast (startViewMessage (r.handleDoViewChange env im).state)] := by
  obtain ⟨hlog, hop, hcommit⟩ := selectLog_agreed (u := env.uninitialized) (by simp) hvotes
    (h.holds.commit.trans h.holds.op)
  obtain ⟨s', hs'⟩ : ∃ s', s' = startedState r.state
      (selectLog env.uninitialized r.state.commit (votes ++ [im.message])) := ⟨_, rfl⟩
  have hholds : HoldsLedger s' b := by
    rw [hs']
    refine ⟨?_, hcommit.trans hop.symm, (h.holds.executed.trans h.holds.op).trans hop.symm,
      h.holds.machine, h.holds.last⟩
    show Represents (selectLog _ _ _).payload.log (selectLog _ _ _).op _
    rw [hop]
    exact hlog
  have hstep : r.handleDoViewChange env im
      = executeCommitedOps (broadcastToPeers { r with state := s' } (startViewMessage s')) := by
    unfold handleDoViewChange
    simp only [h.votes]
    rw [if_pos (by rw [List.length_append, List.length_singleton]; omega), hs']
    rfl
  have hdone := HoldsLedger.executeCommitedOps_eq
    (r := broadcastToPeers { r with state := s' } (startViewMessage s')) hholds
  rw [hstep, hdone]
  refine ⟨⟨?_, ?_, hholds⟩, rfl⟩
  · show s'.status = .normal
    rw [hs']
    rfl
  · show s'.view = v + 1
    rw [hs']
    exact h.view

/-- A replica that holds the ledger tells the others of its view. -/
theorem Settled.isStartView (h : Settled s v b) (hfits : Fits s) (hid : u8 s.id = q) :
    IsStartView v q b (startViewMessage s) :=
  ⟨rfl, h.view, hid, h.holds.op, h.holds.commit.trans h.holds.op, stripLog s.log,
    StartViewPayload.deserialize_serialize (h.holds.log.gapFree.inRange hfits.op hfits.log),
    h.holds.op ▸ h.holds.log.strip⟩

/-- A table that knows of every request in the log is left as it is. -/
theorem getD_coverLog_of_covered {t : StdMap UInt128 ClientTableEntry} {log : Log}
    (h : ∀ (n : Nat) (e : LogEntry), log[n]? = some e →
      e.requestNum ≤ (t.getD e.clientId {}).requestNumber) (client : UInt128) :
    (coverLog t log).getD client {} = t.getD client {} := by
  have hall : ∀ p ∈ log.toList, p.2.requestNum ≤ (t.getD p.2.clientId {}).requestNumber :=
    fun p hp => h p.1 p.2 (Std.ExtTreeMap.mem_toList_iff_getElem?_eq_some.mp hp)
  unfold coverLog
  generalize log.toList = l at hall
  induction l generalizing t with
  | nil => rfl
  | cons p l ih =>
      obtain ⟨hp, hl⟩ := List.forall_mem_cons.mp hall
      have hsame : ∀ x, (coverEntry t p.2).getD x {} = t.getD x {} := by
        intro x
        rw [coverEntry, getD_insert_table]
        split
        · rename_i hx
          rw [if_neg (Nat.not_lt.mpr hp), hx]
        · rfl
      rw [List.foldl_cons, ih ?_ fun q hq => ?_, hsame]
      · exact fun n e he => by rw [hsame]; exact h n e he
      · rw [hsame]
        exact hl q hq

theorem handleStartView_settles (h : Changing r.state v b wanted votes)
    (him : IsStartView (v + 1) q b im.message) :
    Settled (r.handleStartView im).state (v + 1) b := by
  obtain ⟨log, hdecodes, hlog⟩ := him.log
  obtain ⟨s', hs'⟩ : ∃ s', s' = adoptedState r.state im.message.header log := ⟨_, rfl⟩
  have hcovered : ∀ (n : Nat) (e : LogEntry), log[n]? = some e →
      e.requestNum ≤ (r.state.clientTable.getD e.clientId {}).requestNumber := fun n e he =>
    (b.covers _ (mem_of_entryAt (hlog.entryAt_some he))).trans (h.holds.last _).ge
  have hholds : HoldsLedger s' b := by
    rw [hs']
    refine ⟨?_, him.commit.trans him.op.symm, (h.holds.executed.trans h.holds.op).trans him.op.symm,
      h.holds.machine, fun client => ?_⟩
    · show Represents log im.message.header.op _
      rw [him.op]
      exact hlog
    · rw [← h.holds.last client]
      exact congrArg ClientTableEntry.requestNumber (getD_coverLog_of_covered hcovered client)
  have hstep : (r.handleStartView im).state
      = (executeCommitedOps { r with state := s' }).state := by
    unfold handleStartView
    simp only [hdecodes, hs']
    rfl
  rw [hstep, HoldsLedger.executeCommitedOps_eq (r := { r with state := s' }) hholds]
  refine ⟨?_, ?_, hholds⟩
  · show s'.status = .normal
    rw [hs']
    rfl
  · show s'.view = v + 1
    rw [hs']
    exact him.view

/-! ## What goes out fits a frame

A log goes out with a vote, and again when a quorum of votes has come in. -/

/-- The first vote is not enough. -/
theorem completingVotes?_of_no_votes {msg : VsrMessage} (hvotes : s.doViewChangeReceived = [])
    (hpos : 0 < s.faultToleranceF) : completingVotes? s msg = none := by
  rw [completingVotes?, Option.bind_eq_none_iff]
  intro d _
  rw [if_neg]
  simp only [hvotes, List.nil_append, List.length_singleton]
  omega

theorem fitsFrame_of_no_votes {u : Nat} {msg : VsrMessage} (h : Changing s v b wanted [])
    (hpos : 0 < s.faultToleranceF)
    (hother : msg.header.command ≠ .request ∧ msg.header.command ≠ .recovery)
    (hsize : 12 + b.bytes ≤ maxPayload) : FitsFrame u s msg where
  request hrequest := absurd hrequest hother.1
  vote _ _ _ := by
    rw [h.logSize]
    omega
  start _ votes hmem := by
    rw [completingVotes?_of_no_votes h.votes hpos] at hmem
    cases hmem
  response hrecovery := absurd hrecovery hother.2

theorem fitsFrame_vote {u : Nat} {d : VsrMessage} (h : Changing s v b wanted votes)
    (hvotes : ∀ d ∈ votes, IsVote v b d) (hd : IsVote v b d)
    (hsize : 12 + b.bytes ≤ maxPayload) : FitsFrame u s d where
  request hcmd := by
    rw [hd.command] at hcmd
    cases hcmd
  vote _ hbuilt := by
    rw [builtVote?, if_neg fun h => ?_] at hbuilt
    · cases hbuilt
    · have hcmd := h.1
      rw [hd.command] at hcmd
      cases hcmd
  start _ votes' hmem := by
    rw [completingVotes?, collectedVote?, if_pos hd.command, Option.bind_some, h.votes] at hmem
    split at hmem
    · obtain rfl := Option.some.inj hmem
      obtain ⟨hlog, -, -⟩ := selectLog_agreed (u := u) (by simp)
        (forall_mem_append_singleton hvotes hd) (h.holds.commit.trans h.holds.op)
      have hlogSize : logSize (selectLog u s.commit (votes ++ [d])).payload.log = 8 + b.bytes :=
        hlog.logSize
      rw [hlogSize]
      omega
    · cases hmem
  response hcmd := by
    rw [hd.command] at hcmd
    cases hcmd

end

end VsrKv
