import Mathlib.Data.List.Induction
import Mathlib.Order.Bounds.Basic
import VsrKv.LogList
import VsrKv.OwnAcks

/-!
# Acknowledgements in any order

What a primary makes of a list of `PrepareOk`s depends on which op and
backup each of them names and on nothing else (`prepareOks_in_any_order`).
The acknowledgements are noted as a set. The commit number goes as far as
the ops are acknowledged without a break, from wherever it was, so going
there in several steps is the same as going at once (`Streak`). And
executing in several batches is the same as executing in one, because the
loop looks at the log without its acknowledgements and only ever stops at
the commit number or at a missing entry (`alike_settled`).
-/

namespace VsrKv

open Replica

/-! ## Streaks -/

/-- How far one gets from `c` if every number passed has to satisfy `P`. -/
def Streak (P : Nat → Prop) (c : Nat) : Set Nat := {n | c ≤ n ∧ ∀ k, c < k → k ≤ n → P k}

section

variable {P Q : Nat → Prop} {b c d : Nat}

theorem isGreatest_streak (hmem : d ∈ Streak P c) (hstop : ¬P (d + 1)) :
    IsGreatest (Streak P c) d := by
  refine ⟨hmem, fun n hn => ?_⟩
  by_contra hlt
  exact hstop (hn.2 (d + 1) (by have := hmem.1; omega) (by omega))

/-- A streak may be taken up where it was left, also if more has come to
satisfy the predicate since. -/
theorem isGreatest_streak_trans (h : IsGreatest (Streak P b) c) (hPQ : ∀ k, P k → Q k)
    (h' : IsGreatest (Streak Q c) d) : IsGreatest (Streak Q b) d := by
  refine ⟨⟨h.1.1.trans h'.1.1, fun k hk hkd => ?_⟩, fun n hn => ?_⟩
  · rcases Nat.lt_or_ge c k with hck | hkc
    · exact h'.1.2 k hck hkd
    · exact hPQ k (h.1.2 k hk hkc)
  · rcases Nat.lt_or_ge n c with hnc | hcn
    · exact hnc.le.trans h'.1.1
    · exact h'.2 ⟨hcn, fun k hk => hn.2 k (h.1.1.trans_lt hk)⟩

end

/-! ## The commit number -/

/-- The op is logged and enough replicas have acknowledged it. -/
def Acknowledged (f : Nat) (log : Log) (n : Nat) : Prop :=
  ∃ e, log[n]? = some e ∧ f + 1 ≤ e.prepareOkAcks.card

/-- Op numbers are `uint64_t`s and begin at 1. -/
def OpNumbers (log : Log) : Prop := ∀ n ∈ log, 1 ≤ n ∧ n < 2 ^ 64

theorem OpNumbers.getElem?_next {log : Log} (h : OpNumbers log) {n : Nat} (hn : n < 2 ^ 64) :
    log[u64 (n + 1)]? = log[n + 1]? := by
  rcases Nat.lt_or_ge (n + 1) (2 ^ 64) with hlt | hge
  · rw [u64_eq hlt]
  · have hmax : n + 1 = 2 ^ 64 := by omega
    rw [hmax, u64, Nat.mod_self, getElem?_neg log 0 fun hmem => absurd (h 0 hmem).1 (by omega),
      getElem?_neg log (2 ^ 64) fun hmem => absurd (h _ hmem).2 (by omega)]

/-- Either the loop has stopped at an op that is not acknowledged, or it has
passed as many as it may. -/
theorem advanceLoop_streak (f : Nat) {log : Log} (hlog : OpNumbers log) (k : Nat) {commit : Nat}
    (hcommit : commit < 2 ^ 64) :
    advanceLoop f log k commit ∈ Streak (Acknowledged f log) commit
      ∧ (¬Acknowledged f log (advanceLoop f log k commit + 1)
        ∨ advanceLoop f log k commit = commit + k) := by
  have hstay : commit ∈ Streak (Acknowledged f log) commit :=
    ⟨Nat.le_refl _, fun k hk hkc => by omega⟩
  induction k generalizing commit with
  | zero => exact ⟨hstay, Or.inr rfl⟩
  | succ k ih =>
      rw [advanceLoop, hlog.getElem?_next hcommit]
      split
      · rename_i hnone
        refine ⟨hstay, Or.inl ?_⟩
        rintro ⟨e, he, -⟩
        simp [hnone] at he
      · rename_i e he
        split
        · rename_i hfew
          refine ⟨hstay, Or.inl ?_⟩
          rintro ⟨e', he', hmany⟩
          rw [he, Option.some.injEq] at he'
          subst he'
          omega
        · rename_i hmany
          have hlt : commit + 1 < 2 ^ 64 := (hlog (commit + 1) (mem_of_logged he)).2
          rw [u64_eq hlt]
          obtain ⟨hmem, hend⟩ := ih hlt ⟨Nat.le_refl _, fun k hk hkc => by omega⟩
          refine ⟨⟨(Nat.le_succ _).trans hmem.1, fun k hk hkn => ?_⟩, hend.imp_right fun h => ?_⟩
          · rcases Nat.lt_or_ge (commit + 1) k with hk' | hk'
            · exact hmem.2 k hk' hkn
            · have : k = commit + 1 := by omega
              exact this ▸ ⟨e, he, by omega⟩
          · rw [h]; omega

/-- Every turn passes a logged op, so there are not more than the log has. -/
theorem isGreatest_advanceLoop (f : Nat) {log : Log} (hlog : OpNumbers log) {commit : Nat}
    (hcommit : commit < 2 ^ 64) :
    IsGreatest (Streak (Acknowledged f log) commit) (advanceLoop f log log.size commit) := by
  obtain ⟨hmem, hend⟩ := advanceLoop_streak f hlog log.size hcommit
  refine isGreatest_streak hmem ?_
  rcases hend with hstop | hall
  · exact hstop
  · rintro ⟨e, he, -⟩
    have hsub : Finset.Ioc commit (commit + log.size + 1) ⊆ log.keys.toFinset := by
      intro n hn
      rw [Finset.mem_Ioc] at hn
      rw [List.mem_toFinset, Std.ExtTreeMap.mem_keys]
      rcases Nat.lt_or_ge (commit + log.size) n with hlast | hle
      · have : n = advanceLoop f log log.size commit + 1 := by omega
        exact this ▸ mem_of_logged he
      · obtain ⟨e', he', -⟩ := hmem.2 n hn.1 (by omega)
        exact mem_of_logged he'
    have hcard := (Finset.card_le_card hsub).trans (List.toFinset_card_le _)
    rw [Std.ExtTreeMap.length_keys, Nat.card_Ioc] at hcard
    omega

/-! ## Acknowledgements as a set -/

/-- The op and the backup an acknowledgement names. -/
def InboundMessage.ack (im : InboundMessage) : Nat × Nat :=
  (im.message.header.op, im.message.header.replica)

/-- The log with the acknowledgements `acks` noted. -/
def noteAcks (log : Log) (acks : Finset (Nat × Nat)) : Log :=
  log.map fun n e =>
    { e with prepareOkAcks := e.prepareOkAcks ∪ (acks.filter (·.1 = n)).image Prod.snd }

section

variable {log : Log} {acks : Finset (Nat × Nat)} {n backup : Nat}

theorem getElem?_noteAcks (log : Log) (acks : Finset (Nat × Nat)) (n : Nat) :
    (noteAcks log acks)[n]? = (log[n]?).map fun e =>
      { e with prepareOkAcks := e.prepareOkAcks ∪ (acks.filter (·.1 = n)).image Prod.snd } := by
  rw [noteAcks, Std.ExtTreeMap.getElem?_map]

theorem strip_noteAcks (log : Log) (acks : Finset (Nat × Nat)) (n : Nat) :
    ((noteAcks log acks)[n]?).map LogEntry.strip = (log[n]?).map LogEntry.strip := by
  rw [getElem?_noteAcks, Option.map_map]
  rfl

theorem mem_noteAcks : n ∈ noteAcks log acks ↔ n ∈ log := by
  rw [Std.ExtTreeMap.mem_iff_isSome_getElem?, Std.ExtTreeMap.mem_iff_isSome_getElem?,
    getElem?_noteAcks, Option.isSome_map]

theorem noteAcks_mono {acks' : Finset (Nat × Nat)} (h : acks ⊆ acks') {f : Nat}
    (hack : Acknowledged f (noteAcks log acks) n) :
    Acknowledged f (noteAcks log acks') n := by
  obtain ⟨e, he, hcard⟩ := hack
  rw [getElem?_noteAcks, Option.map_eq_some_iff] at he
  obtain ⟨e₀, he₀, rfl⟩ := he
  refine ⟨_, by rw [getElem?_noteAcks, he₀, Option.map_some], hcard.trans ?_⟩
  refine Finset.card_le_card (Finset.union_subset_union_right ?_)
  exact Finset.image_subset_image (Finset.filter_subset_filter _ h)

/-- Acknowledgements of ops that are not logged leave no trace. -/
theorem noteAcks_of_not_mem (h : ∀ p ∈ acks, p.1 ∉ log) : noteAcks log acks = log := by
  refine Std.ExtTreeMap.ext_getElem? fun n => ?_
  rw [getElem?_noteAcks]
  cases he : log[n]? with
  | none => rfl
  | some e =>
      have hnone : acks.filter (·.1 = n) = ∅ :=
        Finset.filter_eq_empty_iff.mpr fun p hp hn => h p hp (hn ▸ mem_of_logged he)
      rw [Option.map_some, hnone, Finset.image_empty, Finset.union_empty]

theorem noteAcks_insert_of_not_mem (h : n ∉ log) :
    noteAcks log (insert (n, backup) acks) = noteAcks log acks := by
  refine Std.ExtTreeMap.ext_getElem? fun k => ?_
  rw [getElem?_noteAcks, getElem?_noteAcks]
  cases he : log[k]? with
  | none => rfl
  | some e =>
      have hne : n ≠ k := fun hnk => h (hnk ▸ mem_of_logged he)
      rw [Finset.filter_insert, if_neg hne]

/-- Noting one more. -/
theorem insert_noteAcks {e : LogEntry} (he : (noteAcks log acks)[n]? = some e) :
    (noteAcks log acks).insert n
        { e with prepareOkAcks := insert backup e.prepareOkAcks }
      = noteAcks log (insert (n, backup) acks) := by
  refine Std.ExtTreeMap.ext_getElem? fun k => ?_
  rw [Std.ExtTreeMap.getElem?_insert]
  split
  · rename_i hk
    obtain rfl : n = k := compare_eq_iff_eq.mp hk
    rw [getElem?_noteAcks, Option.map_eq_some_iff] at he
    obtain ⟨e₀, he₀, rfl⟩ := he
    rw [getElem?_noteAcks, he₀, Option.map_some, Finset.filter_insert, if_pos rfl,
      Finset.image_insert, Finset.union_insert]
  · rename_i hk
    have hne : n ≠ k := fun h => hk (compare_eq_iff_eq.mpr h)
    rw [getElem?_noteAcks, getElem?_noteAcks, Finset.filter_insert, if_neg hne]

end

/-! ## Execution in batches -/

/-- What a client gets to see of an effect. -/
def Effect.reply? : Effect → Option (Connection × VsrMessage)
  | .toConnection conn msg => some (conn, msg)
  | _ => none

/-- The primary's answer, if it knows a connection for the client. -/
def replyTo (r : Replica) (e : LogEntry) (result : Bytes) : List (Connection × VsrMessage) :=
  if r.state.isPrimary then
    match r.clientConnections[e.clientId]? with
    | none | some .null => []
    | some connection => [(connection, replyMessage r.state e result)]
  else []

theorem sendReply_replies (r : Replica) (e : LogEntry) (result : Bytes) :
    (r.sendReply e result).out.filterMap Effect.reply?
      = r.out.filterMap Effect.reply? ++ replyTo r e result := by
  unfold sendReply replyTo
  split
  · split <;> simp_all [sendMessage, emit, Effect.reply?]
  · simp

theorem executeOp_replies (r : Replica) (n : Nat) (e : LogEntry) :
    (r.executeOp n e).out.filterMap Effect.reply?
      = r.out.filterMap Effect.reply? ++ (turnResult r.state e).elim [] (replyTo r e) := by
  unfold executeOp turnResult
  by_cases h : skips r.state e
  · rw [if_neg h, if_pos h]
    simp [emit, Effect.reply?]
  · rw [if_pos (not_not.mp h), if_neg h]
    simp only [sendReply_replies, emit, List.filterMap_append]
    simp only [List.filterMap_cons, Effect.reply?, List.filterMap_nil, List.append_nil]
    rfl

theorem executeOp_clientConnections (r : Replica) (n : Nat) (e : LogEntry) :
    (r.executeOp n e).clientConnections = r.clientConnections := by
  unfold executeOp sendReply
  simp only []
  split
  · split
    · split <;> rfl
    · rfl
  · rfl

/-- The replicas differ in acknowledgements, in the commit number and in what
they have sent to others than clients at most. -/
structure Alike (r r' : Replica) : Prop where
  clientConnections : r'.clientConnections = r.clientConnections
  state : ∃ log commit, r'.state = { r.state with log, commit }
  entries : ∀ n : Nat, (r'.state.log[n]?).map LogEntry.strip = (r.state.log[n]?).map LogEntry.strip
  replies : r'.out.filterMap Effect.reply? = r.out.filterMap Effect.reply?

section

variable {r r' r'' : Replica}

theorem Alike.refl (r : Replica) : Alike r r := ⟨rfl, ⟨_, _, rfl⟩, fun _ => rfl, rfl⟩

theorem Alike.trans (h : Alike r r') (h' : Alike r' r'') : Alike r r'' := by
  obtain ⟨log, commit, hstate⟩ := h.state
  obtain ⟨log', commit', hstate'⟩ := h'.state
  refine ⟨h'.clientConnections.trans h.clientConnections, ⟨log', commit', ?_⟩,
    fun n => (h'.entries n).trans (h.entries n), h'.replies.trans h.replies⟩
  rw [hstate', hstate]

theorem Alike.symm (h : Alike r r') : Alike r' r := by
  obtain ⟨log, commit, hstate⟩ := h.state
  refine ⟨h.clientConnections.symm, ⟨r.state.log, r.state.commit, ?_⟩,
    fun n => (h.entries n).symm, h.replies.symm⟩
  rw [hstate]

/-- Two replicas that are `Alike` a third and agree in log and commit number
are in the same state. -/
theorem Alike.state_eq (h : Alike r r') (h' : Alike r r'') (hlog : r'.state.log = r''.state.log)
    (hcommit : r'.state.commit = r''.state.commit) : r'.state = r''.state := by
  obtain ⟨log, commit, hstate⟩ := h.state
  obtain ⟨log', commit', hstate'⟩ := h'.state
  rw [hstate, hstate'] at hlog hcommit ⊢
  obtain rfl : log = log' := hlog
  obtain rfl : commit = commit' := hcommit
  rfl

/-- Acknowledgements and the commit number may be set to anything. -/
theorem Alike.set (h : Alike r r') {log log' : Log} (commit commit' : Nat)
    (hentries : ∀ n : Nat, (log'[n]?).map LogEntry.strip = (log[n]?).map LogEntry.strip) :
    Alike { r with state := { r.state with log, commit } }
      { r' with state := { r'.state with log := log', commit := commit' } } := by
  obtain ⟨_, _, hstate⟩ := h.state
  refine ⟨h.clientConnections, ⟨log', commit', ?_⟩, hentries, h.replies⟩
  show { r'.state with log := log', commit := commit' } = _
  rw [hstate]

theorem turnState_set (s : ReplicaState) (n : Nat) (e : LogEntry) (log : Log) (commit : Nat) :
    turnState { s with log, commit } n e.strip = { turnState s n e with log, commit } := by
  unfold turnState
  by_cases h : skips s e
  · rw [if_pos h, if_pos (show skips { s with log, commit } e.strip from h)]
  · rw [if_neg h, if_neg (show ¬skips { s with log, commit } e.strip from h)]
    rfl

theorem Alike.executeOp (h : Alike r r') (n : Nat) {e e' : LogEntry} (he : e'.strip = e.strip) :
    Alike (r.executeOp n e) (r'.executeOp n e') := by
  obtain ⟨log, commit, hstate⟩ := h.state
  have hturn : turnState r'.state n e' = { turnState r.state n e with log, commit } := by
    rw [← turnState_set, ← he, hstate]
    rfl
  refine ⟨?_, ⟨log, commit, ?_⟩, fun k => ?_, ?_⟩
  · rw [executeOp_clientConnections, executeOp_clientConnections, h.clientConnections]
  · rw [executeOp_state, executeOp_state, hturn]
  · obtain ⟨_, _, _, hsame⟩ := turnState_same r.state n e
    have hk := h.entries k
    rw [hstate] at hk
    rw [executeOp_state, executeOp_state, hturn, hsame]
    exact hk
  · have hresult : turnResult r'.state e' = turnResult r.state e := by
      have : turnResult r'.state e'.strip = turnResult r.state e.strip := by
        rw [he, hstate]
        rfl
      exact this
    have hreply : replyTo r' e' = replyTo r e := by
      have : replyTo r' e'.strip = replyTo r e.strip := by
        funext result
        rw [he, replyTo, replyTo, h.clientConnections, hstate]
        rfl
      exact this
    rw [executeOp_replies, executeOp_replies, hresult, hreply, h.replies]

theorem Alike.executeLoop (h : Alike r r') (k : Nat) :
    Alike (executeLoop k r) (executeLoop k r') := by
  induction k generalizing r r' with
  | zero => exact h
  | succ k ih =>
      obtain ⟨log, commit, hstate⟩ := h.state
      have hnext : r'.state.lastExecutedOp = r.state.lastExecutedOp := by rw [hstate]
      have hentry := h.entries (r.state.lastExecutedOp + 1)
      rw [Replica.executeLoop, Replica.executeLoop, hnext]
      cases he : r.state.log[r.state.lastExecutedOp + 1]? with
      | none =>
          rw [he, Option.map_none, Option.map_eq_none_iff] at hentry
          simp only [hentry]
          exact h
      | some e =>
          rw [he, Option.map_some, Option.map_eq_some_iff] at hentry
          obtain ⟨e', he', hstrip⟩ := hentry
          simp only [he']
          exact ih (h.executeOp _ hstrip)

theorem set_executeLoop (k : Nat) (r : Replica) :
    { executeLoop k r with
      state := { (executeLoop k r).state with log := r.state.log, commit := r.state.commit } }
      = executeLoop k r := by
  obtain ⟨n, t, m, hstate⟩ := executeLoop_same k r
  have hsame : { (executeLoop k r).state with log := r.state.log, commit := r.state.commit }
      = (executeLoop k r).state := by
    rw [hstate]
  rw [hsame]

/-- The replica with another log and commit number, once it has executed what
these allow. -/
def settled (r : Replica) (log : Log) (commit : Nat) : Replica :=
  executeCommitedOps { r with state := { r.state with log, commit } }

theorem settled_log (r : Replica) (log : Log) (commit : Nat) :
    (settled r log commit).state.log = log ∧ (settled r log commit).state.commit = commit := by
  obtain ⟨_, _, _, hstate⟩ := executeLoop_same (commit - r.state.lastExecutedOp)
    { r with state := { r.state with log, commit } }
  exact ⟨congrArg ReplicaState.log hstate, congrArg ReplicaState.commit hstate⟩

/-- Executing up to `commit` first makes no difference to executing up to
`commit'`. -/
theorem alike_settled {log log' : Log} {commit commit' : Nat} (hle : commit ≤ commit')
    (hentries : ∀ n : Nat, (log'[n]?).map LogEntry.strip = (log[n]?).map LogEntry.strip)
    (h : Alike (settled r log commit) r') :
    Alike (settled r log' commit') (settled r' log' commit') := by
  let before : Replica := { r with state := { r.state with log := log', commit := commit' } }
  let batch := executeLoop (commit - r.state.lastExecutedOp) before
  have hbatch : Alike batch r' :=
    (((Alike.refl r).set commit commit' hentries).executeLoop _).symm.trans h
  have hnext : Alike batch
      { r' with state := { r'.state with log := log', commit := commit' } } := by
    have := @Alike.set batch r' hbatch log' log' commit' commit' fun _ => rfl
    rwa [show { batch with state := { batch.state with log := log', commit := commit' } } = batch
      from set_executeLoop (commit - r.state.lastExecutedOp) before] at this
  have hreached : r'.state.lastExecutedOp = batch.state.lastExecutedOp := by
    obtain ⟨_, _, h⟩ := hbatch.state
    rw [h]
  -- what is left to execute is the same, unless both have stopped at a missing entry
  have hrest : executeLoop (commit' - r.state.lastExecutedOp) before
      = executeLoop (commit' - r'.state.lastExecutedOp) batch := by
    rcases Nat.le_total commit r.state.lastExecutedOp with hdone | htodo
    · have hnone : batch = before := by
        show executeLoop (commit - r.state.lastExecutedOp) before = before
        rw [Nat.sub_eq_zero_of_le hdone]
        rfl
      rw [hreached, hnone]
    · rw [show commit' - r.state.lastExecutedOp
          = (commit - r.state.lastExecutedOp) + (commit' - commit) by omega, executeLoop_add]
      rcases executeLoop_lastExecutedOp (commit - r.state.lastExecutedOp) before with hall | hstop
      · rw [hreached, show batch.state.lastExecutedOp = commit from hall.trans (by
          show r.state.lastExecutedOp + _ = _; omega)]
      · rw [executeLoop_of_missing hstop, executeLoop_of_missing hstop]
  have := hnext.executeLoop (commit' - r'.state.lastExecutedOp)
  rw [← hrest] at this
  exact this

end

/-! ## Handling acknowledgements -/

/-- A primary in normal operation. -/
structure NormalPrimary (s : ReplicaState) : Prop where
  status : s.status = .normal
  primary : s.isPrimary = true
  ops : OpNumbers s.log
  commit : s.commit < 2 ^ 64

/-- An acknowledgement of a logged op, at a log with the acknowledgements `acks`. -/
theorem handlePrepareOk_noteAcks {r : Replica} (hprimary : r.state.isPrimary = true) {log : Log}
    {acks : Finset (Nat × Nat)} (hlog : r.state.log = noteAcks log acks) {im : InboundMessage}
    (hmem : im.message.header.op ∈ log) :
    r.handlePrepareOk im = settled r (noteAcks log (insert im.ack acks))
      (advanceLoop r.state.faultToleranceF (noteAcks log (insert im.ack acks))
        (noteAcks log (insert im.ack acks)).size r.state.commit) := by
  obtain ⟨e, he⟩ : ∃ e, (noteAcks log acks)[im.message.header.op]? = some e :=
    Option.isSome_iff_exists.mp
      (Std.ExtTreeMap.mem_iff_isSome_getElem?.mp (mem_noteAcks.mpr hmem))
  unfold handlePrepareOk advancePrimaryCommitNumber
  simp only [hlog, he, insert_noteAcks he]
  exact if_pos hprimary

theorem handlePrepareOk_of_not_mem {r : Replica} {im : InboundMessage}
    (h : im.message.header.op ∉ r.state.log) : r.handlePrepareOk im = r := by
  unfold handlePrepareOk
  simp only [getElem?_neg r.state.log _ h]

/-- `r` has become `r'` over acknowledgements `acks`, not all of which are of
ops that are not logged. -/
structure Tallied (r : Replica) (acks : Finset (Nat × Nat)) (r' : Replica) : Prop where
  log : r'.state.log = noteAcks r.state.log acks
  commit : IsGreatest (Streak (Acknowledged r.state.faultToleranceF r'.state.log) r.state.commit)
    r'.state.commit
  executed : Alike (settled r r'.state.log r'.state.commit) r'

section

variable {r r' r'' : Replica} {acks : Finset (Nat × Nat)} {im : InboundMessage}

theorem OpNumbers.noteAcks {log : Log} (h : OpNumbers log) (acks : Finset (Nat × Nat)) :
    OpNumbers (noteAcks log acks) :=
  fun n hn => h n (mem_noteAcks.mp hn)

theorem tallied_settled (hr : NormalPrimary r.state) (acks : Finset (Nat × Nat)) :
    Tallied r acks (settled r (noteAcks r.state.log acks)
      (advanceLoop r.state.faultToleranceF (noteAcks r.state.log acks)
        (noteAcks r.state.log acks).size r.state.commit)) := by
  obtain ⟨hlog, hcommit⟩ := settled_log r (noteAcks r.state.log acks)
    (advanceLoop r.state.faultToleranceF (noteAcks r.state.log acks)
      (noteAcks r.state.log acks).size r.state.commit)
  refine ⟨hlog, ?_, ?_⟩
  · rw [hlog, hcommit]
    exact isGreatest_advanceLoop _ (hr.ops.noteAcks acks) hr.commit
  · rw [hlog, hcommit]
    exact .refl _

theorem Tallied.static (h : Tallied r acks r') :
    r'.state.faultToleranceF = r.state.faultToleranceF
      ∧ r'.state.isPrimary = r.state.isPrimary := by
  obtain ⟨_, _, hstate⟩ := h.executed.state
  obtain ⟨_, _, _, hsame⟩ := executeLoop_same (r'.state.commit - r.state.lastExecutedOp)
    { r with state := { r.state with log := r'.state.log, commit := r'.state.commit } }
  rw [hstate, settled, executeCommitedOps, hsame]
  exact ⟨rfl, rfl⟩

theorem Tallied.commit_lt (h : Tallied r acks r') (hr : NormalPrimary r.state) :
    r'.state.commit < 2 ^ 64 := by
  rcases Nat.lt_or_ge r.state.commit r'.state.commit with hlt | hge
  · obtain ⟨e, he, -⟩ := h.commit.1.2 _ hlt (Nat.le_refl _)
    rw [h.log] at he
    exact (hr.ops.noteAcks acks _ (mem_of_logged he)).2
  · exact hge.trans_lt hr.commit

/-- One more acknowledgement. -/
theorem Tallied.handlePrepareOk (h : Tallied r acks r') (hr : NormalPrimary r.state)
    (im : InboundMessage) : Tallied r (insert im.ack acks) (r'.handlePrepareOk im) := by
  obtain ⟨hf, hprimary⟩ := h.static
  by_cases hmem : im.message.header.op ∈ r.state.log
  · rw [handlePrepareOk_noteAcks (hprimary.trans hr.primary) h.log hmem]
    have hgreatest := isGreatest_advanceLoop r'.state.faultToleranceF
      (hr.ops.noteAcks (insert im.ack acks)) (h.commit_lt hr)
    obtain ⟨hlog, hcommit⟩ := settled_log r' (noteAcks r.state.log (insert im.ack acks))
      (advanceLoop r'.state.faultToleranceF (noteAcks r.state.log (insert im.ack acks))
        (noteAcks r.state.log (insert im.ack acks)).size r'.state.commit)
    refine ⟨hlog, ?_, ?_⟩
    · rw [hlog, hcommit]
      rw [hf] at hgreatest ⊢
      refine isGreatest_streak_trans h.commit (fun k hk => ?_) hgreatest
      rw [h.log] at hk
      exact noteAcks_mono (Finset.subset_insert _ _) hk
    · rw [hlog, hcommit]
      refine alike_settled hgreatest.1.1 (fun n => ?_) h.executed
      rw [h.log, strip_noteAcks, strip_noteAcks]
  · rw [handlePrepareOk_of_not_mem (by rw [h.log, mem_noteAcks]; exact hmem)]
    refine ⟨?_, h.commit, h.executed⟩
    rw [h.log, InboundMessage.ack, noteAcks_insert_of_not_mem hmem]

/-- A list of them. -/
theorem tallied_foldl (hr : NormalPrimary r.state) (oks : List InboundMessage) :
    (∀ p ∈ oks.map InboundMessage.ack, p.1 ∉ r.state.log)
        ∧ oks.foldl Replica.handlePrepareOk r = r
      ∨ (∃ p ∈ oks.map InboundMessage.ack, p.1 ∈ r.state.log)
        ∧ Tallied r (oks.map InboundMessage.ack).toFinset
          (oks.foldl Replica.handlePrepareOk r) := by
  induction oks using List.reverseRecOn with
  | nil => exact Or.inl ⟨by simp, rfl⟩
  | append_singleton oks im ih =>
      have hacks : ((oks ++ [im]).map InboundMessage.ack).toFinset
          = insert im.ack (oks.map InboundMessage.ack).toFinset := by
        ext p
        simp
      rw [List.foldl_concat, hacks, List.map_append]
      rcases ih with ⟨hnone, heq⟩ | ⟨⟨p, hp, hmem⟩, htallied⟩
      · rw [heq]
        by_cases hmem : im.message.header.op ∈ r.state.log
        · refine Or.inr ⟨⟨im.ack, by simp, hmem⟩, ?_⟩
          have hlog : noteAcks r.state.log (oks.map InboundMessage.ack).toFinset = r.state.log :=
            noteAcks_of_not_mem fun p hp => hnone p (List.mem_toFinset.mp hp)
          rw [handlePrepareOk_noteAcks hr.primary hlog.symm hmem]
          exact tallied_settled hr _
        · refine Or.inl ⟨fun p hp => ?_, handlePrepareOk_of_not_mem hmem⟩
          rcases List.mem_append.mp hp with hp | hp
          · exact hnone p hp
          · rw [List.mem_singleton.mp hp]
            exact hmem
      · exact Or.inr ⟨⟨p, List.mem_append_left _ hp, hmem⟩, htallied.handlePrepareOk hr im⟩

end

/-- The same acknowledgements, in another order or repeated, leave a primary in
the same state with the same replies sent, and the commit number goes as far as
they allow. -/
theorem prepareOks_in_any_order {r : Replica} (hr : NormalPrimary r.state)
    {oks oks' : List InboundMessage}
    (hsame : ∀ p, p ∈ oks.map InboundMessage.ack ↔ p ∈ oks'.map InboundMessage.ack) :
    (oks.foldl handlePrepareOk r).state = (oks'.foldl handlePrepareOk r).state
      ∧ (oks.foldl handlePrepareOk r).out.filterMap Effect.reply?
        = (oks'.foldl handlePrepareOk r).out.filterMap Effect.reply?
      ∧ ((∃ im ∈ oks, im.message.header.op ∈ r.state.log) →
        IsGreatest {n | r.state.commit ≤ n ∧ ∀ k, r.state.commit < k → k ≤ n →
            ∃ e, (oks.foldl handlePrepareOk r).state.log[k]? = some e
              ∧ r.state.faultToleranceF + 1 ≤ e.prepareOkAcks.card}
          (oks.foldl handlePrepareOk r).state.commit) := by
  have hacks : (oks.map InboundMessage.ack).toFinset = (oks'.map InboundMessage.ack).toFinset := by
    ext p
    rw [List.mem_toFinset, List.mem_toFinset, hsame p]
  rcases tallied_foldl hr oks with ⟨hnone, heq⟩ | ⟨⟨p, hp, hmem⟩, h⟩
  · obtain ⟨-, heq'⟩ := (tallied_foldl hr oks').resolve_right fun ⟨⟨p, hp, hmem⟩, _⟩ =>
      hnone p ((hsame p).mpr hp) hmem
    rw [heq, heq']
    exact ⟨rfl, rfl, fun ⟨im, him, hmem⟩ => absurd hmem (hnone im.ack (List.mem_map_of_mem him))⟩
  · obtain ⟨-, h'⟩ := (tallied_foldl hr oks').resolve_left fun ⟨hnone, _⟩ =>
      hnone p ((hsame p).mp hp) hmem
    rw [← hacks] at h'
    have hlog := h.log.trans h'.log.symm
    have hcommit := h.commit.unique (hlog ▸ h'.commit)
    have hexecuted := h'.executed
    rw [← hlog, ← hcommit] at hexecuted
    exact ⟨h.executed.state_eq hexecuted hlog hcommit,
      h.executed.replies.trans hexecuted.replies.symm, fun _ => h.commit⟩

/-- The primary of view 0 with one request logged. -/
def awaitingAcks : Replica :=
  handleRequest { state := .new 0 (clusterOf 3) }
    { connection := .client 7, message := setRequest 1 1 [97, 32, 98] }

/-- The acknowledgement of op 1 by `backup`. -/
def ackOne (backup : Nat) : InboundMessage :=
  { connection := .peer backup,
    message := { header := { command := .prepareOk, op := 1, replica := backup } } }

theorem prepareOks_in_any_order_two :
    ([ackOne 1, ackOne 2].foldl handlePrepareOk awaitingAcks).state
        = ([ackOne 2, ackOne 1, ackOne 2].foldl handlePrepareOk awaitingAcks).state
      ∧ ([ackOne 1, ackOne 2].foldl handlePrepareOk awaitingAcks).state.commit = 1 := by
  have hr : NormalPrimary awaitingAcks.state :=
    { status := rfl
      primary := by decide +kernel
      ops := fun n hn => by
        have := (GapFree.empty.insert_next (entryOf 0 (setRequest 1 1 [97, 32, 98]) {0}) n).mp hn
        omega
      commit := by decide +kernel }
  have hsame : ∀ p, p ∈ [ackOne 1, ackOne 2].map InboundMessage.ack
      ↔ p ∈ [ackOne 2, ackOne 1, ackOne 2].map InboundMessage.ack := by
    intro p
    simp only [List.map_cons, List.map_nil, List.mem_cons, List.not_mem_nil, or_false]
    tauto
  exact ⟨(prepareOks_in_any_order hr hsame).1, by decide +kernel⟩

end VsrKv
