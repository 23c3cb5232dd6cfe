import Mathlib.Data.Prod.Lex
import VsrKv.Actions
import VsrKv.Selection

/-!
# Which log a new primary starts from

The loop of `handle_do_view_change` compares by `last_normal_view` first
and op number second, and replaces its candidate only by a better one.
That makes it a selection in the lexicographic order (`selectLog_cons`),
and what it ends with the first of the best. The commit number is kept
apart, and is the highest there is.

The loop checks whether a payload decodes, but it starts from the first
message without checking. Where all messages decode this is no
difference, and the outcome does not depend on the order they arrive in
(`best_doViewChange_in_any_order`).
-/

namespace VsrKv

open Replica Selection

/-! ## Candidates -/

/-- What a message offers: its payload, if it decodes, and its op number. -/
def candidate? (msg : VsrMessage) : Option (DoViewChangePayload × Nat) :=
  match DoViewChangePayload.deserialize msg.payload { lastNormalView := 0 } with
  | (true, payload) => some (payload, msg.header.op)
  | (false, _) => none

def decodes (msg : VsrMessage) : Bool := (candidate? msg).isSome

/-- What is there of a message after decoding it, however far that went. -/
def leftover (uninitialized : Nat) (msg : VsrMessage) : DoViewChangePayload × Nat :=
  ((DoViewChangePayload.deserialize msg.payload { lastNormalView := uninitialized }).2,
    msg.header.op)

/-- By the view it was last normal in, then by op number. -/
def rank (c : DoViewChangePayload × Nat) : ℕ ×ₗ ℕ := toLex (c.1.lastNormalView, c.2)

/-- Decoding does not look at what it overwrites. -/
theorem deserialize_of_candidate {msg : VsrMessage} {c : DoViewChangePayload × Nat}
    (h : candidate? msg = some c) (u : Nat) :
    DoViewChangePayload.deserialize msg.payload { lastNormalView := u } = (true, c.1)
      ∧ c.2 = msg.header.op := by
  unfold candidate? at h
  split at h
  · rename_i payload hpayload
    cases h
    refine ⟨?_, rfl⟩
    rw [← hpayload]
    unfold DoViewChangePayload.deserialize at hpayload ⊢
    cases hread : LittleEndian.read 4 msg.payload with
    | none => simp [hread] at hpayload
    | some r => rfl
  · cases h

theorem deserialize_of_not_decodes {msg : VsrMessage} (h : candidate? msg = none) (u : Nat) :
    (DoViewChangePayload.deserialize msg.payload { lastNormalView := u }).1 = false := by
  by_contra htrue
  rw [Bool.not_eq_false] at htrue
  unfold candidate? at h
  split at h
  · cases h
  · rename_i payload hpayload
    unfold DoViewChangePayload.deserialize at hpayload htrue
    cases hread : LittleEndian.read 4 msg.payload with
    | none => simp [hread] at htrue
    | some r =>
        simp only [hread] at hpayload htrue
        rw [Prod.mk.injEq] at hpayload
        rw [hpayload.1] at htrue
        cases htrue

theorem leftover_of_candidate {msg : VsrMessage} {c : DoViewChangePayload × Nat}
    (h : candidate? msg = some c) (u : Nat) : leftover u msg = c := by
  obtain ⟨hpayload, hop⟩ := deserialize_of_candidate h u
  rw [leftover, hpayload, ← hop]

/-! ## The loop -/

theorem consider_eq (u : Nat) (best : LogChoice) (msg : VsrMessage) :
    best.consider u msg
      = match candidate? msg with
        | none => best
        | some c =>
            { payload := (pick rank (best.payload, best.op) c).1
              op := (pick rank (best.payload, best.op) c).2
              commit := max best.commit msg.header.commit } := by
  cases h : candidate? msg with
  | none =>
      have hfalse := deserialize_of_not_decodes h u
      unfold LogChoice.consider
      split
      · rfl
      · rename_i hpayload
        rw [hpayload] at hfalse
        cases hfalse
  | some c =>
      obtain ⟨hpayload, hop⟩ := deserialize_of_candidate h u
      have hrank : rank (best.payload, best.op) < rank c
          ↔ best.payload.lastNormalView < c.1.lastNormalView
            ∨ best.payload.lastNormalView = c.1.lastNormalView ∧ best.op < c.2 :=
        Prod.Lex.toLex_lt_toLex
      unfold LogChoice.consider pick
      rw [hpayload]
      simp only [hrank, ← hop, gt_iff_lt]
      by_cases hlt : best.payload.lastNormalView < c.1.lastNormalView
      · simp [hlt]
      · by_cases heq : c.1.lastNormalView = best.payload.lastNormalView ∧ best.op < c.2
        · simp [heq.1, heq.2]
        · have heq' : ¬(best.payload.lastNormalView = c.1.lastNormalView ∧ best.op < c.2) :=
            fun h => heq ⟨h.1.symm, h.2⟩
          simp [hlt, heq, heq']

/-- The highest of `commit` and what the decodable messages have. -/
def highestCommit (commit : Nat) (msgs : List VsrMessage) : Nat :=
  ((msgs.filter decodes).map (·.header.commit)).foldl max commit

theorem foldl_consider (u : Nat) (best : LogChoice) (msgs : List VsrMessage) :
    msgs.foldl (LogChoice.consider u) best
      = { payload := ((msgs.filterMap candidate?).foldl (pick rank) (best.payload, best.op)).1
          op := ((msgs.filterMap candidate?).foldl (pick rank) (best.payload, best.op)).2
          commit := highestCommit best.commit msgs } := by
  induction msgs generalizing best with
  | nil => rfl
  | cons msg msgs ih =>
      rw [List.foldl_cons, ih, consider_eq]
      cases h : candidate? msg with
      | none => simp [highestCommit, decodes, h]
      | some c => simp [highestCommit, decodes, h]

/-- What the loop chooses. -/
theorem selectLog_cons (u commit : Nat) (first : VsrMessage) (rest : List VsrMessage) :
    selectLog u commit (first :: rest)
      = { payload := ((rest.filterMap candidate?).foldl (pick rank) (leftover u first)).1
          op := ((rest.filterMap candidate?).foldl (pick rank) (leftover u first)).2
          commit := highestCommit (max commit first.header.commit) rest } :=
  foldl_consider u _ rest

/-- From a first message that decodes. -/
theorem selectLog_of_candidate (u commit : Nat) {first : VsrMessage} (rest : List VsrMessage)
    {c : DoViewChangePayload × Nat} (h : candidate? first = some c) :
    selectLog u commit (first :: rest)
      = { payload := ((rest.filterMap candidate?).foldl (pick rank) c).1
          op := ((rest.filterMap candidate?).foldl (pick rank) c).2
          commit := highestCommit commit (first :: rest) } := by
  rw [selectLog_cons, leftover_of_candidate h]
  simp [highestCommit, decodes, h]

theorem highestCommit_isGreatest (commit : Nat) (msgs : List VsrMessage) :
    IsGreatest ({commit} ∪ {n | ∃ m ∈ msgs, decodes m = true ∧ m.header.commit = n})
      (highestCommit commit msgs) := by
  induction msgs generalizing commit with
  | nil => simp [highestCommit, IsGreatest, upperBounds]
  | cons m msgs ih =>
      by_cases h : decodes m = true
      · have hcons : highestCommit commit (m :: msgs)
            = highestCommit (max commit m.header.commit) msgs := by
          simp [highestCommit, h]
        obtain ⟨hmem, hub⟩ := ih (max commit m.header.commit)
        have hmax : max commit m.header.commit ≤ highestCommit (max commit m.header.commit) msgs :=
          hub (Or.inl rfl)
        rw [hcons]
        constructor
        · rcases hmem with hmax' | ⟨m', hm', hdec, hcommit⟩
          · rw [Set.mem_singleton_iff.mp hmax']
            rcases max_choice commit m.header.commit with hc | hc
            · exact Or.inl hc
            · exact Or.inr ⟨m, by simp, h, hc.symm⟩
          · exact Or.inr ⟨m', by simp [hm'], hdec, hcommit⟩
        · rintro n (rfl | ⟨m', hm', hdec, rfl⟩)
          · exact (le_max_left _ _).trans hmax
          · rcases List.mem_cons.mp hm' with rfl | hm'
            · exact (le_max_right _ _).trans hmax
            · exact hub (Or.inr ⟨m', hm', hdec, rfl⟩)
      · have hcons : highestCommit commit (m :: msgs) = highestCommit commit msgs := by
          simp [highestCommit, h]
        have hset : {n | ∃ m' ∈ m :: msgs, decodes m' = true ∧ m'.header.commit = n}
            = {n | ∃ m' ∈ msgs, decodes m' = true ∧ m'.header.commit = n} := by
          simp [h]
        rw [hcons, hset]
        exact ih commit

/-! ## Messages that all decode -/

section

variable {msgs msgs' : List VsrMessage}

theorem selectLog_commit_isGreatest (u commit : Nat) (hne : msgs ≠ [])
    (hdecode : ∀ m ∈ msgs, decodes m = true) :
    IsGreatest ({commit} ∪ {n | ∃ m ∈ msgs, m.header.commit = n})
      (selectLog u commit msgs).commit := by
  obtain ⟨first, rest, rfl⟩ := List.exists_cons_of_ne_nil hne
  obtain ⟨c, hc⟩ := Option.isSome_iff_exists.mp (hdecode first (List.mem_cons_self ..))
  have hset : {n | ∃ m ∈ first :: rest, decodes m = true ∧ m.header.commit = n}
      = {n | ∃ m ∈ first :: rest, m.header.commit = n} := by
    ext n
    exact exists_congr fun m => and_congr_right fun hm => and_iff_right (hdecode m hm)
  rw [selectLog_of_candidate u commit rest hc, ← hset]
  exact highestCommit_isGreatest commit (first :: rest)

/-- Log and op number are those of one message, than which none is better. -/
theorem selectLog_best (u commit : Nat) (hne : msgs ≠ [])
    (hdecode : ∀ m ∈ msgs, decodes m = true) :
    ∃ m ∈ msgs, ∃ c ∈ candidate? m,
      (∀ m' ∈ msgs, ∀ c' ∈ candidate? m', rank c' ≤ rank c)
        ∧ (selectLog u commit msgs).op = m.header.op
        ∧ (selectLog u commit msgs).payload = c.1 := by
  obtain ⟨first, rest, rfl⟩ := List.exists_cons_of_ne_nil hne
  obtain ⟨c, hc⟩ := Option.isSome_iff_exists.mp (hdecode first (List.mem_cons_self ..))
  have hcands : (first :: rest).filterMap candidate? = c :: rest.filterMap candidate? :=
    List.filterMap_cons_some hc
  rw [selectLog_of_candidate u commit rest hc]
  have hmem : (rest.filterMap candidate?).foldl (pick rank) c ∈ _ := foldl_pick_mem c _
  rw [← hcands, List.mem_filterMap] at hmem
  obtain ⟨m, hm, hbest⟩ := hmem
  refine ⟨m, hm, _, hbest, ?_, (deserialize_of_candidate hbest u).2, rfl⟩
  intro m' hm' c' hc'
  refine key_le_foldl_pick ?_
  rw [← hcands]
  exact List.mem_filterMap.mpr ⟨m', hm', hc'⟩

/-- What is chosen is the same in every order, as
long as equally good ones carry the same log. -/
theorem selectLog_perm (hperm : msgs.Perm msgs') (u u' commit : Nat) (hne : msgs ≠ [])
    (hdecode : ∀ m ∈ msgs, decodes m = true)
    (hsame : ∀ m ∈ msgs, ∀ m' ∈ msgs, ∀ c ∈ candidate? m, ∀ c' ∈ candidate? m',
      rank c = rank c' → c.1.log = c'.1.log) :
    selectLog u commit msgs = selectLog u' commit msgs' := by
  obtain ⟨first, rest, rfl⟩ := List.exists_cons_of_ne_nil hne
  obtain ⟨first', rest', rfl⟩ := List.exists_cons_of_ne_nil
    fun h => hne (List.perm_nil.mp (h ▸ hperm))
  obtain ⟨c, hc⟩ := Option.isSome_iff_exists.mp (hdecode first (by simp))
  obtain ⟨c', hc'⟩ := Option.isSome_iff_exists.mp
    (hdecode first' (hperm.mem_iff.mpr (by simp)))
  have hcands : (c :: rest.filterMap candidate?).Perm (c' :: rest'.filterMap candidate?) := by
    have := hperm.filterMap candidate?
    rwa [List.filterMap_cons_some hc, List.filterMap_cons_some hc'] at this
  have hchoice : (rest.filterMap candidate?).foldl (pick rank) c
      = (rest'.filterMap candidate?).foldl (pick rank) c' := by
    refine foldl_pick_perm (v := id) hcands ?_
    intro x hx y hy hrank
    rw [← List.filterMap_cons_some hc, List.mem_filterMap] at hx hy
    obtain ⟨m, hm, hx⟩ := hx
    obtain ⟨m', hm', hy⟩ := hy
    have hlog := hsame m hm m' hm' x hx y hy hrank
    obtain ⟨⟨lnv, log⟩, op⟩ := x
    obtain ⟨⟨lnv', log'⟩, op'⟩ := y
    obtain ⟨rfl, rfl⟩ : lnv = lnv' ∧ op = op' := Prod.mk.inj (toLex.injective hrank)
    obtain rfl : log = log' := hlog
    rfl
  have hset : {n | ∃ m ∈ first :: rest, decodes m = true ∧ m.header.commit = n}
      = {n | ∃ m ∈ first' :: rest', decodes m = true ∧ m.header.commit = n} := by
    ext n
    exact exists_congr fun m => and_congr_left' hperm.mem_iff
  have hcommit : highestCommit commit (first :: rest) = highestCommit commit (first' :: rest') :=
    (highestCommit_isGreatest commit _).unique
      (hset ▸ highestCommit_isGreatest commit (first' :: rest'))
  rw [selectLog_of_candidate u commit rest hc, selectLog_of_candidate u' commit rest' hc', hchoice,
    hcommit]

end

/-! ## Votes in any order -/

/-- Handling one `DoViewChange` after the other. -/
def Replica.handleDoViewChanges (r : Replica) (votes : List (Env × InboundMessage)) : Replica :=
  votes.foldl (fun r v => r.handleDoViewChange v.1 v.2) r

/-- The new primary starts the view from `best`. -/
def Replica.startFrom (r : Replica) (best : LogChoice) : Replica :=
  executeCommitedOps (broadcastToPeers { r with state := startedState r.state best }
    (startViewMessage (startedState r.state best)))

section

variable {r : Replica} {votes votes' : List (Env × InboundMessage)}

/-- Short of a quorum votes are collected. -/
theorem handleDoViewChanges_collect
    (hlen : r.state.doViewChangeReceived.length + votes.length ≤ r.state.faultToleranceF) :
    r.handleDoViewChanges votes = { r with state := { r.state with
      doViewChangeReceived := r.state.doViewChangeReceived ++ votes.map (·.2.message) } } := by
  induction votes generalizing r with
  | nil => simp [handleDoViewChanges]
  | cons v votes ih =>
      rw [List.length_cons] at hlen
      have hone : r.handleDoViewChange v.1 v.2 = { r with state := { r.state with
          doViewChangeReceived := r.state.doViewChangeReceived ++ [v.2.message] } } := by
        unfold handleDoViewChange
        simp only []
        rw [if_neg (by simp only [List.length_append, List.length_singleton]; omega)]
      rw [handleDoViewChanges, List.foldl_cons, hone]
      refine (ih (r := { r with state := { r.state with
          doViewChangeReceived := r.state.doViewChangeReceived ++ [v.2.message] } }) ?_).trans ?_
      · simp only [List.length_append, List.length_singleton]
        omega
      · simp

/-- A quorum of votes starts the view. -/
theorem handleDoViewChanges_quorum (hempty : r.state.doViewChangeReceived = [])
    (hlen : votes.length = r.state.faultToleranceF + 1) :
    ∃ u, r.handleDoViewChanges votes
      = r.startFrom (selectLog u r.state.commit (votes.map (·.2.message))) := by
  obtain ⟨early, last, rfl⟩ : ∃ early last, votes = early ++ [last] := by
    rcases List.eq_nil_or_concat votes with rfl | h
    · simp at hlen
    · simpa using h
  rw [List.length_append, List.length_singleton] at hlen
  refine ⟨last.1.uninitialized, ?_⟩
  have hcollect : r.handleDoViewChanges early = _ :=
    handleDoViewChanges_collect (by rw [hempty, List.length_nil]; omega)
  rw [handleDoViewChanges] at hcollect ⊢
  rw [List.foldl_append, hcollect, List.foldl_cons, List.foldl_nil]
  unfold handleDoViewChange
  simp only [hempty, List.nil_append]
  rw [if_pos (by simp only [List.length_append, List.length_map, List.length_singleton]; omega)]
  simp [startFrom, startedState]

/-- Execution leaves what was adopted as it is. -/
theorem startFrom_same (r : Replica) (best : LogChoice) :
    SameExceptExecution (startedState r.state best) (r.startFrom best).state
      ∧ ∃ effs, (r.startFrom best).out
        = r.out ++ .broadcast (startViewMessage (startedState r.state best)) :: effs := by
  obtain ⟨effs, hout, hexec⟩ := executeCommitedOps_spec
    (broadcastToPeers { r with state := startedState r.state best }
      (startViewMessage (startedState r.state best)))
  refine ⟨hexec.state, effs, ?_⟩
  rw [startFrom, hout, broadcastToPeers, emit, List.append_assoc]
  rfl

/-- A quorum of votes that all decode: the highest commit number, the best log
with the op number that belongs to it, and, if equally good votes carry the
same log, the same outcome in whatever order they come. -/
theorem best_doViewChange_in_any_order (hempty : r.state.doViewChangeReceived = [])
    (hlen : votes.length = r.state.faultToleranceF + 1)
    (hdecode : ∀ v ∈ votes, decodes v.2.message = true) :
    IsGreatest ({r.state.commit} ∪ {n | ∃ v ∈ votes, v.2.message.header.commit = n})
        (r.handleDoViewChanges votes).state.commit
      ∧ (∃ v ∈ votes, ∃ c ∈ candidate? v.2.message,
        (∀ v' ∈ votes, ∀ c' ∈ candidate? v'.2.message, rank c' ≤ rank c)
          ∧ (r.handleDoViewChanges votes).state.op = v.2.message.header.op
          ∧ (r.handleDoViewChanges votes).state.log = c.1.log)
      ∧ (∃ effs, (r.handleDoViewChanges votes).out
        = r.out ++ .broadcast (startViewMessage (r.handleDoViewChanges votes).state) :: effs)
      ∧ ((∀ v ∈ votes, ∀ v' ∈ votes, ∀ c ∈ candidate? v.2.message, ∀ c' ∈ candidate? v'.2.message,
          rank c = rank c' → c.1.log = c'.1.log) →
        ∀ votes' : List (Env × InboundMessage), (votes.map (·.2)).Perm (votes'.map (·.2)) →
          r.handleDoViewChanges votes' = r.handleDoViewChanges votes) := by
  obtain ⟨u, hfinal⟩ := handleDoViewChanges_quorum hempty hlen
  obtain ⟨⟨n, t, machine, hstate⟩, effs, hout⟩ :=
    startFrom_same r (selectLog u r.state.commit (votes.map (·.2.message)))
  have hne : votes.map (·.2.message) ≠ [] := fun h => by
    rw [List.map_eq_nil_iff.mp h] at hlen
    cases hlen
  have hdecode' : ∀ m ∈ votes.map (·.2.message), decodes m = true :=
    List.forall_mem_map.mpr hdecode
  refine ⟨?_, ?_, ?_, ?_⟩
  · have hgreatest := selectLog_commit_isGreatest u r.state.commit hne hdecode'
    rw [hfinal, hstate]
    simpa [startedState] using hgreatest
  · obtain ⟨m, hm, c, hc, hall, hop, hpayload⟩ :=
      selectLog_best u r.state.commit hne hdecode'
    obtain ⟨v, hv, rfl⟩ := List.mem_map.mp hm
    rw [hfinal, hstate]
    have hlog := congrArg DoViewChangePayload.log hpayload
    exact ⟨v, hv, c, hc, List.forall_mem_map.mp hall, hop, hlog⟩
  · exact ⟨effs, by rw [hfinal, hout, hstate]; rfl⟩
  · intro hsame votes' hperm
    have hlen' : votes'.length = r.state.faultToleranceF + 1 := by
      rw [← hlen]
      simpa using hperm.length_eq.symm
    obtain ⟨u', hfinal'⟩ := handleDoViewChanges_quorum hempty hlen'
    have hmsgs : (votes.map (·.2.message)).Perm (votes'.map (·.2.message)) := by
      simpa [Function.comp_def] using hperm.map InboundMessage.message
    rw [hfinal', hfinal, selectLog_perm hmsgs u u' r.state.commit hne hdecode' ?_]
    exact List.forall_mem_map.mpr fun v hv => List.forall_mem_map.mpr (hsame v hv)

end

/-- A prospective primary of view 1 and the votes of two replicas, of which one
has an op that the other has not. -/
def prospective : Replica :=
  { state := { ReplicaState.new 1 (clusterOf 3) with status := .viewChange, view := 1 } }

def loggedOne : ReplicaState :=
  appendEntry (ReplicaState.new 2 (clusterOf 3))
    { view := 0, opType := .set, clientId := ⟨0, 7⟩, requestNum := 1, payload := [97, 32, 98] }

def twoVotes : List (Env × InboundMessage) :=
  [({}, ⟨.null, doViewChangeMessage prospective.state⟩),
    ({}, ⟨.peer 2, doViewChangeMessage { loggedOne with status := .viewChange, view := 1 }⟩)]

theorem best_doViewChange_in_any_order_two :
    (∀ v ∈ twoVotes, decodes v.2.message = true)
      ∧ prospective.handleDoViewChanges twoVotes.reverse
        = prospective.handleDoViewChanges twoVotes := by
  have hdecode : ∀ v ∈ twoVotes, decodes v.2.message = true := by decide +kernel
  refine ⟨hdecode, ?_⟩
  obtain ⟨-, -, -, hperm⟩ :=
    best_doViewChange_in_any_order (r := prospective) rfl rfl hdecode
  refine hperm ?_ twoVotes.reverse ((List.reverse_perm twoVotes).symm.map _)
  intro v hv v' hv' c hc c' hc' hrank
  have hop : v.2.message.header.op = v'.2.message.header.op := by
    rw [← (deserialize_of_candidate hc 0).2, ← (deserialize_of_candidate hc' 0).2]
    exact (Prod.mk.inj (toLex.injective hrank)).2
  have hdistinct : ∀ v ∈ twoVotes, ∀ v' ∈ twoVotes,
      v.2.message.header.op = v'.2.message.header.op → v = v' := by
    decide +kernel
  obtain rfl := hdistinct v hv v' hv' hop
  rw [Option.mem_unique hc hc']

end VsrKv
